import Mathlib.Data.Rat.Floor
import WebhookEngine.Dispatcher

/-!
# What a receiver verifies

The body and the headers of a call of `sender.post`, as `HmacSigner` signs and the
dispatcher assembles them, against both verifiers.

* `posted_signed`: the headers carry the signature of the current secret, and the
  one of the previous secret while its grace window is open;
* `posted_verifies`: they are accepted under these secrets within the window, and
  under no other.
-/

namespace WebhookEngine.SignedPosts

open Lib Lib.Text HttpSender Signer Dispatcher

/-! ## Whole seconds -/

theorem truncate_of_nonneg {x : ℚ} (h : 0 ≤ x) : truncate x = ⌊x⌋ := by
  rw [truncate, Rat.floor_def', Int.tdiv_eq_ediv_of_nonneg (Rat.num_nonneg.mpr h)]

theorem truncate_neg (x : ℚ) : truncate (-x) = -truncate x := by
  rw [truncate, truncate, Rat.neg_num, Rat.neg_den, Int.neg_tdiv]

theorem truncate_of_nonpos {x : ℚ} (h : x ≤ 0) : truncate x = ⌈x⌉ := by
  have hneg := truncate_of_nonneg (neg_nonneg.mpr h)
  rw [truncate_neg, Int.floor_neg] at hneg
  exact neg_injective hneg

theorem floor_le_truncate (x : ℚ) : ⌊x⌋ ≤ truncate x := by
  rcases le_total 0 x with h | h
  · exact (truncate_of_nonneg h).ge
  · rw [truncate_of_nonpos h]
    exact Int.floor_le_ceil x

/-- Times that are close stay close in whole seconds. -/
theorem truncate_le_add {x y : ℚ} {w : Int} (hw : 0 ≤ w) (h : x ≤ y + w) :
    truncate x ≤ truncate y + w := by
  rcases le_total 0 x with hx | hx
  · calc truncate x = ⌊x⌋ := truncate_of_nonneg hx
      _ ≤ ⌊y + w⌋ := Int.floor_le_floor h
      _ = ⌊y⌋ + w := Int.floor_add_intCast y w
      _ ≤ truncate y + w := by
        have hfloor := floor_le_truncate y
        omega
  · rw [truncate_of_nonpos hx]
    rcases le_total 0 y with hy | hy
    · have hceil : ⌈x⌉ ≤ 0 := Int.ceil_le.mpr (by exact_mod_cast hx)
      have hfloor : 0 ≤ ⌊y⌋ := Int.floor_nonneg.mpr hy
      rw [truncate_of_nonneg hy]
      omega
    · rw [truncate_of_nonpos hy]
      calc ⌈x⌉ ≤ ⌈y + w⌉ := Int.ceil_le_ceil h
        _ = ⌈y⌉ + w := Int.ceil_add_intCast y w

/-- The receiver's clock is within the window of the send time, to the instant or
in whole seconds. -/
def Within (t now : Datetime) (windowS : Int) : Prop :=
  |t - now| ≤ windowS ∨ |truncate t - truncate now| ≤ windowS

theorem Within.truncate {t now : Datetime} {w : Int} (h : Within t now w) :
    |truncate t - truncate now| ≤ w := by
  rcases h with h | h
  · obtain ⟨hl, hr⟩ := abs_le.mp h
    have hw : 0 ≤ w := by exact_mod_cast (abs_nonneg (t - now)).trans h
    have h1 := truncate_le_add hw (show t ≤ now + w by linarith)
    have h2 := truncate_le_add hw (show now ≤ t + w by linarith)
    rw [abs_le]
    omega
  · exact h

/-! ## The signatures of a call -/

variable {py : Python}

/-- The mac of a call under a secret. -/
def macOf (py : Python) (r : DeliveryRecord) (call : PostCall) (now : Datetime) (secret : String) :
    Digest :=
  py.hmacSha256Hex secret (message py (truncate now) r.eventId call.body)

/-- Every profile that serves the record signs with the shipped signer. -/
def ShippedSigner (d : WebhookDispatcher py) (r : DeliveryRecord) : Prop :=
  ∀ profile, d.profiles.of r = some profile → profile.signer.getD d.signer = hmacSigner py .v1

theorem signature_toList (c : SignCall) : (sign py .v1 c).webhookSignature.toList =
    signature .v1 (py.hmacSha256Hex c.secret (message py (truncate c.now) c.eventId c.body)) :=
  String.toList_ofList

/-- The headers of a call: one signature, or two while the grace window is open. -/
theorem posted_signed {d : WebhookDispatcher py} {r : DeliveryRecord} {ans : Answers}
    {call : PostCall} {secret : SecretMaterial} (hsigner : ShippedSigner d r)
    (hsecret : ans.secret = some secret) (h : (send d r ans).post = some call) :
    ∃ headers : SignatureHeaders, call.headers = headers.asDict ∧
      headers.webhookEventId = r.eventId ∧
      Signed py .v1 headers ans.now (macOf py r call ans.now secret.current ::
        (secret.previousAt ans.now).toList.map (macOf py r call ans.now)) := by
  obtain ⟨profile, parsed, port, secret', hp⟩ := send_post h
  have hs := hp.resolved
  rw [hsecret] at hs
  cases hs
  have hsigned := hp.signed
  rw [buildSigned] at hsigned
  obtain ⟨body, -, hsigned⟩ := Option.bind_eq_some_iff.mp hsigned
  simp only [hsigner profile hp.found] at hsigned
  obtain ⟨signed, hcurrent, hsigned⟩ := Option.bind_eq_some_iff.mp hsigned
  obtain ⟨hprinted, rfl⟩ := hmacSigner_some hcurrent
  cases hprev : secret.previousAt ans.now with
  | none =>
    rw [hprev] at hsigned
    simp only [Option.some.injEq, Prod.mk.injEq] at hsigned
    obtain ⟨rfl, hheaders⟩ := hsigned
    refine ⟨_, hheaders.symm, rfl, rfl, hprinted, ?_⟩
    rw [signature_toList, macs_signature]
    rfl
  | some previous =>
    rw [hprev] at hsigned
    obtain ⟨old, hold, hsigned⟩ := Option.bind_eq_some_iff.mp hsigned
    obtain ⟨-, rfl⟩ := hmacSigner_some hold
    simp only [Option.some.injEq, Prod.mk.injEq] at hsigned
    obtain ⟨rfl, hheaders⟩ := hsigned
    refine ⟨_, hheaders.symm, rfl, rfl, hprinted, ?_⟩
    have hblank : " ".toList = [' '] := rfl
    simp only [String.toList_append, signature_toList, hblank, List.append_assoc,
      List.singleton_append, macs_signatures]
    rfl

/-- Both verifiers accept a call at the times given. -/
def Accepted (py : Python) (call : PostCall) (now : Datetime) (secret : String) : Prop :=
  (∀ t windowS, Within t now windowS →
    verify py .v1 call.body call.headers secret t windowS = .ok ()) ∧
  ∀ (nowTs : Int) windowS, Within nowTs now windowS →
    verifyWebhook py secret call.body call.headers nowTs windowS = .ok ()

/-- Neither verifier accepts a call at any time. -/
def Rejected (py : Python) (call : PostCall) (secret : String) : Prop :=
  (∀ t windowS, verify py .v1 call.body call.headers secret t windowS ≠ .ok ()) ∧
  ∀ nowTs windowS, verifyWebhook py secret call.body call.headers nowTs windowS ≠ .ok ()

theorem accepted_of_mem {r : DeliveryRecord} {call : PostCall} {now : Datetime}
    {headers : SignatureHeaders} {d : Digest} {ds : List Digest} {secret : String}
    (hh : call.headers = headers.asDict) (hid : headers.webhookEventId = r.eventId)
    (hs : Signed py .v1 headers now (d :: ds))
    (hm : (macOf py r call now secret).hex ∈ (d :: ds).map Digest.hex) :
    Accepted py call now secret := by
  rw [macOf, ← hid] at hm
  constructor
  · intro t windowS hw
    rw [hh]
    exact (verify_signed_iff hs call.body secret t windowS).mpr ⟨hw.truncate, hm⟩
  · intro nowTs windowS hw
    have hw' := hw.truncate
    rw [truncate_intCast] at hw'
    rw [hh]
    exact (verifyWebhook_signed_iff hs call.body secret nowTs windowS).mpr ⟨hw', hm⟩

theorem rejected_of_not_mem {r : DeliveryRecord} {call : PostCall} {now : Datetime}
    {headers : SignatureHeaders} {d : Digest} {ds : List Digest} {secret : String}
    (hh : call.headers = headers.asDict) (hid : headers.webhookEventId = r.eventId)
    (hs : Signed py .v1 headers now (d :: ds))
    (hm : (macOf py r call now secret).hex ∉ (d :: ds).map Digest.hex) :
    Rejected py call secret := by
  rw [macOf, ← hid] at hm
  constructor
  · intro t windowS hok
    rw [hh] at hok
    exact hm ((verify_signed_iff hs call.body secret t windowS).mp hok).2
  · intro nowTs windowS hok
    rw [hh] at hok
    exact hm ((verifyWebhook_signed_iff hs call.body secret nowTs windowS).mp hok).2

/-- **What is posted verifies**: under the current secret, under the previous one
in its grace window, and without such a window under no secret with another mac. -/
theorem posted_verifies (d : WebhookDispatcher py) (r : DeliveryRecord) (ans : Answers)
    (call : PostCall) (secret : SecretMaterial) (hsigner : ShippedSigner d r)
    (hsecret : ans.secret = some secret) (h : (send d r ans).post = some call) :
    Accepted py call ans.now secret.current ∧
    (∀ previous expires, secret.previous = some previous →
      secret.previousExpiresAt = some expires → ans.now < expires →
      Accepted py call ans.now previous) ∧
    ((¬ ∃ previous expires, secret.previous = some previous ∧
        secret.previousExpiresAt = some expires ∧ ans.now < expires) →
      ∀ other, (macOf py r call ans.now other).hex ≠ (macOf py r call ans.now secret.current).hex →
        Rejected py call other) := by
  obtain ⟨headers, hh, hid, hs⟩ := posted_signed hsigner hsecret h
  refine ⟨accepted_of_mem hh hid hs (by simp), ?_, ?_⟩
  · intro previous expires hp he hlt
    apply accepted_of_mem hh hid hs
    simp [SecretMaterial.previousAt, hp, he, not_le.mpr hlt]
  · intro hclosed other hne
    have hnone : secret.previousAt ans.now = none := by
      rw [SecretMaterial.previousAt]
      split
      next previous expires hp he =>
        split
        case isTrue => rfl
        case isFalse hlt =>
          exact absurd ⟨previous, expires, hp, he, not_le.mp hlt⟩ hclosed
      · rfl
    rw [hnone] at hs
    exact rejected_of_not_mem hh hid hs (by simpa using hne)

theorem posted_verifies_in_grace_window : ∃ call,
    (send exampleDispatcher (exampleRecord "d" "https://example.com/hook")
      (exampleAnswers 1700000000 (some "8.8.8.8"))).post = some call ∧
    Accepted examplePython call 1700000000 "current" ∧
    Accepted examplePython call 1700000000 "previous" := by
  obtain ⟨call, hcall⟩ := Option.isSome_iff_exists.mp (by decide +kernel :
    (send exampleDispatcher (exampleRecord "d" "https://example.com/hook")
      (exampleAnswers 1700000000 (some "8.8.8.8"))).post.isSome = true)
  have hsigner :
      ShippedSigner exampleDispatcher (exampleRecord "d" "https://example.com/hook") := by
    intro profile hprofile
    cases hprofile
    rfl
  obtain ⟨hcurrent, hprevious, -⟩ := posted_verifies _ _ _ call _ hsigner rfl hcall
  exact ⟨call, hcall, hcurrent, hprevious _ _ rfl rfl (by decide +kernel)⟩

end WebhookEngine.SignedPosts
