import Mathlib.Data.Set.Function
import WebhookEngine.Verifiers

/-!
# Forged deliveries

What the two verifiers make of headers that the sender did not write. A signature that was
taken from one delivery does not fit another one; and a signature that was made up is not
always rejected with the documented error, since `compare_digest` raises on text that is
not ASCII.

* `untampered_of_acceptedMac`: an accepted mac of `sign` comes with what was signed;
* `contained_iff`: when no other exception escapes.
-/

namespace WebhookEngine.Forgeries

open Lib Lib.Text HttpSender Signer SignedPosts Verifiers

variable {py : Python}

/-! ## Signatures of other deliveries -/

/-- The message that `sign` signs. -/
def signedMessage (py : Python) (c : SignCall) : List Char :=
  message py (truncate c.now) c.eventId c.body

/-- The mac of the header that `sign` returns. -/
def signedMac (py : Python) (c : SignCall) : Digest :=
  py.hmacSha256Hex c.secret (signedMessage py c)

/-- The mac under which a verifier accepts what it found. -/
def acceptedMac (py : Python) (x : Found) (secret : String) (body : Bytes) : Option (List Char) :=
  x.reads.bind fun n => (macs .v1 x.signature.toList).find? fun provided =>
    provided = (py.hmacSha256Hex secret (message py n x.eventId body)).hex

theorem mem_of_anyDigest {expected : List Char} {provided : List (List Char)}
    (h : anyDigest expected provided = .ok true) : expected ∈ provided := by
  induction provided with
  | nil => cases h
  | cons p ps ih =>
    rw [anyDigest] at h
    split at h
    · cases h
    · split at h
      case isTrue he =>
        rw [he]
        exact List.mem_cons_self ..
      case isFalse => exact List.mem_cons_of_mem _ (ih h)

/-- Whatever is accepted is accepted under some mac. -/
theorem acceptedMac_isSome {x : Found} {secret : String} {body : Bytes} {now windowS : Int}
    (h : Accepts py x secret body now windowS) : (acceptedMac py x secret body).isSome = true := by
  obtain ⟨n, -, hreads, hany⟩ := h
  rw [acceptedMac, hreads, Option.bind_some, List.find?_isSome]
  exact ⟨_, mem_of_anyDigest hany, decide_eq_true rfl⟩

/-- The timestamp, the event id and the digest of the body are those that were signed. -/
structure Untampered (py : Python) (x : Found) (body : Bytes) (c : SignCall) : Prop where
  timestamp : int x.timestamp.toList = some (truncate c.now)
  eventId : x.eventId = c.eventId
  body : (py.sha256Hex body).hex = (py.sha256Hex c.body).hex

theorem digest_of_hex {d d' : Digest} (h : d.hex = d'.hex) : d = d' := by
  cases d
  cases d'
  cases h
  rfl

/-- The message that a verifier makes of what it found. -/
def checkedMessage (py : Python) (x : Found) (body : Bytes) : Option (List Char) :=
  x.reads.map fun n => message py n x.eventId body

/-- No two messages in play have one mac, the signed one and the checked one among them. -/
structure MacBinds (py : Python) (messages : Set (List Char)) (c : SignCall) (x : Found)
    (body : Bytes) : Prop where
  injective : Set.InjOn (py.hmacSha256Hex c.secret) messages
  signed : signedMessage py c ∈ messages
  checked : ∀ m, checkedMessage py x body = some m → m ∈ messages

theorem untampered_of_acceptedMac {messages : Set (List Char)} {c : SignCall} {x : Found}
    {body : Bytes} (hbinds : MacBinds py messages c x body)
    (h : acceptedMac py x c.secret body = some (signedMac py c).hex) :
    Untampered py x body c := by
  obtain ⟨n, hreads, hfind⟩ := Option.bind_eq_some_iff.mp h
  have hmac : signedMac py c = py.hmacSha256Hex c.secret (message py n x.eventId body) :=
    digest_of_hex (by simpa using List.find?_some hfind)
  have hchecked := hbinds.checked _ (by rw [checkedMessage, hreads, Option.map_some])
  obtain ⟨hn, hid, hbody⟩ := message_inj (hbinds.injective hbinds.signed hchecked hmac)
  have hint : int x.timestamp.toList = some n := (Option.ite_none_left_eq_some.mp hreads).2
  exact ⟨by rw [hint, hn], hid.symm, hbody.symm⟩

/-- The verdict `accepted` rests on a mac, and if `sign` has produced that mac for `c`, then
nothing was tampered with. -/
def Detects (py : Python) (accepted : Prop) (x : Found) (body : Bytes) (c : SignCall) : Prop :=
  accepted → (acceptedMac py x c.secret body).isSome = true ∧
    (acceptedMac py x c.secret body = some (signedMac py c).hex → Untampered py x body c)

theorem detects_of_test {messages : Set (List Char)} {c : SignCall} {x : Found} {body : Bytes}
    (hbinds : MacBinds py messages c x body) (texts : Texts) (now windowS : Int) :
    Detects py (test py texts x c.secret body now windowS = .ok ()) x body c := fun h =>
  ⟨acceptedMac_isSome ((test_ok_iff ..).mp h), untampered_of_acceptedMac hbinds⟩

/-- **Tampering is detected.** Equal signed messages have equal parts; and where the keyed
hash does not collide, what either verifier accepts under a mac that `sign` has produced
carries the timestamp, the event id and the digest of the body that were signed. -/
theorem tampering_detected (py : Python) :
    (∀ (ts ts' : Int) (eventId eventId' : String) (body body' : Bytes),
      message py ts eventId body = message py ts' eventId' body' →
        ts = ts' ∧ eventId = eventId' ∧ (py.sha256Hex body).hex = (py.sha256Hex body').hex) ∧
    ∀ (messages : Set (List Char)) (c : SignCall) (headers : Headers) (body : Bytes)
      (windowS : Int),
      (MacBinds py messages c (foundLowered py headers) body → ∀ now : Datetime,
        Detects py (verify py .v1 body headers c.secret now windowS = .ok ())
          (foundLowered py headers) body c) ∧
      (MacBinds py messages c (foundExact py headers) body → ∀ nowTs : Int,
        Detects py (verifyWebhook py c.secret body headers nowTs windowS = .ok ())
          (foundExact py headers) body c) := by
  refine ⟨fun _ _ _ _ _ _ h => message_inj h, fun _ c headers body windowS => ⟨?_, ?_⟩⟩
  · intro hbinds now
    rw [verify_eq_test]
    exact detects_of_test hbinds signerTexts _ windowS
  · intro hbinds nowTs
    rw [verifyWebhook_eq_test]
    exact detects_of_test hbinds webhookTexts nowTs windowS

/-- A call of `sign` at the POSIX time 1700000000. -/
def exampleCall (eventId : String) : SignCall where
  deliveryId := "d"
  eventName := "task.created"
  eventId := eventId
  body := [0x7b, 0x7d]
  secret := "current"
  now := 1700000000

/-- With the macs of two events. -/
def twoEvents : Python := withMac Dispatcher.examplePython fun secret m =>
  if m = signedMessage Dispatcher.examplePython (exampleCall "evt_2") then
    Dispatcher.exampleDigest "b63c9b75bdcaaae0c00e776488e99982070142d8b2065cc9504e1f106628890c"
      (by decide) (by decide)
  else Dispatcher.examplePython.hmacSha256Hex secret m

/-- A delivery of the first event, with a signature of an older secret beside its own. -/
def deliveredHeaders : Headers where
  rows := [("webhook-timestamp", "1700000000"), ("webhook-event-id", "evt_1"),
    ("webhook-signature",
      "v1=00 v1=98838821126920cc3480cc703bd3b6cd7f5a41eab08b20f2c69d115eab874024")]
  nodup := by decide

theorem tampering_detected_delivered :
    Untampered twoEvents (foundLowered twoEvents deliveredHeaders) [0x7b, 0x7d]
        (exampleCall "evt_1") ∧
      Untampered twoEvents (foundExact twoEvents deliveredHeaders) [0x7b, 0x7d]
        (exampleCall "evt_1") := by
  let messages : Set (List Char) := {m | m = signedMessage twoEvents (exampleCall "evt_1") ∨
    m = signedMessage twoEvents (exampleCall "evt_2")}
  have hmacs : twoEvents.hmacSha256Hex "current" (signedMessage twoEvents (exampleCall "evt_1")) ≠
      twoEvents.hmacSha256Hex "current" (signedMessage twoEvents (exampleCall "evt_2")) :=
    fun h => absurd (congrArg Digest.hex h) (by decide +kernel)
  have hinj : Set.InjOn (twoEvents.hmacSha256Hex "current") messages := by
    rintro m (rfl | rfl) m' (rfl | rfl) h
    · rfl
    · exact absurd h hmacs
    · exact absurd h.symm hmacs
    · rfl
  have hlowered : checkedMessage twoEvents (foundLowered twoEvents deliveredHeaders) [0x7b, 0x7d] =
      some (signedMessage twoEvents (exampleCall "evt_1")) := by decide +kernel
  have hexact : checkedMessage twoEvents (foundExact twoEvents deliveredHeaders) [0x7b, 0x7d] =
      some (signedMessage twoEvents (exampleCall "evt_1")) := by decide +kernel
  obtain ⟨hverify, hwebhook⟩ := (tampering_detected twoEvents).2 messages (exampleCall "evt_1")
    deliveredHeaders [0x7b, 0x7d] 300
  constructor
  · refine (hverify ⟨hinj, Or.inl rfl, fun m hm => ?_⟩ 1700000000 (by decide +kernel)).2
      (by decide +kernel)
    exact Or.inl (Option.some_inj.mp (hm.symm.trans hlowered))
  · refine (hwebhook ⟨hinj, Or.inl rfl, fun m hm => ?_⟩ 1700000000 (by decide +kernel)).2
      (by decide +kernel)
    exact Or.inl (Option.some_inj.mp (hm.symm.trans hexact))

/-! ## Signatures that were made up -/

def isAscii (s : List Char) : Bool := s.all fun c => decide (c.toNat < 128)

/-- The signatures that are compared before one matches, the matching one left out. -/
def comparedInVain (expected : List Char) (provided : List (List Char)) : List (List Char) :=
  provided.takeWhile (· ≠ expected)

theorem any_eq_not_isAscii (p : List Char) :
    p.any (fun c => decide (128 ≤ c.toNat)) = !isAscii p := by
  rw [isAscii, List.not_all_eq_any_not]
  have hc : ∀ c : Char, decide (128 ≤ c.toNat) = !decide (c.toNat < 128) := by
    intro c
    rw [← decide_not, decide_eq_decide]
    exact not_lt.symm
  simp only [hc]

/-- `compare_digest` raises on the first mac that is not ASCII, if none before it matches. -/
theorem anyDigest_ok_iff {expected : List Char} (hexpected : isAscii expected = true)
    (provided : List (List Char)) : anyDigest expected provided ≠ .error .typeError ↔
      ∀ p ∈ comparedInVain expected provided, isAscii p = true := by
  induction provided with
  | nil => simp [anyDigest, comparedInVain]
  | cons p ps ih =>
    rw [anyDigest, any_eq_not_isAscii, comparedInVain, List.takeWhile_cons]
    by_cases hp : p = expected
    · subst hp
      simp [hexpected]
    · have hne : decide (p ≠ expected) = true := decide_eq_true hp
      rw [hne]
      cases hascii : isAscii p with
      | false => simp [hascii]
      | true =>
        rw [Bool.not_true, if_neg Bool.false_ne_true, if_neg (Ne.symm hp), ih]
        simp [comparedInVain, hascii]

/-- The verifier returns, or raises its documented error. -/
def Contained (verdict : Except Rejection Unit) : Prop :=
  verdict = .ok () ∨ ∃ detail, verdict = .error (.verification detail)

theorem contained_iff_ne (verdict : Except Rejection Unit) :
    Contained verdict ↔ verdict ≠ .error .typeError := by
  rcases verdict with (detail | -) | - <;> simp [Contained]

/-- If the comparison is reached, then no mac before the right one has a character that is
not ASCII. -/
def Comparable (py : Python) (x : Found) (secret : String) (body : Bytes) (now windowS : Int) :
    Prop :=
  ∀ n, x.reads = some n → |now - n| ≤ windowS →
    ∀ p ∈ comparedInVain (py.hmacSha256Hex secret (message py n x.eventId body)).hex
      (macs .v1 x.signature.toList), isAscii p = true

theorem checkMacs_ne_iff (d : Digest) (sig : List Char) (mismatch : String) :
    checkMacs .v1 d.hex sig mismatch ≠ .error .typeError ↔
      ∀ p ∈ comparedInVain d.hex (macs .v1 sig), isAscii p = true := by
  have hhex : isAscii d.hex = true := by
    have h := any_eq_not_isAscii d.hex
    rw [ascii_hex] at h
    simpa using h
  rw [← anyDigest_ok_iff hhex, checkMacs]
  by_cases hnil : macs .v1 sig = []
  · rw [if_pos hnil, hnil]
    simp [anyDigest]
  · rw [if_neg hnil]
    rcases anyDigest d.hex (macs .v1 sig) with e | _ | _ <;> simp

theorem test_contained_iff (texts : Texts) (x : Found) (secret : String) (body : Bytes)
    (now windowS : Int) : Contained (test py texts x secret body now windowS) ↔
      Comparable py x secret body now windowS := by
  rw [contained_iff_ne, test, Comparable]
  by_cases hmissing : x.timestamp = "" ∨ x.signature = ""
  · rw [if_pos hmissing, show x.reads = none from if_pos hmissing]
    simp
  rw [if_neg hmissing, show x.reads = int x.timestamp.toList from if_neg hmissing]
  cases int x.timestamp.toList with
  | none => simp
  | some n =>
    by_cases hw : windowS < |now - n|
    · simp [hw]
    · simp only [if_neg hw, checkMacs_ne_iff, Option.some.injEq, forall_eq', not_lt.mp hw,
        forall_true_left]

/-- **When no other exception escapes**: for a header mapping, exactly when every mac that is
compared before the right one is ASCII. -/
theorem contained_iff (py : Python) (headers : Headers) (secret : String) (body : Bytes)
    (windowS : Int) :
    (∀ now : Datetime, Contained (verify py .v1 body headers secret now windowS) ↔
      Comparable py (foundLowered py headers) secret body (truncate now) windowS) ∧
    ∀ nowTs : Int, Contained (verifyWebhook py secret body headers nowTs windowS) ↔
      Comparable py (foundExact py headers) secret body nowTs windowS := by
  refine ⟨fun now => ?_, fun nowTs => ?_⟩
  · rw [verify_eq_test, test_contained_iff]
  · rw [verifyWebhook_eq_test, test_contained_iff]

/-- A fresh delivery whose signature was made up. -/
def forgedHeaders : Headers where
  rows := [("Webhook-Timestamp", "1700000000"), ("Webhook-Event-Id", "evt_1"),
    ("Webhook-Signature", "v1=é")]
  nodup := by decide

/-- One character that is not ASCII lets a `TypeError` out of both verifiers. -/
theorem forged_raises_typeError :
    verify Dispatcher.examplePython .v1 [] forgedHeaders "current" 1700000000 300 =
        .error .typeError ∧
      ¬ Contained (verify Dispatcher.examplePython .v1 [] forgedHeaders "current" 1700000000 300) ∧
      ¬ Contained
        (verifyWebhook Dispatcher.examplePython "current" [] forgedHeaders 1700000000 300) := by
  have hverify : verify Dispatcher.examplePython .v1 [] forgedHeaders "current" 1700000000 300 =
      .error .typeError := by decide +kernel
  have hwebhook : verifyWebhook Dispatcher.examplePython "current" [] forgedHeaders 1700000000 300 =
      .error .typeError := by decide +kernel
  refine ⟨hverify, ?_, ?_⟩
  · rw [contained_iff_ne, not_not]
    exact hverify
  · rw [contained_iff_ne, not_not]
    exact hwebhook

end WebhookEngine.Forgeries
