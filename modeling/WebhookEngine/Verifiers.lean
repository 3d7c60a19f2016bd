import WebhookEngine.Dispatcher
import WebhookEngine.SignedPosts

/-!
# The two verifiers side by side

`HmacSigner.verify` and `verify_webhook` look three headers up, each in its own way, and
put what they find to the same test. A `Found` is what a lookup yields, and `Carries` says
which macs it offers, under which timestamp.

* `verify_ok_iff`, `verifyWebhook_ok_iff`: both accept exactly a mac that their lookup offers;
* `verifiers_agree_iff`: on a header mapping the two agree, whatever the hash, the secret, the
  body, the time and the window, exactly when the two lookups offer the same;
* `offers_same_of_lookups`: they do when no two keys of the mapping differ in case alone.
-/

namespace WebhookEngine.Verifiers

open Lib Lib.Text HttpSender Signer SignedPosts

/-! ## What a lookup finds -/

structure Found where
  timestamp : String
  eventId : String
  signature : String
  deriving DecidableEq, Repr

/-- The lookup of `HmacSigner.verify`. -/
def foundLowered (py : Python) (headers : Headers) : Found where
  timestamp := lowered py headers "webhook-timestamp".toList
  eventId := lowered py headers "webhook-event-id".toList
  signature := lowered py headers "webhook-signature".toList

/-- The lookup of `verify_webhook`. -/
def foundExact (py : Python) (headers : Headers) : Found where
  timestamp := header py headers "Webhook-Timestamp"
  eventId := header py headers "Webhook-Event-Id"
  signature := header py headers "Webhook-Signature"

/-- The timestamp, when both headers are there and it is a number. -/
def Found.reads (x : Found) : Option Int :=
  if x.timestamp = "" ∨ x.signature = "" then none else int x.timestamp.toList

/-- Under timestamp `n` a message with the mac `d` is signed. -/
def Found.Carries (x : Found) (n : Int) (d : Digest) : Prop :=
  x.reads = some n ∧ anyDigest d.hex (macs .v1 x.signature.toList) = .ok true

/-- The two lookups offer the same macs under each timestamp, for the same event id. -/
def OffersSame (x y : Found) : Prop :=
  ∀ n d d', (x.eventId = y.eventId → d = d') → (x.Carries n d ↔ y.Carries n d')

theorem offersSame_refl (x : Found) : OffersSame x x := by
  intro n d d' hd
  rw [hd rfl]

/-! ## What is accepted -/

variable {py : Python}

theorem checkMacs_ok {version : SignatureVersion} {expected sig : List Char} {mismatch : String} :
    checkMacs version expected sig mismatch = .ok () ↔
      anyDigest expected (macs version sig) = .ok true := by
  unfold checkMacs
  by_cases hnil : macs version sig = []
  · rw [if_pos hnil, hnil]
    simp [anyDigest]
  · rw [if_neg hnil]
    split
    next e he => simp [he]
    next he => simp [he]
    next he => simp [he]

/-- A mac that the lookup offers is the one of the message, within the window. -/
def Accepts (py : Python) (x : Found) (secret : String) (body : Bytes) (now windowS : Int) : Prop :=
  ∃ n, |now - n| ≤ windowS ∧ x.Carries n (py.hmacSha256Hex secret (message py n x.eventId body))

/-- The texts of a verifier's rejections. -/
structure Texts where
  missing : String
  malformed : String
  stale : String
  mismatch : String

/-- The test that both verifiers put what they found to. -/
def test (py : Python) (texts : Texts) (x : Found) (secret : String) (body : Bytes)
    (now windowS : Int) : Except Rejection Unit :=
  if x.timestamp = "" ∨ x.signature = "" then .error (.verification texts.missing)
  else
    match int x.timestamp.toList with
    | none => .error (.verification texts.malformed)
    | some n =>
      if windowS < |now - n| then .error (.verification texts.stale)
      else checkMacs .v1 (py.hmacSha256Hex secret (message py n x.eventId body)).hex
        x.signature.toList texts.mismatch

theorem test_ok_iff (texts : Texts) (x : Found) (secret : String) (body : Bytes)
    (now windowS : Int) :
    test py texts x secret body now windowS = .ok () ↔ Accepts py x secret body now windowS := by
  unfold test Accepts Found.Carries
  by_cases hmissing : x.timestamp = "" ∨ x.signature = ""
  · rw [if_pos hmissing]
    simp [Found.reads, hmissing]
  have hreads : x.reads = int x.timestamp.toList := if_neg hmissing
  rw [if_neg hmissing, hreads]
  cases hint : int x.timestamp.toList with
  | none => simp
  | some n =>
    by_cases hw : windowS < |now - n|
    · simp only [if_pos hw]
      refine iff_of_false (by simp) ?_
      rintro ⟨m, hm, hn, -⟩
      cases hn
      exact absurd hw (not_lt.mpr hm)
    · simp only [if_neg hw]
      rw [checkMacs_ok]
      constructor
      · intro h
        exact ⟨n, not_lt.mp hw, rfl, h⟩
      · rintro ⟨m, -, hn, h⟩
        cases hn
        exact h

/-- What `HmacSigner.verify` answers. -/
def signerTexts : Texts :=
  ⟨"missing headers", "bad timestamp", "timestamp out of window", "bad mac"⟩

/-- What `verify_webhook` answers. -/
def webhookTexts : Texts :=
  ⟨"missing Webhook-Timestamp or Webhook-Signature header", "malformed Webhook-Timestamp",
    "timestamp outside the freshness window (possible replay)", "signature mismatch"⟩

theorem verify_eq_test (headers : Headers) (secret : String) (body : Bytes) (now : Datetime)
    (windowS : Int) : verify py .v1 body headers secret now windowS =
      test py signerTexts (foundLowered py headers) secret body (truncate now) windowS := rfl

theorem verifyWebhook_eq_test (headers : Headers) (secret : String) (body : Bytes)
    (now windowS : Int) : verifyWebhook py secret body headers now windowS =
      test py webhookTexts (foundExact py headers) secret body now windowS := rfl

theorem verify_ok_iff (headers : Headers) (secret : String) (body : Bytes) (now windowS : Int) :
    verify py .v1 body headers secret (now : ℚ) windowS = .ok () ↔
      Accepts py (foundLowered py headers) secret body now windowS := by
  rw [verify_eq_test, truncate_intCast, test_ok_iff]

theorem verifyWebhook_ok_iff (headers : Headers) (secret : String) (body : Bytes)
    (now windowS : Int) : verifyWebhook py secret body headers now windowS = .ok () ↔
      Accepts py (foundExact py headers) secret body now windowS := by
  rw [verifyWebhook_eq_test, test_ok_iff]

/-! ## Any keyed hash -/

/-- Python with another keyed hash. -/
def withMac (py : Python) (mac : String → List Char → Digest) : Python :=
  { py with hmacSha256Hex := mac }

theorem found_withMac (mac : String → List Char → Digest) (headers : Headers) :
    foundLowered (withMac py mac) headers = foundLowered py headers ∧
      foundExact (withMac py mac) headers = foundExact py headers :=
  ⟨rfl, rfl⟩

/-- A signed message tells its parts: the timestamp has no dot, the digest 64 digits. -/
theorem message_inj {n n' : Int} {eventId eventId' : String} {body body' : Bytes}
    (h : message py n eventId body = message py n' eventId' body') :
    n = n' ∧ eventId = eventId' ∧ (py.sha256Hex body).hex = (py.sha256Hex body').hex := by
  have hdot : ∀ n : Int, '.' ∉ str n := by
    intro n hm
    rcases isDigit_or_minus_of_mem_str hm with hd | hd <;> cases hd
  obtain ⟨hn, hid, hbody⟩ := join_inj (hdot n) (hdot n')
    ((py.sha256Hex body).length_hex.trans (py.sha256Hex body').length_hex.symm) h
  exact ⟨str_inj hn, String.toList_inj.mp hid, hbody⟩

theorem accepts_of_offersSame {x y : Found} (h : OffersSame x y) (py : Python) {secret : String}
    {body : Bytes} {now windowS : Int} (hx : Accepts py x secret body now windowS) :
    Accepts py y secret body now windowS := by
  obtain ⟨n, hw, hc⟩ := hx
  exact ⟨n, hw, (h n _ _ fun hid => by rw [hid]).mp hc⟩

theorem offersSame_symm {x y : Found} (h : OffersSame x y) : OffersSame y x :=
  fun n d d' hd => (h n d' d fun hid => (hd hid.symm).symm).symm

/-- At the timestamp itself, with no window, one mac decides. -/
theorem accepts_at_timestamp (x : Found) (secret : String) (body : Bytes) (n : Int) :
    Accepts py x secret body n 0 ↔
      x.Carries n (py.hmacSha256Hex secret (message py n x.eventId body)) := by
  constructor
  · rintro ⟨m, hm, hc⟩
    rw [abs_le] at hm
    obtain rfl : m = n := by omega
    exact hc
  · intro hc
    exact ⟨n, by simp, hc⟩

/-- **When the two verifiers agree**: for a header mapping they accept the same, under every
keyed hash, secret, body, time and window, exactly when their lookups offer the same. -/
theorem verifiers_agree_iff (py : Python) (headers : Headers) :
    (∀ mac secret body (now windowS : Int),
      verify (withMac py mac) .v1 body headers secret (now : ℚ) windowS = .ok () ↔
        verifyWebhook (withMac py mac) secret body headers now windowS = .ok ()) ↔
      OffersSame (foundLowered py headers) (foundExact py headers) := by
  simp only [verify_ok_iff, verifyWebhook_ok_iff, found_withMac]
  generalize foundLowered py headers = x
  generalize foundExact py headers = y
  constructor
  · intro h n d d' hd
    -- a hash that gives the first message the mac `d` and any other the mac `d'`
    let mac : String → List Char → Digest := fun _ m =>
      if m = message py n x.eventId [] then d else d'
    have hmac : mac "" (message py n y.eventId []) = d' := by
      simp only [mac]
      split
      case isTrue hm => exact hd (message_inj hm).2.1.symm
      case isFalse => rfl
    have hagree := h mac "" [] n 0
    rw [accepts_at_timestamp, accepts_at_timestamp] at hagree
    change x.Carries n (mac "" (message py n x.eventId [])) ↔
      y.Carries n (mac "" (message py n y.eventId [])) at hagree
    rw [hmac, show mac "" (message py n x.eventId []) = d from if_pos rfl] at hagree
    exact hagree
  · intro h mac secret body now windowS
    exact ⟨accepts_of_offersSame h _, accepts_of_offersSame (offersSame_symm h) _⟩

/-! ## Keys that differ in case -/

/-- No two keys of the mapping differ in case alone. -/
def CaseDistinct (py : Python) (headers : Headers) : Prop :=
  ∀ kv ∈ headers.rows, ∀ kv' ∈ headers.rows, py.lower kv.1.toList = py.lower kv'.1.toList → kv = kv'

theorem lowered_of_only {headers : Headers} {kv : String × String} {name : List Char}
    (hkv : kv ∈ headers.rows) (hname : py.lower kv.1.toList = name)
    (honly : ∀ kv' ∈ headers.rows, py.lower kv'.1.toList = name → kv' = kv) :
    lowered py headers name = kv.2 := by
  have hfold : ∀ (rows : List (String × String)) (v : String), (∀ r ∈ rows, r ∈ headers.rows) →
      v = kv.2 ∨ kv ∈ rows →
      rows.foldl (fun v r => if py.lower r.1.toList = name then r.2 else v) v = kv.2 := by
    intro rows
    induction rows with
    | nil =>
      intro v _ hv
      simpa using hv
    | cons r rows ih =>
      intro v hrows hv
      rw [List.foldl_cons]
      apply ih _ fun x hx => hrows x (List.mem_cons_of_mem _ hx)
      split
      case isTrue hr =>
        exact Or.inl (by rw [honly r (hrows r (List.mem_cons_self ..)) hr])
      case isFalse hr =>
        rcases hv with hv | hv
        · exact Or.inl hv
        · rcases List.mem_cons.mp hv with rfl | hv
          · exact absurd hname hr
          · exact Or.inr hv
  exact hfold headers.rows "" (fun _ h => h) (Or.inr hkv)

theorem header_eq_lowered {headers : Headers} (h : CaseDistinct py headers) (name : String) :
    header py headers name = lowered py headers (py.lower name.toList) := by
  unfold header
  split
  next kv hfind =>
    obtain ⟨hkv, hkey⟩ := Table.find?_eq_some.mp hfind
    refine (lowered_of_only hkv (by rw [hkey]) fun kv' hkv' hlower => ?_).symm
    exact h kv' hkv' kv hkv (by rw [hlower, hkey])
  · rfl

theorem offers_same_of_lookups {headers : Headers} (h : CaseDistinct py headers) :
    OffersSame (foundLowered py headers) (foundExact py headers) := by
  have heq : foundLowered py headers = foundExact py headers := by
    simp only [foundLowered, foundExact, header_eq_lowered h,
      py.lower_text (s := "Webhook-Timestamp") (l := "webhook-timestamp") (by decide) (by decide),
      py.lower_text (s := "Webhook-Event-Id") (l := "webhook-event-id") (by decide) (by decide),
      py.lower_text (s := "Webhook-Signature") (l := "webhook-signature") (by decide) (by decide)]
  rw [heq]
  exact offersSame_refl _

/-! ## A mapping with two casings -/

/-- A signed delivery to which a second signature header, in lower case, is added. -/
def exampleHeaders : Headers where
  rows := [("Webhook-Timestamp", "1700000000"), ("Webhook-Event-Id", "evt_1"),
    ("Webhook-Signature", "v1=98838821126920cc3480cc703bd3b6cd7f5a41eab08b20f2c69d115eab874024"),
    ("webhook-signature", "v1=00")]
  nodup := by decide

/-- `verify_webhook` reads the exact key and accepts, `HmacSigner.verify` the last one of any
casing and rejects. -/
theorem casing_divides_verifiers :
    verify Dispatcher.examplePython .v1 [] exampleHeaders "current" ((1700000000 : Int) : ℚ) 300 =
        .error (.verification "bad mac") ∧
      verifyWebhook Dispatcher.examplePython "current" [] exampleHeaders 1700000000 300 =
        .ok () := by
  constructor
  · decide +kernel
  · decide +kernel

end WebhookEngine.Verifiers
