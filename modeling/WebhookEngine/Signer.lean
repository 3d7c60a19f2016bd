import WebhookEngine.HttpSender

/-!
# Signing and verifying

`HmacSigner` of `signer.py`, `SignatureHeaders` of `types.py` and
`verify_webhook` of `verify.py`. SHA-256 and HMAC are given (`Lib.Python`).

The two verifiers differ in how they look a header up and end in one check.

* `verify_signed_iff`, `verifyWebhook_signed_iff`: headers with the signatures of
  some secrets are accepted exactly within the window and under a secret whose mac
  is among theirs.
-/

namespace WebhookEngine.Signer

open Lib Lib.Text HttpSender

/-! ## Signing -/

structure SignatureHeaders where
  webhookId : String
  webhookEvent : String
  webhookEventId : String
  webhookTimestamp : String
  webhookSignature : String
  deriving DecidableEq, Repr

def SignatureHeaders.asDict (h : SignatureHeaders) : Headers where
  rows := [
    ("Webhook-Id", h.webhookId),
    ("Webhook-Event", h.webhookEvent),
    ("Webhook-Event-Id", h.webhookEventId),
    ("Webhook-Timestamp", h.webhookTimestamp),
    ("Webhook-Signature", h.webhookSignature),
    ("Content-Type", "application/json")]
  nodup := (by decide : ["Webhook-Id", "Webhook-Event", "Webhook-Event-Id", "Webhook-Timestamp",
    "Webhook-Signature", "Content-Type"].Nodup)

/-- What a signer hands back: the shipped header set, or a custom one's `as_dict()`. -/
inductive SignedHeaders where
  | shipped (h : SignatureHeaders)
  | custom (h : Headers)

def SignedHeaders.asDict : SignedHeaders → Headers
  | .shipped h => h.asDict
  | .custom h => h

/-- The arguments of `SignerProtocol.sign`. -/
structure SignCall where
  deliveryId : String
  eventName : String
  eventId : String
  body : Bytes
  secret : String
  now : Datetime

/-- `SignerProtocol.sign`; `none` if the signer raises. -/
abbrev SignerProtocol := SignCall → Option SignedHeaders

variable (py : Python)

/-- `f"{timestamp}.{event_id}.{sha256_hex(body)}"`. -/
def message (ts : Int) (eventId : String) (body : Bytes) : List Char :=
  str ts ++ '.' :: eventId.toList ++ '.' :: (py.sha256Hex body).hex

/-- `f"{version}={mac}"`. -/
def signature (version : SignatureVersion) (mac : Digest) : List Char :=
  version.value.toList ++ '=' :: mac.hex

/-- `HmacSigner.sign`. -/
def sign (version : SignatureVersion) (c : SignCall) : SignatureHeaders where
  webhookId := c.deliveryId
  webhookEvent := c.eventName
  webhookEventId := c.eventId
  webhookTimestamp := String.ofList (str (truncate c.now))
  webhookSignature := String.ofList (signature version
    (py.hmacSha256Hex c.secret (message py (truncate c.now) c.eventId c.body)))

/-- The shipped signer; `str` raises on a timestamp with more digits than it may print. -/
def hmacSigner (version : SignatureVersion) : SignerProtocol := fun c =>
  if maxStrDigits < (Nat.toDigits 10 (truncate c.now).natAbs).length then none
  else some (.shipped (sign py version c))

variable {py} in
theorem hmacSigner_some {version : SignatureVersion} {c : SignCall} {h : SignedHeaders}
    (hs : hmacSigner py version c = some h) :
    (Nat.toDigits 10 (truncate c.now).natAbs).length ≤ maxStrDigits ∧
      h = .shipped (sign py version c) := by
  obtain ⟨hshort, hs⟩ := Option.ite_none_left_eq_some.mp hs
  cases hs
  exact ⟨not_lt.mp hshort, rfl⟩

/-! ## Verifying -/

/-- How a verifier rejects: its documented error with a text, or the `TypeError`
of `compare_digest` on text that is not ASCII. -/
inductive Rejection where
  | verification (detail : String)
  | typeError
  deriving DecidableEq, Repr

/-- The macs of the signatures with this version, in order. -/
def macs (version : SignatureVersion) (sig : List Char) : List (List Char) :=
  (split sig).filterMap fun part =>
    match partition '=' part with
    | (v, some provided) =>
      if v = version.value.toList ∧ provided ≠ [] then some provided else none
    | (_, none) => none

/-- `any(hmac.compare_digest(expected, provided) for provided in macs)`. -/
def anyDigest (expected : List Char) : List (List Char) → Except Rejection Bool
  | [] => .ok false
  | provided :: rest =>
    if provided.any fun c => 128 ≤ c.toNat then .error .typeError
    else if expected = provided then .ok true
    else anyDigest expected rest

/-- The common end of the two verifiers. -/
def checkMacs (version : SignatureVersion) (expected sig : List Char) (mismatch : String) :
    Except Rejection Unit :=
  if macs version sig = [] then .error (.verification "unsupported signature version")
  else
    match anyDigest expected (macs version sig) with
    | .error e => .error e
    | .ok false => .error (.verification mismatch)
    | .ok true => .ok ()

/-- `{k.lower(): v for k, v in headers.items()}.get(name, "")`: the last such key wins. -/
def lowered (headers : Headers) (name : List Char) : String :=
  headers.rows.foldl (fun v kv => if py.lower kv.1.toList = name then kv.2 else v) ""

/-- `HmacSigner.verify`. -/
def verify (version : SignatureVersion) (body : Bytes) (headers : Headers) (secret : String)
    (now : Datetime) (windowS : Int) : Except Rejection Unit :=
  let tsRaw := lowered py headers "webhook-timestamp".toList
  let eventId := lowered py headers "webhook-event-id".toList
  let sig := lowered py headers "webhook-signature".toList
  if tsRaw = "" ∨ sig = "" then .error (.verification "missing headers")
  else
    match int tsRaw.toList with
    | none => .error (.verification "bad timestamp")
    | some ts =>
      if windowS < |truncate now - ts| then .error (.verification "timestamp out of window")
      else checkMacs version (py.hmacSha256Hex secret (message py ts eventId body)).hex sig.toList
        "bad mac"

/-- `_header`: the exact key first, then any casing. -/
def header (headers : Headers) (name : String) : String :=
  match headers.find? name with
  | some kv => kv.2
  | none => lowered py headers (py.lower name.toList)

/-- `verify_webhook` with `signer=None`. -/
def verifyWebhook (secret : String) (body : Bytes) (headers : Headers) (nowTs windowS : Int) :
    Except Rejection Unit :=
  let tsRaw := header py headers "Webhook-Timestamp"
  let eventId := header py headers "Webhook-Event-Id"
  let sig := header py headers "Webhook-Signature"
  if tsRaw = "" ∨ sig = "" then
    .error (.verification "missing Webhook-Timestamp or Webhook-Signature header")
  else
    match int tsRaw.toList with
    | none => .error (.verification "malformed Webhook-Timestamp")
    | some ts =>
      if windowS < |nowTs - ts| then
        .error (.verification "timestamp outside the freshness window (possible replay)")
      else checkMacs .v1 (py.hmacSha256Hex secret (message py ts eventId body)).hex sig.toList
        "signature mismatch"

/-! ## The signature header -/

theorem hexDigit_range {c : Char} (h : isHexDigit c = true) :
    (48 ≤ c.toNat ∧ c.toNat ≤ 57) ∨ (97 ≤ c.toNat ∧ c.toNat ≤ 102) := by
  simp only [isHexDigit, Char.isDigit, Bool.or_eq_true, Bool.and_eq_true, decide_eq_true_eq,
    Char.le_def, UInt32.le_iff_toNat_le, ge_iff_le] at h
  exact h

theorem not_isSpace_of_isHexDigit {c : Char} (h : isHexDigit c = true) : isSpace c = false := by
  have hrange := hexDigit_range h
  simp only [isSpace, List.contains_eq_mem, List.mem_cons, List.not_mem_nil, or_false,
    Bool.or_eq_false_iff, Bool.and_eq_false_iff, decide_eq_false_iff_not]
  omega

theorem hex_ne_nil (d : Digest) : d.hex ≠ [] := by
  intro h
  have hlen := d.length_hex
  rw [h] at hlen
  cases hlen

theorem not_isSpace_of_mem_signature {version : SignatureVersion} {d : Digest} :
    ∀ c ∈ signature version d, isSpace c = false := by
  intro c hc
  cases version
  rw [signature, show SignatureVersion.v1.value.toList = ['v', '1'] from rfl] at hc
  simp only [List.cons_append, List.nil_append, List.mem_cons] at hc
  rcases hc with rfl | rfl | rfl | hc
  · rfl
  · rfl
  · rfl
  · exact not_isSpace_of_isHexDigit (d.isHex c hc)

theorem partition_signature (version : SignatureVersion) (d : Digest) :
    partition '=' (signature version d) = (version.value.toList, some d.hex) := by
  rw [signature, partition_append]
  cases version
  decide

/-- A signature header with one signature carries its mac. -/
theorem macs_signature (version : SignatureVersion) (d : Digest) :
    macs version (signature version d) = [d.hex] := by
  have hne : signature version d ≠ [] := by simp [signature]
  rw [macs, split_word not_isSpace_of_mem_signature hne]
  simp [partition_signature, hex_ne_nil]

/-- A signature header with two signatures carries both macs. -/
theorem macs_signatures (version : SignatureVersion) (d d' : Digest) :
    macs version (signature version d ++ ' ' :: signature version d') = [d.hex, d'.hex] := by
  have hne : ∀ d, signature version d ≠ [] := by simp [signature]
  rw [macs, split_words not_isSpace_of_mem_signature (hne d) not_isSpace_of_mem_signature (hne d')]
  simp [partition_signature, hex_ne_nil]

theorem ascii_hex (d : Digest) : (d.hex.any fun c => 128 ≤ c.toNat) = false := by
  rw [List.any_eq_false]
  intro c hc
  have hrange := hexDigit_range (d.isHex c hc)
  simp only [decide_eq_true_eq]
  omega

/-- Macs that are digests are compared without an error. -/
theorem anyDigest_digests (expected : List Char) (ds : List Digest) :
    anyDigest expected (ds.map Digest.hex) = .ok (decide (expected ∈ ds.map Digest.hex)) := by
  induction ds with
  | nil => rfl
  | cons d ds ih =>
    rw [List.map_cons, anyDigest, ascii_hex, if_neg Bool.false_ne_true]
    by_cases he : expected = d.hex
    · simp [he]
    · rw [if_neg he, ih]
      simp [he]

/-- A header that carries digests is accepted exactly for these. -/
theorem checkMacs_ok_iff {version : SignatureVersion} {expected sig : List Char} {mismatch : String}
    {d : Digest} {ds : List Digest} (h : macs version sig = (d :: ds).map Digest.hex) :
    checkMacs version expected sig mismatch = .ok () ↔ expected ∈ (d :: ds).map Digest.hex := by
  rw [checkMacs, h, if_neg (by simp), anyDigest_digests]
  by_cases he : expected ∈ (d :: ds).map Digest.hex
  · rw [decide_eq_true he]
    exact iff_of_true rfl he
  · rw [decide_eq_false he]
    exact iff_of_false (fun h => by cases h) he

/-! ## Looking headers up -/

variable {py}

variable (py) in
theorem lowered_asDict (h : SignatureHeaders) :
    lowered py h.asDict "webhook-timestamp".toList = h.webhookTimestamp ∧
      lowered py h.asDict "webhook-event-id".toList = h.webhookEventId ∧
      lowered py h.asDict "webhook-signature".toList = h.webhookSignature := by
  have hlower : ∀ s ∈ h.asDict.rows.map (·.1), py.lower s.toList = s.toList.map Char.toLower := by
    intro s hs
    apply py.lower_ascii
    have hascii : s.toList.all (fun c => decide (c.toNat < 128)) = true := by
      simp only [SignatureHeaders.asDict, List.map_cons, List.map_nil, List.mem_cons,
        List.not_mem_nil, or_false] at hs
      rcases hs with rfl | rfl | rfl | rfl | rfl | rfl <;> decide
    exact fun c hc => of_decide_eq_true (List.all_eq_true.mp hascii c hc)
  simp only [SignatureHeaders.asDict, List.map_cons, List.map_nil, List.forall_mem_cons] at hlower
  obtain ⟨h1, h2, h3, h4, h5, h6, -⟩ := hlower
  simp only [lowered, SignatureHeaders.asDict, List.foldl_cons, List.foldl_nil, h1, h2, h3, h4,
    h5, h6]
  refine ⟨?_, ?_, ?_⟩ <;> simp

variable (py) in
theorem header_asDict (h : SignatureHeaders) :
    header py h.asDict "Webhook-Timestamp" = h.webhookTimestamp ∧
      header py h.asDict "Webhook-Event-Id" = h.webhookEventId ∧
      header py h.asDict "Webhook-Signature" = h.webhookSignature :=
  ⟨rfl, rfl, rfl⟩

/-! ## Accepted headers -/

/-- The headers of the dispatcher: those of `sign` with a signature for each of the macs. -/
structure Signed (py : Python) (version : SignatureVersion) (h : SignatureHeaders) (now : Datetime)
    (ds : List Digest) : Prop where
  timestamp : h.webhookTimestamp = String.ofList (str (truncate now))
  printed : (Nat.toDigits 10 (truncate now).natAbs).length ≤ maxStrDigits
  macs : macs version h.webhookSignature.toList = ds.map Digest.hex

theorem ne_empty_of_macs {version : SignatureVersion} {sig : String} {d : Digest} {ds : List Digest}
    (h : macs version sig.toList = (d :: ds).map Digest.hex) : sig ≠ "" := by
  rintro rfl
  rw [show macs version "".toList = [] from rfl] at h
  cases h

theorem timestamp_ne_empty (n : Int) : String.ofList (str n) ≠ "" := by
  intro h
  have hl := congrArg String.toList h
  rw [String.toList_ofList] at hl
  exact str_ne_nil n hl

/-- **Verification of a signed delivery** by `HmacSigner.verify`. -/
theorem verify_signed_iff {version : SignatureVersion} {h : SignatureHeaders} {now : Datetime}
    {d : Digest} {ds : List Digest} (hs : Signed py version h now (d :: ds)) (body : Bytes)
    (secret : String) (t : Datetime) (windowS : Int) :
    verify py version body h.asDict secret t windowS = .ok () ↔
      |truncate t - truncate now| ≤ windowS ∧
        (py.hmacSha256Hex secret (message py (truncate now) h.webhookEventId body)).hex ∈
          (d :: ds).map Digest.hex := by
  obtain ⟨hts, hid, hsig⟩ := lowered_asDict py h
  have hne : ¬ (h.webhookTimestamp = "" ∨ h.webhookSignature = "") := by
    rw [not_or, hs.timestamp]
    exact ⟨timestamp_ne_empty _, ne_empty_of_macs hs.macs⟩
  simp only [verify, hts, hid, hsig, if_neg hne]
  rw [hs.timestamp, String.toList_ofList, (int_str_iff _).mpr hs.printed]
  by_cases hw : |truncate t - truncate now| ≤ windowS
  · simp only [if_neg (not_lt.mpr hw), hw, true_and]
    exact checkMacs_ok_iff hs.macs
  · simp [if_pos (not_le.mp hw), hw]

/-- **Verification of a signed delivery** by `verify_webhook`. -/
theorem verifyWebhook_signed_iff {h : SignatureHeaders} {now : Datetime} {d : Digest}
    {ds : List Digest} (hs : Signed py .v1 h now (d :: ds)) (body : Bytes) (secret : String)
    (nowTs windowS : Int) : verifyWebhook py secret body h.asDict nowTs windowS = .ok () ↔
      |nowTs - truncate now| ≤ windowS ∧
        (py.hmacSha256Hex secret (message py (truncate now) h.webhookEventId body)).hex ∈
          (d :: ds).map Digest.hex := by
  obtain ⟨hts, hid, hsig⟩ := header_asDict py h
  have hne : ¬ (h.webhookTimestamp = "" ∨ h.webhookSignature = "") := by
    rw [not_or, hs.timestamp]
    exact ⟨timestamp_ne_empty _, ne_empty_of_macs hs.macs⟩
  simp only [verifyWebhook, hts, hid, hsig, if_neg hne]
  rw [hs.timestamp, String.toList_ofList, (int_str_iff _).mpr hs.printed]
  by_cases hw : |nowTs - truncate now| ≤ windowS
  · simp only [if_neg (not_lt.mpr hw), hw, true_and]
    exact checkMacs_ok_iff hs.macs
  · simp [if_pos (not_le.mp hw), hw]

end WebhookEngine.Signer
