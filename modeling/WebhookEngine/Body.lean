import WebhookEngine.Dispatcher
import WebhookEngine.Lib.Json

/-!
# The body of a delivery

The encoders of `body.py`, with `WebhookEnvelope.to_body` of `envelope.py`. The dispatcher
compares the stored payload with the limit on the outgoing body; what it posts is the
encoded payload.

* `map_length_encode`: how long an encoded body is;
* `capped_iff`: when no body above the limit is posted.
-/

namespace WebhookEngine.Body

open Lib Lib.Json Lib.Url HttpSender SsrfGuard Dispatcher

/-! ## Encoders -/

/-- What the envelope takes from Python. -/
structure Serialiser where
  /-- `json.loads`; `none` is a `ValueError`. -/
  loads : Bytes → Option Value
  /-- Nested too deeply to be read, or to be written inside the envelope: a `RecursionError`. -/
  tooDeep : Bytes → Bool
  /-- `datetime.isoformat`. -/
  isoformat : Datetime → String

structure WebhookEnvelope where
  id : String
  event : String
  eventId : String
  schemaVersion : String
  emittedAt : Datetime
  tenantId : Option String
  attempt : Nat
  redeliveryOf : Option String
  data : Value

def API_VERSION : String := "1"

variable (json : Serialiser)

def WebhookEnvelope.payload (e : WebhookEnvelope) : List (String × Value) := [
  ("id", .atom (.str (ofString e.id))),
  ("api_version", .atom (.str (ofString API_VERSION))),
  ("event", .atom (.str (ofString e.event))),
  ("event_id", .atom (.str (ofString e.eventId))),
  ("schema_version", .atom (.str (ofString e.schemaVersion))),
  ("emitted_at", .atom (.str (ofString (json.isoformat e.emittedAt)))),
  ("tenant_id", optional e.tenantId),
  ("attempt", .atom (.int e.attempt)),
  ("redelivery_of", optional e.redeliveryOf),
  ("data", e.data)]

/-- `WebhookEnvelope.to_body`. -/
def WebhookEnvelope.toBody (e : WebhookEnvelope) : Bytes :=
  encode (dumps (.dict ((e.payload json).map fun item => (ofString item.1, item.2))))

/-- The envelope around `record.data_json`; `{}` where that is not JSON. -/
def envelopeOf (r : DeliveryRecord) (attempt : Nat) : WebhookEnvelope where
  id := r.deliveryId
  event := r.eventName
  eventId := r.eventId
  schemaVersion := r.schemaVersion
  emittedAt := r.emittedAt
  tenantId := r.tenantId
  attempt := attempt
  redeliveryOf := r.redeliveryOf
  data := (json.loads r.dataJson).getD (.dict [])

/-- `EnvelopeEncoder.encode`. -/
def envelopeEncode (r : DeliveryRecord) (attempt : Nat) : Option Bytes :=
  if json.tooDeep r.dataJson then none else some ((envelopeOf json r attempt).toBody json)

/-- The shipped encoders. -/
inductive Encoder where
  | envelope
  | raw
  deriving DecidableEq, Repr

def Encoder.encode : Encoder → DeliveryRecord → Nat → Option Bytes
  | .envelope => envelopeEncode json
  | .raw => rawEncode

/-! ## How long a body is -/

/-- Within the envelope. -/
def quoted (s : String) : Nat := (quote (ofString s)).length

/-- The texts of the envelope that are the same for each delivery, then what varies. -/
def WebhookEnvelope.size (e : WebhookEnvelope) : Nat :=
  127 + quoted e.id + quoted e.event + quoted e.eventId + quoted e.schemaVersion +
    quoted (json.isoformat e.emittedAt) + (dumps (optional e.tenantId)).length +
    (Text.str e.attempt).length + (dumps (optional e.redeliveryOf)).length +
    (dumps e.data).length

theorem length_toBody (e : WebhookEnvelope) : (e.toBody json).length = e.size json := by
  have hne : (e.payload json).map (fun item => (ofString item.1, item.2)) ≠ [] := by
    simp [WebhookEnvelope.payload]
  have hkeys : ["id", "api_version", "event", "event_id", "schema_version", "emitted_at",
      "tenant_id", "attempt", "redelivery_of", "data"].map quoted =
        [4, 13, 7, 10, 16, 12, 11, 9, 15, 6] := by decide +kernel
  have hversion : quoted API_VERSION = 3 := by decide +kernel
  have hquoted : ∀ s, (quote (ofString s)).length = quoted s := fun _ => rfl
  simp only [List.map_cons, List.map_nil, List.cons.injEq, and_true] at hkeys
  rw [WebhookEnvelope.toBody, length_encode (isAscii_dumps _), length_dumps_dict hne]
  simp only [WebhookEnvelope.payload, List.map_cons, List.map_nil, List.sum_cons, List.sum_nil,
    dumps, Atom.dumps, hquoted, hkeys, hversion, WebhookEnvelope.size]
  omega

def Encoder.size : Encoder → DeliveryRecord → Nat → Option Nat
  | .envelope, r, attempt =>
    if json.tooDeep r.dataJson then none else some ((envelopeOf json r attempt).size json)
  | .raw, r, _ => some r.dataJson.length

theorem map_length_encode (enc : Encoder) (r : DeliveryRecord) (attempt : Nat) :
    (enc.encode json r attempt).map List.length = enc.size json r attempt := by
  cases enc with
  | raw => rfl
  | envelope =>
    simp only [Encoder.encode, envelopeEncode, Encoder.size]
    split
    · rfl
    · rw [Option.map_some, length_toBody]

/-! ## The limit -/

variable {json} {py : Python}

theorem buildSigned_body {d : WebhookDispatcher py} {r : DeliveryRecord} {profile : DeliveryProfile}
    {secret : String} {attemptNo : Nat} {now : Datetime} {previous : Option String} {body : Bytes}
    {headers : Headers}
    (h : buildSigned d r profile secret attemptNo now previous = some (body, headers)) :
    profile.encode r attemptNo = some body := by
  obtain ⟨body', hbody, h⟩ := Option.bind_eq_some_iff.mp h
  obtain ⟨signed, -, h⟩ := Option.bind_eq_some_iff.mp h
  split at h
  · cases h
    exact hbody
  · obtain ⟨old, -, h⟩ := Option.bind_eq_some_iff.mp h
    split at h <;> cases h <;> exact hbody

/-- What is posted is below the limit, and what would be above it is dead-lettered unposted. -/
structure Capped (d : WebhookDispatcher py) (r : DeliveryRecord) (ans : Answers)
    (outgoing : Option Bytes) : Prop where
  posted : ∀ call, (send d r ans).post = some call →
    call.body.length ≤ d.config.limits.maxBodyBytes
  deadLettered : ∀ body, outgoing = some body → d.config.limits.maxBodyBytes < body.length →
    (send d r ans).post = none ∧ ∃ attempt, (send d r ans).transition = some (.dead, attempt)

/-- What dead-letters a record before its body is encoded. -/
def Refused (d : WebhookDispatcher py) (r : DeliveryRecord) (parsed : SplitResult)
    (port : Option Nat) (ans : Answers) : Prop :=
  d.config.limits.maxBodyBytes < r.dataJson.length ∨
    checkIp d.ssrf (currentIp d r (parsed.hostname py) ans.resolved).toList
      (some (parsed.hostname py)) (some (targetPort parsed port)) ≠ .ok () ∨
    ans.secret = none

theorem prepare_deadLetter_iff (d : WebhookDispatcher py) (r : DeliveryRecord)
    (profile : DeliveryProfile) (parsed : SplitResult) (port : Option Nat) (ans : Answers) :
    (∃ error, prepare d r profile parsed port ans = .deadLetter error) ↔
      Refused d r parsed port ans := by
  unfold prepare Refused
  by_cases hsize : d.config.limits.maxBodyBytes < r.dataJson.length
  · simp [hsize]
  simp only [if_neg hsize]
  cases hcheck : checkIp d.ssrf (currentIp d r (parsed.hostname py) ans.resolved).toList
      (some (parsed.hostname py)) (some (targetPort parsed port)) with
  | error e => simp
  | ok =>
    cases hsecret : ans.secret with
    | none => simp
    | some secret =>
      refine iff_of_false ?_ (by simp [hsize])
      rintro ⟨error, h⟩
      simp only at h
      split at h <;> cases h

/-- The URL is read, and the record refused. -/
def Stopped (d : WebhookDispatcher py) (r : DeliveryRecord) (ans : Answers) : Prop :=
  ∃ parsed port, urlsplit py r.targetUrl.toList = some parsed ∧ parsed.port = some port ∧
    Refused d r parsed port ans

theorem stopped_iff {d : WebhookDispatcher py} {r : DeliveryRecord} {ans : Answers}
    {profile : DeliveryProfile} (hfound : d.profiles.of r = some profile) :
    ((send d r ans).post = none ∧ ∃ attempt, (send d r ans).transition = some (.dead, attempt)) ↔
      Stopped d r ans := by
  rw [send, hfound]
  constructor
  · rintro ⟨hpost, attempt, htransition⟩
    cases hparsed : urlsplit py r.targetUrl.toList with
    | none => simp [hparsed] at htransition
    | some parsed =>
      cases hport : parsed.port with
      | none => simp [hparsed, hport] at htransition
      | some port =>
        refine ⟨parsed, port, hparsed, hport, ?_⟩
        rw [← prepare_deadLetter_iff d r profile]
        cases h : prepare d r profile parsed port ans with
        | raises => simp [hparsed, hport, h] at htransition
        | deadLetter error => exact ⟨error, rfl⟩
        | post call => simp [hparsed, hport, h] at hpost
  · rintro ⟨parsed, port, hparsed, hport, hrefused⟩
    obtain ⟨error, h⟩ := (prepare_deadLetter_iff d r profile parsed port ans).mpr hrefused
    simp only [hparsed, hport, h]
    exact ⟨trivial, _, rfl⟩

/-- **When the limit holds**: for the shipped encoders, exactly when the encoded body is within
it, or the record is refused before it is encoded. -/
theorem capped_iff (json : Serialiser) (enc : Encoder) (d : WebhookDispatcher py)
    (r : DeliveryRecord) (ans : Answers) (profile : DeliveryProfile)
    (hfound : d.profiles.of r = some profile) (hencode : profile.encode = enc.encode json) :
    Capped d r ans (enc.encode json r (r.attempts + 1)) ↔
      (∀ size, enc.size json r (r.attempts + 1) = some size →
        size ≤ d.config.limits.maxBodyBytes) ∨ Stopped d r ans := by
  rw [← map_length_encode]
  constructor
  · intro h
    by_cases hsize : ∀ size, (enc.encode json r (r.attempts + 1)).map List.length = some size →
        size ≤ d.config.limits.maxBodyBytes
    · exact Or.inl hsize
    · simp only [not_forall, not_le, Option.map_eq_some_iff] at hsize
      obtain ⟨size, ⟨body, hbody, rfl⟩, hlong⟩ := hsize
      exact Or.inr ((stopped_iff hfound).mp (h.deadLettered body hbody hlong))
  · rintro (hsize | hstopped)
    · constructor
      · intro call hcall
        obtain ⟨profile', parsed, port, secret, hposted⟩ := send_post hcall
        obtain rfl : profile = profile' := Option.some_inj.mp (hfound.symm.trans hposted.found)
        have hbody := buildSigned_body hposted.signed
        rw [hencode] at hbody
        exact hsize _ (by rw [hbody, Option.map_some])
      · intro body hbody hlong
        exact absurd (hsize _ (by rw [hbody, Option.map_some])) (not_le.mpr hlong)
    · obtain ⟨hpost, hdead⟩ := (stopped_iff hfound).mpr hstopped
      constructor
      · intro call hcall
        rw [hpost] at hcall
        cases hcall
      · exact fun _ _ _ => ⟨hpost, hdead⟩

/-! ## A small payload in an envelope -/

def exampleSerialiser : Serialiser where
  loads bytes := if bytes = [0x7b, 0x7d] then some (.dict []) else none
  tooDeep _ := false
  isoformat _ := "1970-01-01T00:00:00+00:00"

/-- The envelope, and a limit on the body. -/
def envelopeDispatcher (maxBodyBytes : Nat) : WebhookDispatcher examplePython :=
  { exampleDispatcher with
    config := { limits := { maxBodyBytes := maxBodyBytes } }
    profiles :=
      Table.empty.insert (DEFAULT_PROFILE, { encode := envelopeEncode exampleSerialiser }) }

/-- Two bytes of payload are 199 bytes of body. -/
theorem capped_iff_envelope :
    Capped (envelopeDispatcher 199) (exampleRecord "d" "https://x.dev/a") (exampleAnswers 5 none)
      (Encoder.envelope.encode exampleSerialiser (exampleRecord "d" "https://x.dev/a") 1) := by
  refine (capped_iff exampleSerialiser .envelope (envelopeDispatcher 199)
    (exampleRecord "d" "https://x.dev/a") (exampleAnswers 5 none) _ rfl rfl).mpr (Or.inl ?_)
  have hsize : Encoder.envelope.size exampleSerialiser (exampleRecord "d" "https://x.dev/a") 1 =
      some 199 := by decide +kernel
  intro size h
  rw [show size = 199 from Option.some_inj.mp (h.symm.trans hsize)]
  decide

/-- A limit of 100 bytes lets them through as well. -/
theorem body_above_the_limit :
    ((send (envelopeDispatcher 100) (exampleRecord "d" "https://x.dev/a")
        (exampleAnswers 5 none)).post.any fun call => decide (100 < call.body.length)) = true ∧
      ¬ Capped (envelopeDispatcher 100) (exampleRecord "d" "https://x.dev/a")
        (exampleAnswers 5 none)
        (Encoder.envelope.encode exampleSerialiser (exampleRecord "d" "https://x.dev/a") 1) := by
  have hlong : ((send (envelopeDispatcher 100) (exampleRecord "d" "https://x.dev/a")
      (exampleAnswers 5 none)).post.any fun call => decide (100 < call.body.length)) = true := by
    decide +kernel
  refine ⟨hlong, fun h => ?_⟩
  obtain ⟨call, hcall, hcall'⟩ := (Option.any_eq_true ..).mp hlong
  exact absurd (of_decide_eq_true hcall') (not_lt.mpr (h.posted call hcall))

end WebhookEngine.Body
