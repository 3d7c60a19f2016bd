import WebhookEngine.Stores.Redis

/-!
# The hash of a delivery, as the client returns it

`_hash_to_record` of `stores/redis.py` on a dictionary whose keys and values are `str` or `bytes`,
after `_record_to_hash`. The empty text stands for an absent value.

* `text_rawHash`: the fields are read back under every encoding;
* `read_back_iff`: which records are read back.
-/

namespace WebhookEngine.Stores.RedisHashes

open Lib WebhookEngine.Stores.Redis

/-! ## Texts and bytes -/

/-- A key or a value of the dictionary. -/
inductive Raw where
  | str (s : String)
  | bytes (b : Bytes)
  deriving DecidableEq

inductive Encoding where
  | str
  | bytes
  deriving DecidableEq

/-- `s`, or `s.encode()`. -/
def Encoding.raw : Encoding → String → Raw
  | .str, s => .str s
  | .bytes, s => .bytes s.toUTF8.toList

/-- `bool(v)`. -/
def Raw.truthy : Raw → Bool
  | .str s => s ≠ ""
  | .bytes b => b ≠ []

/-- `v.decode("utf-8")` if `v` is `bytes`; `none` is the `UnicodeDecodeError`. -/
def Raw.text : Raw → Option String
  | .str s => some s
  | .bytes b => decodeUtf8 b

theorem decodeUtf8_toUTF8 (s : String) : decodeUtf8 s.toUTF8.toList = some s := by
  have hbytes : (⟨s.toUTF8.toList.toArray⟩ : ByteArray) = s.toUTF8 := by
    rw [ByteArray.toList, toList_loop]
    rfl
  rw [decodeUtf8, hbytes]
  exact dif_pos s.isValidUTF8

theorem text_raw (e : Encoding) (s : String) : (e.raw s).text = some s := by
  cases e with
  | str => rfl
  | bytes => exact decodeUtf8_toUTF8 s

theorem encoding_inj {e e' : Encoding} {s : String} (h : e.raw s = e'.raw s) : e = e' := by
  cases e <;> cases e' <;> first | rfl | cases h

theorem raw_inj {e e' : Encoding} {s s' : String} (h : e.raw s = e'.raw s') : s = s' := by
  cases e with
  | str =>
    cases e' with
    | str => exact Raw.str.inj h
    | bytes => cases h
  | bytes =>
    cases e' with
    | str => cases h
    | bytes =>
      have hdecoded := decodeUtf8_toUTF8 s
      rw [Raw.bytes.inj h, decodeUtf8_toUTF8] at hdecoded
      exact (Option.some_inj.mp hdecoded).symm

/-- Only the empty text is falsy. -/
theorem eq_empty_of_falsy {e : Encoding} {s : String} (h : (e.raw s).truthy = false) : s = "" := by
  cases e with
  | str => exact not_not.mp (of_decide_eq_false h)
  | bytes =>
    have hnil : s.toUTF8.toList = [] := not_not.mp (of_decide_eq_false h)
    have hempty : "".toUTF8.toList = [] := by
      rw [ByteArray.toList, toList_loop]
      rfl
    have hraw : Encoding.bytes.raw s = Encoding.bytes.raw "" := by
      rw [Encoding.raw, Encoding.raw, hnil, hempty]
    exact raw_inj hraw

/-! ## The dictionary -/

/-- What `hgetall` returns. -/
abbrev RawHash := Dict Raw Raw

/-- `_s(k)`. -/
def text (h : RawHash) (k : String) : Option String :=
  let found := ((h.find? (.str k)).map (·.2)).filter Raw.truthy
  match found.or ((h.find? (Encoding.bytes.raw k)).map (·.2)) with
  | some v => v.text
  | none => some ""

/-- `int(_s(k) or "0")`. -/
def intOf (h : RawHash) (k : String) : Option Int := do
  let x ← text h k
  Lib.Text.int (orText x "0").toList

/-- `_hash_to_record`; `none` is a `ValueError`. -/
def rawHashToRecord (h : RawHash) : Option DeliveryRecord := do
  let deliveryId ← text h "delivery_id"
  let subscriptionId ← text h "subscription_id"
  let ownerId ← text h "owner_id"
  let eventName ← text h "event_name"
  let eventId ← text h "event_id"
  let schemaVersion ← text h "schema_version"
  let tenantId ← text h "tenant_id"
  let dataJson ← text h "data_json"
  let emittedAt ← intOf h "emitted_at_ms"
  let targetUrl ← text h "target_url"
  let resolvedIp ← text h "resolved_ip"
  let redeliveryOf ← text h "redelivery_of"
  let attempts ← intOf h "attempts"
  let fireAt ← intOf h "fire_at_ms"
  let createdAt ← intOf h "created_at_ms"
  let status ← text h "status"
  let status ← DeliveryStatus.ofValue (orText status DeliveryStatus.pending.value)
  let profile ← text h "profile"
  let secretVersion ← text h "secret_version"
  return {
    deliveryId := deliveryId
    subscriptionId := subscriptionId
    ownerId := ownerId
    eventName := eventName
    eventId := eventId
    schemaVersion := schemaVersion
    tenantId := orNone tenantId
    dataJson := dataJson.toUTF8.toList
    emittedAt := fromMs emittedAt
    targetUrl := targetUrl
    resolvedIp := resolvedIp
    redeliveryOf := orNone redeliveryOf
    attempts := attempts.toNat
    fireAt := fromMs fireAt
    createdAt := fromMs createdAt
    status := status
    profile := orText profile DEFAULT_PROFILE
    secretVersion := orNone secretVersion }

/-- The fields, each key and each value as text or as bytes. -/
def encoded (key value : String → Encoding) (fields : List (String × String)) :
    List (Raw × Raw) :=
  fields.map fun f => ((key f.1).raw f.1, (value f.1).raw f.2)

def rawHash (key value : String → Encoding) (fields : List (String × String)) : RawHash :=
  Table.empty.putMany (encoded key value fields)

/-! ## Reading it -/

section

variable {key value : String → Encoding} {fields : List (String × String)}

theorem nodup_encoded (hn : (fields.map (·.1)).Nodup) :
    ((encoded key value fields).map Prod.fst).Nodup := by
  rw [encoded, List.map_map]
  have hkeys : fields.map (Prod.fst ∘ fun f => ((key f.1).raw f.1, (value f.1).raw f.2)) =
      (fields.map (·.1)).map fun k => (key k).raw k := by
    rw [List.map_map]
    rfl
  rw [hkeys]
  exact hn.map fun k k' h => raw_inj h

/-- Under the other encoding the key is not there. -/
theorem find?_other {e : Encoding} {k : String} (he : key k ≠ e) :
    (rawHash key value fields).find? (e.raw k) = none := by
  rw [rawHash, Table.find?_putMany_of_not_mem]
  · rfl
  · intro f hf h
    obtain ⟨f, -, rfl⟩ := List.mem_map.mp hf
    have hk : f.1 = k := raw_inj h
    simp only [hk] at h
    exact he (encoding_inj h)

theorem find?_rawHash (hn : (fields.map (·.1)).Nodup) {k v : String} (hm : (k, v) ∈ fields) :
    (rawHash key value fields).find? ((key k).raw k) = some ((key k).raw k, (value k).raw v) := by
  have hmem : ((key k).raw k, (value k).raw v) ∈ encoded key value fields :=
    List.mem_map.mpr ⟨(k, v), hm, rfl⟩
  exact Table.find?_putMany_of_mem Table.empty _ (nodup_encoded hn) hmem

theorem text_rawHash (hn : (fields.map (·.1)).Nodup) {k v : String} (hm : (k, v) ∈ fields) :
    text (rawHash key value fields) k = some v := by
  have hfind : (rawHash key value fields).find? ((key k).raw k) =
      some ((key k).raw k, (value k).raw v) := find?_rawHash hn hm
  cases hkey : key k with
  | bytes =>
    have hother : (rawHash key value fields).find? (.str k) = none :=
      find?_other (e := .str) (by rw [hkey]; decide)
    rw [hkey] at hfind
    rw [text, hother, hfind]
    exact text_raw (value k) v
  | str =>
    have hother : (rawHash key value fields).find? (Encoding.bytes.raw k) = none :=
      find?_other (by rw [hkey]; decide)
    have hstr : (rawHash key value fields).find? (.str k) = some (.str k, (value k).raw v) := by
      rw [hkey] at hfind
      exact hfind
    rw [text, hother, hstr]
    simp only [Option.map_some, Option.map_none, Option.or_none]
    cases htruthy : ((value k).raw v).truthy with
    | true =>
      rw [Option.filter_some, if_pos htruthy]
      exact text_raw (value k) v
    | false =>
      rw [Option.filter_some, htruthy, if_neg Bool.false_ne_true, eq_empty_of_falsy htruthy]

end

/-- Numbers short enough for `int`. -/
structure ShortNumbers (r : DeliveryRecord) : Prop where
  emittedAt : (toMs r.emittedAt).natAbs < 10 ^ Text.maxStrDigits
  attempts : r.attempts < 10 ^ Text.maxStrDigits
  fireAt : (toMs r.fireAt).natAbs < 10 ^ Text.maxStrDigits
  createdAt : (toMs r.createdAt).natAbs < 10 ^ Text.maxStrDigits

theorem int_orText {n : Int} (h : n.natAbs < 10 ^ Text.maxStrDigits) :
    Text.int (orText (intText n) "0").toList = some n := by
  rw [orText_intText, intText, String.toList_ofList, Text.int_str h]

theorem natAbs_lt_of_int_orText {n m : Int}
    (h : Text.int (orText (intText n) "0").toList = some m) :
    n.natAbs < 10 ^ Text.maxStrDigits := by
  rw [orText_intText, intText, String.toList_ofList] at h
  by_contra hlong
  rw [Text.int_str_eq_none (not_lt.mp hlong)] at h
  cases h

section

variable (key value : String → Encoding)

/-- What the client returns, once its texts are looked up. -/
theorem rawHashToRecord_rawHash (r : DeliveryRecord) (data : String) :
    rawHashToRecord (rawHash key value (recordFields r data)) =
      (Text.int (orText (intText (toMs r.emittedAt)) "0").toList).bind fun emittedAt =>
      (Text.int (orText (intText r.attempts) "0").toList).bind fun attempts =>
      (Text.int (orText (intText (toMs r.fireAt)) "0").toList).bind fun fireAt =>
      (Text.int (orText (intText (toMs r.createdAt)) "0").toList).bind fun createdAt =>
        some { stored r data with
          emittedAt := fromMs emittedAt
          attempts := attempts.toNat
          fireAt := fromMs fireAt
          createdAt := fromMs createdAt } := by
  have hf : ∀ kv ∈ recordFields r data,
      text (rawHash key value (recordFields r data)) kv.1 = some kv.2 :=
    fun kv hm => text_rawHash (nodup_recordFields r data) hm
  generalize rawHash key value (recordFields r data) = g at hf
  simp only [recordFields, List.forall_mem_cons] at hf
  obtain ⟨hid, hsub, howner, hevent, heventId, hschema, htenant, hdata, hemitted, hurl, hip, hredel,
    hattempts, hfire, hcreated, hstatus, hprofile, hsecret, -⟩ := hf
  simp only [rawHashToRecord, intOf, hid, hsub, howner, hevent, heventId, hschema, htenant, hdata,
    hemitted, hurl, hip, hredel, hattempts, hfire, hcreated, hstatus, hprofile, hsecret,
    Option.bind_eq_bind, Option.bind_some, ofValue_orText]
  rfl

theorem rawHashToRecord_of_short {r : DeliveryRecord} (h : ShortNumbers r) (data : String) :
    rawHashToRecord (rawHash key value (recordFields r data)) = some (stored r data) := by
  rw [rawHashToRecord_rawHash, int_orText h.emittedAt, Option.bind_some,
    int_orText (n := (r.attempts : Int)) h.attempts, Option.bind_some, int_orText h.fireAt,
    Option.bind_some, int_orText h.createdAt, Option.bind_some]
  rfl

theorem short_of_rawHashToRecord {r r' : DeliveryRecord} {data : String}
    (h : rawHashToRecord (rawHash key value (recordFields r data)) = some r') :
    ShortNumbers r := by
  rw [rawHashToRecord_rawHash] at h
  obtain ⟨_, hemitted, h⟩ := Option.bind_eq_some_iff.mp h
  obtain ⟨_, hattempts, h⟩ := Option.bind_eq_some_iff.mp h
  obtain ⟨_, hfire, h⟩ := Option.bind_eq_some_iff.mp h
  obtain ⟨_, hcreated, -⟩ := Option.bind_eq_some_iff.mp h
  exact
    { emittedAt := natAbs_lt_of_int_orText hemitted
      attempts := natAbs_lt_of_int_orText hattempts
      fireAt := natAbs_lt_of_int_orText hfire
      createdAt := natAbs_lt_of_int_orText hcreated }

/-- The hash of texts in the state of the store stands for either encoding. -/
theorem rawHashToRecord_eq (h : Hash) {r : DeliveryRecord} (hr : ShortNumbers r) (data : String) :
    rawHashToRecord (rawHash key value (recordFields r data)) =
      hashToRecord (hset h (recordFields r data)) := by
  rw [rawHashToRecord_of_short key value hr, hashToRecord_recordFields]

end

/-! ## Which records are read back -/

/-- A whole number of milliseconds. -/
def WholeMs (t : Datetime) : Prop := ∃ ms : Int, t = (ms : ℚ) / 1000

/-- The record can be written without loss of its bytes and times. -/
structure Storable (r : DeliveryRecord) : Prop where
  dataJson : (decodeUtf8 r.dataJson).isSome = true
  emittedAt : WholeMs r.emittedAt
  fireAt : WholeMs r.fireAt
  createdAt : WholeMs r.createdAt

/-- The empty text is none of the values that it stands in for when they are absent. -/
structure NoEmptyText (r : DeliveryRecord) : Prop where
  tenantId : r.tenantId ≠ some ""
  redeliveryOf : r.redeliveryOf ≠ some ""
  secretVersion : r.secretVersion ≠ some ""
  profile : r.profile ≠ ""

/-- `_hash_to_record(_record_to_hash(r))`. -/
def readBack (key value : String → Encoding) (r : DeliveryRecord) : Option DeliveryRecord :=
  (recordToHash r).bind fun fields => rawHashToRecord (rawHash key value fields)

theorem fromMs_toMs {t : Datetime} (h : WholeMs t) : fromMs (toMs t) = t := by
  obtain ⟨ms, rfl⟩ := h
  rw [toMs, div_mul_cancel₀ _ (by norm_num), truncate_intCast, fromMs]

theorem orNone_getD_eq_iff (x : Option String) : orNone (x.getD "") = x ↔ x ≠ some "" := by
  cases x with
  | none => simp [orNone]
  | some s =>
    by_cases hs : s = ""
    · simp [orNone, hs]
    · simp [orNone, hs]

theorem orText_eq_iff (x default : String) (hd : default ≠ "") :
    orText x default = x ↔ x ≠ "" := by
  by_cases hx : x = ""
  · simp [orText, hx, hd]
  · simp [orText, hx]

theorem stored_eq_iff {r : DeliveryRecord} (h : Storable r) {data : String}
    (hdata : decodeUtf8 r.dataJson = some data) : stored r data = r ↔ NoEmptyText r := by
  have hbytes := toUTF8_of_decodeUtf8 hdata
  have hemitted := fromMs_toMs h.emittedAt
  have hfire := fromMs_toMs h.fireAt
  have hcreated := fromMs_toMs h.createdAt
  constructor
  · intro heq
    exact
      { tenantId := (orNone_getD_eq_iff _).mp (congrArg DeliveryRecord.tenantId heq)
        redeliveryOf := (orNone_getD_eq_iff _).mp (congrArg DeliveryRecord.redeliveryOf heq)
        secretVersion := (orNone_getD_eq_iff _).mp (congrArg DeliveryRecord.secretVersion heq)
        profile := (orText_eq_iff _ _ (by decide)).mp (congrArg DeliveryRecord.profile heq) }
  · rintro ⟨htenant, hredelivery, hsecret, hprofile⟩
    rw [stored, hbytes, hemitted, hfire, hcreated, (orNone_getD_eq_iff _).mpr htenant,
      (orNone_getD_eq_iff _).mpr hredelivery, (orNone_getD_eq_iff _).mpr hsecret,
      (orText_eq_iff _ _ (by decide)).mpr hprofile]

theorem readBack_eq {r : DeliveryRecord} {data : String} (hdata : decodeUtf8 r.dataJson = some data)
    (key value : String → Encoding) :
    readBack key value r = rawHashToRecord (rawHash key value (recordFields r data)) := by
  rw [readBack, recordToHash, hdata, Option.map_some, Option.bind_some]

theorem of_readBack {r : DeliveryRecord} (h : Storable r) {key value : String → Encoding}
    (hread : readBack key value r = some r) : NoEmptyText r ∧ ShortNumbers r := by
  obtain ⟨data, hdata⟩ := Option.isSome_iff_exists.mp h.dataJson
  rw [readBack_eq hdata] at hread
  have hshort := short_of_rawHashToRecord key value hread
  rw [rawHashToRecord_of_short key value hshort, Option.some_inj] at hread
  exact ⟨(stored_eq_iff h hdata).mp hread, hshort⟩

/-- A record is read back if and only if it has no such empty text and no number too long for
`int`, whatever is bytes. -/
theorem read_back_iff (r : DeliveryRecord) (h : Storable r) (key value : String → Encoding) :
    readBack key value r = some r ↔ NoEmptyText r ∧ ShortNumbers r := by
  constructor
  · exact of_readBack h
  · rintro ⟨htexts, hshort⟩
    obtain ⟨data, hdata⟩ := Option.isSome_iff_exists.mp h.dataJson
    rw [readBack_eq hdata, rawHashToRecord_of_short key value hshort, Option.some_inj]
    exact (stored_eq_iff h hdata).mpr htexts

/-- A redelivery with an accent in its data and times between the seconds. -/
def exampleRedelivery : DeliveryRecord :=
  { exampleRecord "d2" "https://example.com/hook" with
    dataJson := [0x22, 0xc3, 0xa9, 0x22]
    emittedAt := fromMs 1700000000123
    redeliveryOf := some "d1"
    attempts := 2
    fireAt := fromMs 1700000030500
    createdAt := fromMs 1700000000877
    secretVersion := some "v2" }

theorem storable_exampleRedelivery (tenantId : Option String) :
    Storable { exampleRedelivery with tenantId := tenantId } where
  dataJson := (by decide : (decodeUtf8 [0x22, 0xc3, 0xa9, 0x22]).isSome = true)
  emittedAt := ⟨_, rfl⟩
  fireAt := ⟨_, rfl⟩
  createdAt := ⟨_, rfl⟩

theorem shortNumbers_exampleRedelivery : ShortNumbers exampleRedelivery := by
  have hshort : ∀ n : Nat, n < 10 ^ 13 → n < 10 ^ Text.maxStrDigits :=
    fun n hn => hn.trans (Nat.pow_lt_pow_right (by decide) (by decide))
  refine ⟨?_, hshort _ (by decide), ?_, ?_⟩
  · rw [exampleRedelivery, toMs_fromMs]
    exact hshort _ (by decide)
  · rw [exampleRedelivery, toMs_fromMs]
    exact hshort _ (by decide)
  · rw [exampleRedelivery, toMs_fromMs]
    exact hshort _ (by decide)

/-- With keys in bytes and values in text it is read back whole. -/
theorem read_back_iff_redelivery :
    readBack (fun _ => .bytes) (fun _ => .str) exampleRedelivery = some exampleRedelivery :=
  (read_back_iff _ (storable_exampleRedelivery (some "tenant_a")) _ _).mpr
    ⟨⟨by decide, by decide, by decide, by decide⟩, shortNumbers_exampleRedelivery⟩

/-- With an empty tenant it is read back without one. -/
theorem empty_tenant_is_lost :
    ¬ ∀ r : DeliveryRecord, Storable r → ∀ key value : String → Encoding,
      readBack key value r = some r := by
  intro hall
  have hstorable : Storable { exampleRedelivery with tenantId := some "" } :=
    storable_exampleRedelivery (some "")
  have hread := hall _ hstorable (fun _ => .str) fun _ => .str
  exact (of_readBack hstorable hread).1.tenantId rfl

end WebhookEngine.Stores.RedisHashes
