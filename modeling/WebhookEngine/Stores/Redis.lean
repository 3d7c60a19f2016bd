import Mathlib.Algebra.Order.Field.Rat
import Mathlib.Data.List.Sort
import Mathlib.Tactic.NormNum
import WebhookEngine.Lib.Table
import WebhookEngine.Lib.Text
import WebhookEngine.Stores.Queue

/-!
# The Redis delivery store

`RedisWebhookDeliveryStore` of `stores/redis.py`, down to its commands: two sorted
sets with scores in milliseconds, a hash of texts per delivery, a capped list of
attempts. A call is a list of commands; a Lua script is one command. The stream of
recent deliveries and the idempotency keys, which nothing here reads, are left
out.

No key expires. The code gives the hash and the attempts of a delivery that is sent or
dead a time to live, 7 and 30 days by default: what is proved here of later states is
about the states before the first key has run out.

* `hashToRecord_recordFields`: the hash of a record is read back;
* `redisQueue`: over the states in which every hash is read back, the store is a
  `LeaseQueue`. `append_attempt` does not touch the counter.
-/

namespace WebhookEngine.Stores.Redis

open Lib Lib.Text WebhookEngine.Stores.Queue

/-- `_to_ms`, with an exact product: `dt.timestamp() * 1000` is a float, which may lie one
rounding off before `int` cuts it. -/
def toMs (t : Datetime) : Int := truncate (t * 1000)

/-- `_from_ms`. -/
def fromMs (ms : Int) : Datetime := (ms : ℚ) / 1000

theorem toMs_fromMs (ms : Int) : toMs (fromMs ms) = ms := by
  rw [toMs, fromMs, div_mul_cancel₀ _ (by norm_num), truncate_intCast]

/-! ## Hashes -/

/-- A Redis hash. -/
abbrev Hash := Dict String String

/-- `_s(k)`: the field, or the empty text. -/
def field (h : Hash) (k : String) : String := ((h.find? k).map (·.2)).getD ""

/-- `hset(key, mapping=..)`. -/
def hset (h : Hash) (fields : List (String × String)) : Hash := h.putMany fields

def intText (n : Int) : String := String.ofList (str n)

/-- `_record_to_hash`, but for the payload decoded from UTF-8. -/
def recordFields (r : DeliveryRecord) (data : String) : List (String × String) := [
  ("delivery_id", r.deliveryId),
  ("subscription_id", r.subscriptionId),
  ("owner_id", r.ownerId),
  ("event_name", r.eventName),
  ("event_id", r.eventId),
  ("schema_version", r.schemaVersion),
  ("tenant_id", r.tenantId.getD ""),
  ("data_json", data),
  ("emitted_at_ms", intText (toMs r.emittedAt)),
  ("target_url", r.targetUrl),
  ("resolved_ip", r.resolvedIp),
  ("redelivery_of", r.redeliveryOf.getD ""),
  ("attempts", intText r.attempts),
  ("fire_at_ms", intText (toMs r.fireAt)),
  ("created_at_ms", intText (toMs r.createdAt)),
  ("status", r.status.value),
  ("profile", r.profile),
  ("secret_version", r.secretVersion.getD "")]

/-- `data_json.decode("utf-8")`; `none` is the `UnicodeDecodeError`. -/
def decodeUtf8 (bytes : Bytes) : Option String := String.fromUTF8? ⟨bytes.toArray⟩

theorem toList_loop (bytes : ByteArray) (i : Nat) (acc : Bytes) :
    ByteArray.toList.loop bytes i acc = acc.reverse ++ bytes.data.toList.drop i := by
  fun_induction ByteArray.toList.loop bytes i acc with
  | case1 i acc h ih =>
    have hi : i < bytes.data.toList.length := h
    have hget : bytes.get! i = bytes.data.toList[i] := getElem!_pos bytes.data i h
    rw [ih, List.drop_eq_getElem_cons hi, hget, List.reverse_cons, List.append_assoc]
    rfl
  | case2 i acc h =>
    have hi : bytes.data.toList.length ≤ i := Nat.not_lt.mp h
    rw [List.drop_of_length_le hi, List.append_nil]

/-- A decoded text is encoded as it was. -/
theorem toUTF8_of_decodeUtf8 {bytes : Bytes} {s : String} (h : decodeUtf8 bytes = some s) :
    s.toUTF8.toList = bytes := by
  obtain ⟨hvalid, h⟩ := Option.dite_none_right_eq_some.mp h
  cases h
  rw [ByteArray.toList, toList_loop]
  rfl

def recordToHash (r : DeliveryRecord) : Option (List (String × String)) :=
  (decodeUtf8 r.dataJson).map (recordFields r)

/-- `x or default`. -/
def orText (x default : String) : String := if x = "" then default else x

/-- `x or None`. -/
def orNone (x : String) : Option String := if x = "" then none else some x

/-- `int(_s(k) or "0")`, but for the limit on digits of `int`, which no attempts counter and no
time in milliseconds reaches. -/
def intField (h : Hash) (k : String) : Option Int := readInt (orText (field h k) "0").toList

/-- `_hash_to_record`; `none` is the `ValueError` of a number or a status. -/
def hashToRecord (h : Hash) : Option DeliveryRecord := do
  let emittedAt ← intField h "emitted_at_ms"
  let attempts ← intField h "attempts"
  let fireAt ← intField h "fire_at_ms"
  let createdAt ← intField h "created_at_ms"
  let status ← DeliveryStatus.ofValue (orText (field h "status") DeliveryStatus.pending.value)
  return {
    deliveryId := field h "delivery_id"
    subscriptionId := field h "subscription_id"
    ownerId := field h "owner_id"
    eventName := field h "event_name"
    eventId := field h "event_id"
    schemaVersion := field h "schema_version"
    tenantId := orNone (field h "tenant_id")
    dataJson := (field h "data_json").toUTF8.toList
    emittedAt := fromMs emittedAt
    targetUrl := field h "target_url"
    resolvedIp := field h "resolved_ip"
    redeliveryOf := orNone (field h "redelivery_of")
    attempts := attempts.toNat
    fireAt := fromMs fireAt
    createdAt := fromMs createdAt
    status := status
    profile := orText (field h "profile") DEFAULT_PROFILE
    secretVersion := orNone (field h "secret_version") }

/-! ### Reading a hash back -/

theorem field_put (h : Hash) (k v k' : String) :
    field (h.put (k, v)) k' = if k = k' then v else field h k' := by
  rw [field, Table.find?_put]
  split <;> rfl

theorem orText_intText (n : Int) : orText (intText n) "0" = intText n := by
  rw [orText, if_neg]
  intro h
  have hl := congrArg String.toList h
  rw [intText, String.toList_ofList] at hl
  exact str_ne_nil n hl

theorem int_intText (n : Int) : readInt (orText (intText n) "0").toList = some n := by
  rw [orText_intText, intText, String.toList_ofList, readInt_str]

theorem ofValue_orText (st : DeliveryStatus) :
    DeliveryStatus.ofValue (orText st.value DeliveryStatus.pending.value) = some st := by
  cases st <;> rfl

theorem field_hset (h : Hash) {fields : List (String × String)}
    (hn : (fields.map (·.1)).Nodup) {k v : String} (hm : (k, v) ∈ fields) :
    field (hset h fields) k = v := by
  have hfind := Table.find?_putMany_of_mem h fields hn hm
  simp only at hfind
  rw [field, hset, hfind]
  rfl

theorem nodup_recordFields (r : DeliveryRecord) (data : String) :
    ((recordFields r data).map (·.1)).Nodup :=
  (by decide : ["delivery_id", "subscription_id", "owner_id", "event_name", "event_id",
    "schema_version", "tenant_id", "data_json", "emitted_at_ms", "target_url", "resolved_ip",
    "redelivery_of", "attempts", "fire_at_ms", "created_at_ms", "status", "profile",
    "secret_version"].Nodup)

/-- A record as its hash keeps it. -/
def stored (r : DeliveryRecord) (data : String) : DeliveryRecord :=
  { r with
    tenantId := orNone (r.tenantId.getD "")
    dataJson := data.toUTF8.toList
    emittedAt := fromMs (toMs r.emittedAt)
    redeliveryOf := orNone (r.redeliveryOf.getD "")
    fireAt := fromMs (toMs r.fireAt)
    createdAt := fromMs (toMs r.createdAt)
    profile := orText r.profile DEFAULT_PROFILE
    secretVersion := orNone (r.secretVersion.getD "") }

theorem orNone_getD (x : String) : (orNone x).getD "" = x := by
  rw [orNone]
  split
  case isTrue hx =>
    rw [hx]
    rfl
  case isFalse => rfl

theorem keeps_stored (r : DeliveryRecord) {data : String} (h : decodeUtf8 r.dataJson = some data) :
    Keeps r (core (stored r data)) where
  deliveryId := rfl
  subscriptionId := rfl
  ownerId := rfl
  eventName := rfl
  eventId := rfl
  tenantId := orNone_getD _
  dataJson := toUTF8_of_decodeUtf8 h

/-- **The hash of a record is read back**, whatever the key held before. -/
theorem hashToRecord_recordFields (h : Hash) (r : DeliveryRecord) (data : String) :
    hashToRecord (hset h (recordFields r data)) = some (stored r data) := by
  have hf : ∀ kv ∈ recordFields r data, field (hset h (recordFields r data)) kv.1 = kv.2 :=
    fun kv hm => field_hset h (nodup_recordFields r data) hm
  generalize hset h (recordFields r data) = g at hf
  simp only [recordFields, List.forall_mem_cons] at hf
  obtain ⟨hid, hsub, howner, hevent, heventId, hschema, htenant, hdata, hemitted, hurl, hip, hredel,
    hattempts, hfire, hcreated, hstatus, hprofile, hsecret, -⟩ := hf
  simp only [hashToRecord, intField, hid, hsub, howner, hevent, heventId, hschema, htenant, hdata,
    hemitted, hurl, hip, hredel, hattempts, hfire, hcreated, hstatus, hprofile, hsecret,
    int_intText, ofValue_orText]
  rfl

/-! ### Overwriting a field -/

theorem hashToRecord_status {h : Hash} {r : DeliveryRecord} (hr : hashToRecord h = some r)
    (st : DeliveryStatus) :
    hashToRecord (h.put ("status", st.value)) = some { r with status := st } := by
  simp only [hashToRecord, intField, Option.bind_eq_bind, Option.bind_eq_some_iff] at hr
  obtain ⟨emitted, he, attempts, ha, fire, hfire, created, hc, status, -, hr⟩ := hr
  cases hr
  simp [hashToRecord, intField, field_put, he, ha, hfire, hc, ofValue_orText]

theorem hashToRecord_attempts {h : Hash} {r : DeliveryRecord} (hr : hashToRecord h = some r)
    (n : Nat) : hashToRecord (h.put ("attempts", intText n)) = some { r with attempts := n } := by
  simp only [hashToRecord, intField, Option.bind_eq_bind, Option.bind_eq_some_iff] at hr
  obtain ⟨emitted, he, attempts, -, fire, hfire, created, hc, status, hs, hr⟩ := hr
  cases hr
  simp [hashToRecord, intField, field_put, he, hfire, hc, hs, int_intText]

theorem hashToRecord_fireAt {h : Hash} {r : DeliveryRecord} (hr : hashToRecord h = some r)
    (ms : Int) :
    hashToRecord (h.put ("fire_at_ms", intText ms)) = some { r with fireAt := fromMs ms } := by
  simp only [hashToRecord, intField, Option.bind_eq_bind, Option.bind_eq_some_iff] at hr
  obtain ⟨emitted, he, attempts, ha, fire, -, created, hc, status, hs, hr⟩ := hr
  cases hr
  simp [hashToRecord, intField, field_put, he, ha, hc, hs, int_intText]

/-! ## Keys and commands -/

/-- A sorted set; the score is in milliseconds. -/
abbrev ZSet := Dict DeliveryId Int

structure RedisState where
  ready : ZSet
  inflight : ZSet
  hashes : Dict DeliveryId Hash
  attempts : Dict DeliveryId (List AttemptRecord)

def empty : RedisState := ⟨.empty, .empty, .empty, .empty⟩

/-- The hash of a delivery, if its key exists. -/
def RedisState.hashOf (s : RedisState) (id : DeliveryId) : Option Hash :=
  (s.hashes.find? id).map (·.2)

/-- One command on the keys of one delivery. -/
inductive Command where
  | zaddReady (id : DeliveryId) (score : Int)
  | zremReady (id : DeliveryId)
  | zremInflight (id : DeliveryId)
  | hset (id : DeliveryId) (fields : List (String × String))
  | lpush (id : DeliveryId) (entry : AttemptRecord)
  | ltrim (id : DeliveryId) (limit : Nat)

def Command.id : Command → DeliveryId
  | .zaddReady id _ | .zremReady id | .zremInflight id => id
  | .hset id _ | .lpush id _ | .ltrim id _ => id

def attemptsOf (s : RedisState) (id : DeliveryId) : List AttemptRecord :=
  ((s.attempts.find? id).map (·.2)).getD []

def exec (s : RedisState) : Command → RedisState
  | .zaddReady id score => { s with ready := s.ready.put (id, score) }
  | .zremReady id => { s with ready := s.ready.erase id }
  | .zremInflight id => { s with inflight := s.inflight.erase id }
  | .hset id fields =>
    { s with hashes := s.hashes.put (id, Redis.hset ((s.hashOf id).getD .empty) fields) }
  | .lpush id entry => { s with attempts := s.attempts.put (id, entry :: attemptsOf s id) }
  | .ltrim id limit =>
    -- `LTRIM key 0 -1`, for a limit of zero, keeps the whole list
    let kept := if limit = 0 then attemptsOf s id else (attemptsOf s id).take limit
    { s with attempts := s.attempts.put (id, kept) }

def execAll (s : RedisState) (cs : List Command) : RedisState := cs.foldl exec s

/-! ## The calls -/

/-- The commands `enqueue_many` puts into its pipeline for one record. -/
def enqueueOne (r : DeliveryRecord) : Option (List Command) :=
  (recordToHash r).map fun fields =>
    [.hset r.deliveryId fields, .zaddReady r.deliveryId (toMs r.fireAt)]

/-- The pipeline of `enqueue_many`; a payload that cannot be decoded raises before it
is sent. -/
def enqueuePipeline : List DeliveryRecord → Option (List Command)
  | [] => some []
  | r :: rs => (enqueueOne r).bind fun cs => (enqueuePipeline rs).map (cs ++ ·)

def enqueueMany (s : RedisState) (rs : List DeliveryRecord) : Option RedisState :=
  (enqueuePipeline rs).map (execAll s)

/-- `ZRANGEBYSCORE set 0 now`: by score, then by member. -/
def rangeByScore (set : ZSet) (nowMs : Int) : List DeliveryId :=
  ((set.rows.filter fun m => decide (0 ≤ m.2) && decide (m.2 ≤ nowMs)).insertionSort
    fun m m' => m.2 < m'.2 ∨ m.2 = m'.2 ∧ m.1 ≤ m'.1).map (·.1)

/-- `ZREM` from `ready` and `ZADD` to `inflight`, for each id. -/
def moveToInflight (s : RedisState) (leaseMs : Int) (ids : List DeliveryId) : RedisState :=
  { s with
    ready := s.ready.filter fun m => m.1 ∉ ids
    inflight := s.inflight.putMany (ids.map fun id => (id, leaseMs)) }

/-- `ZREM` from `inflight` and `ZADD` to `ready`, for each id. -/
def moveToReady (s : RedisState) (nowMs : Int) (ids : List DeliveryId) : RedisState :=
  { s with
    ready := s.ready.putMany (ids.map fun id => (id, nowMs))
    inflight := s.inflight.filter fun m => m.1 ∉ ids }

/-- `CLAIM_BATCH_LUA`. -/
def claimScript (s : RedisState) (nowMs leaseMs : Int) (batchSize : Nat) :
    List DeliveryId × RedisState :=
  let ids := (rangeByScore s.ready nowMs).take batchSize
  (ids, moveToInflight s leaseMs ids)

/-- `RECLAIM_LUA`. -/
def reclaimScript (s : RedisState) (nowMs : Int) : Nat × RedisState :=
  let stale := rangeByScore s.inflight nowMs
  (stale.length, moveToReady s nowMs stale)

/-- `_hash_to_record` over the rows; `none` if one of them raises. -/
def readAll : List Hash → Option (List DeliveryRecord)
  | [] => some []
  | h :: hs => (hashToRecord h).bind fun r => (readAll hs).map (r :: ·)

/-- `claim_batch`: the script, then the hashes are read and their status written. A
hash that cannot be read raises after the script has run. -/
def claimBatch (s : RedisState) (now : Datetime) (leaseTtlS batchSize : Nat) :
    Option (List DeliveryRecord) × RedisState :=
  let (ids, s) := claimScript s (toMs now) (toMs now + leaseTtlS * 1000) batchSize
  match readAll (ids.filterMap s.hashOf) with
  | none => (none, s)
  | some records =>
    (some (records.map fun r => { r with status := .inFlight }),
      execAll s (records.map fun r =>
        .hset r.deliveryId [("status", DeliveryStatus.inFlight.value)]))

def reclaimStale (s : RedisState) (now : Datetime) : Nat × RedisState := reclaimScript s (toMs now)

/-- `_attempt_to_json`: no field for the response body. -/
def attemptToJson (a : AttemptRecord) : AttemptRecord :=
  { a with
    attemptedAt := fromMs (toMs a.attemptedAt), responseBody := [], responseTruncated := false }

def appendAttempt (historyLimit : Nat) (id : DeliveryId) (a : AttemptRecord) : List Command :=
  [.lpush id (attemptToJson a), .ltrim id historyLimit]

/-- The commands of a completion. -/
def complete (historyLimit : Nat) (id : DeliveryId) (a : AttemptRecord) : Completion → List Command
  | .sent =>
    appendAttempt historyLimit id a ++ [.zremInflight id, .zremReady id,
      .hset id [("status", DeliveryStatus.sent.value), ("attempts", intText a.attempt)]]
  | .retry t =>
    appendAttempt historyLimit id a ++ [.zremInflight id, .zaddReady id (toMs t),
      .hset id [("status", DeliveryStatus.failedRetry.value), ("attempts", intText a.attempt),
        ("fire_at_ms", intText (toMs t))]]
  | .dead =>
    appendAttempt historyLimit id a ++ [.zremInflight id, .zremReady id,
      .hset id [("status", DeliveryStatus.deadLettered.value), ("attempts", intText a.attempt)]]
  | .append => appendAttempt historyLimit id a

def get (s : RedisState) (id : DeliveryId) : Option DeliveryRecord :=
  (s.hashOf id).bind hashToRecord

/-! ## Readable states -/

/-- Every hash is read back, under the id of its key. -/
def Readable (s : RedisState) : Prop :=
  ∀ id h, s.hashOf id = some h → ∃ r, hashToRecord h = some r ∧ r.deliveryId = id

/-- What the store holds at one id. -/
def at_ (s : RedisState) (id : DeliveryId) : Option Hash × Option (DeliveryId × Int) ×
    Option (DeliveryId × Int) :=
  (s.hashOf id, s.ready.find? id, s.inflight.find? id)

theorem get_of_at {s : RedisState} {id : DeliveryId} {h : Option Hash}
    {ready inflight : Option (DeliveryId × Int)} (hat : at_ s id = (h, ready, inflight)) :
    get s id = h.bind hashToRecord := by
  have hh : s.hashOf id = h := congrArg Prod.fst hat
  rw [get, hh]

theorem get_of_hash {s : RedisState} {id : DeliveryId} {h : Hash}
    {ready inflight : Option (DeliveryId × Int)} {r : DeliveryRecord}
    (hat : at_ s id = (some h, ready, inflight)) (hr : hashToRecord h = some r) :
    get s id = some r := by
  rw [get_of_at hat, Option.bind_some, hr]

theorem hashOf_hset (s : RedisState) (id id' : DeliveryId) (fields : List (String × String)) :
    (exec s (.hset id fields)).hashOf id' =
      if id = id' then some (hset ((s.hashOf id).getD .empty) fields) else s.hashOf id' := by
  simp only [exec, RedisState.hashOf, Table.find?_put]
  split <;> rfl

/-- A command leaves every other delivery alone. -/
theorem at_exec (s : RedisState) (c : Command) {id : DeliveryId} (h : c.id ≠ id) :
    at_ (exec s c) id = at_ s id := by
  cases c with
  | hset id' fields =>
    have hne : id' ≠ id := h
    rw [at_, hashOf_hset, if_neg hne]
    rfl
  | zaddReady id' score =>
    simp [at_, exec, RedisState.hashOf, Table.find?_put, show id' ≠ id from h]
  | zremReady id' =>
    simp [at_, exec, RedisState.hashOf, Table.find?_erase, Ne.symm (show id' ≠ id from h)]
  | zremInflight id' =>
    simp [at_, exec, RedisState.hashOf, Table.find?_erase, Ne.symm (show id' ≠ id from h)]
  | lpush id' entry => rfl
  | ltrim id' limit => rfl

theorem at_execAll (s : RedisState) (cs : List Command) {id : DeliveryId}
    (h : ∀ c ∈ cs, c.id ≠ id) : at_ (execAll s cs) id = at_ s id := by
  induction cs generalizing s with
  | nil => rfl
  | cons c cs ih =>
    rw [execAll, List.foldl_cons]
    exact (ih (exec s c) fun c' hc => h c' (List.mem_cons_of_mem _ hc)).trans
      (at_exec s c (h c (List.mem_cons_self ..)))

theorem execAll_append (s : RedisState) (cs ds : List Command) :
    execAll s (cs ++ ds) = execAll (execAll s cs) ds :=
  List.foldl_append

theorem readable_congr {s s' : RedisState} (h : ∀ id, s'.hashOf id = s.hashOf id)
    (hs : Readable s) : Readable s' := by
  intro id x hx
  rw [h id] at hx
  exact hs id x hx

theorem readable_hset {s : RedisState} {id : DeliveryId} {fields : List (String × String)}
    {r : DeliveryRecord} (hs : Readable s)
    (hr : hashToRecord (hset ((s.hashOf id).getD .empty) fields) = some r)
    (hid : r.deliveryId = id) : Readable (exec s (.hset id fields)) := by
  intro id' x hx
  rw [hashOf_hset] at hx
  split at hx
  case isTrue he =>
    cases hx
    exact ⟨r, hr, hid.trans he⟩
  case isFalse => exact hs id' x hx

/-! ## The abstract model -/

/-- The job of a record: a member of `ready` can be claimed whatever its hash says, a
member of `inflight` is leased. -/
def jobOf (ready inflight : Option (DeliveryId × Int)) (r : DeliveryRecord) : Job where
  status :=
    if ready.isSome then (if r.status.claimable then r.status else .pending)
    else if inflight.isSome then .inFlight else r.status
  attempts := r.attempts
  lease := if ready.isSome then none else inflight.map fun m => fromMs m.2
  core := core r

def viewAt (x : Option Hash × Option (DeliveryId × Int) × Option (DeliveryId × Int)) :
    Option Job :=
  (x.1.bind hashToRecord).map (jobOf x.2.1 x.2.2)

def view (s : RedisState) (id : DeliveryId) : Option Job := viewAt (at_ s id)

def counter : Counter
  | .append, old, _ => old
  | _, _, n => n

/-! ### Completions -/

theorem complete_id (limit : Nat) (id : DeliveryId) (a : AttemptRecord) (c : Completion) :
    ∀ cmd ∈ complete limit id a c, cmd.id = id := by
  cases c <;> simp [complete, appendAttempt, Command.id]

/-- A completion leaves every other delivery alone. -/
theorem at_complete_other (s : RedisState) (limit : Nat) {id id' : DeliveryId} (hne : id' ≠ id)
    (a : AttemptRecord) (c : Completion) :
    at_ (execAll s (complete limit id a c)) id' = at_ s id' :=
  at_execAll s _ fun cmd hcmd => (complete_id limit id a c cmd hcmd).symm ▸ Ne.symm hne

theorem at_hset {s : RedisState} {id : DeliveryId} {h : Hash} (hh : s.hashOf id = some h)
    (fields : List (String × String)) : at_ (exec s (.hset id fields)) id =
      (some (hset h fields), s.ready.find? id, s.inflight.find? id) := by
  rw [at_, hashOf_hset, if_pos rfl, hh]
  rfl

/-- The record a completion leaves in the hash. -/
def settled (c : Completion) (n : Nat) (r : DeliveryRecord) : DeliveryRecord :=
  match c with
  | .sent => { r with status := .sent, attempts := n }
  | .retry t => { r with status := .failedRetry, attempts := n, fireAt := fromMs (toMs t) }
  | .dead => { r with status := .deadLettered, attempts := n }
  | .append => r

/-- The members of `ready` and `inflight` a completion leaves. -/
def membersAfter (c : Completion) (id : DeliveryId)
    (members : Option (DeliveryId × Int) × Option (DeliveryId × Int)) :
    Option (DeliveryId × Int) × Option (DeliveryId × Int) :=
  match c with
  | .sent | .dead => (none, none)
  | .retry t => (some (id, toMs t), none)
  | .append => members

/-- What a completion leaves at its delivery. -/
theorem at_completed {s : RedisState} {id : DeliveryId} {h : Hash} {r : DeliveryRecord}
    (hh : s.hashOf id = some h) (hr : hashToRecord h = some r) (limit : Nat) (a : AttemptRecord)
    (c : Completion) : ∃ h', at_ (execAll s (complete limit id a c)) id =
        (some h', membersAfter c id (s.ready.find? id, s.inflight.find? id)) ∧
      hashToRecord h' = some (settled c a.attempt r) := by
  -- the sorted sets once the delivery has left `inflight`
  have hinflight := Table.find?_erase s.inflight id id
  have hready := Table.find?_erase s.ready id id
  rw [if_pos rfl] at hinflight hready
  cases c with
  | sent =>
    refine ⟨_, (at_hset (by exact hh) _).trans ?_,
      hashToRecord_attempts (hashToRecord_status hr .sent) a.attempt⟩
    exact Prod.ext rfl (Prod.ext hready hinflight)
  | retry t =>
    refine ⟨_, (at_hset (by exact hh) _).trans ?_,
      hashToRecord_fireAt (hashToRecord_attempts (hashToRecord_status hr .failedRetry) a.attempt)
        (toMs t)⟩
    have hput := Table.find?_put s.ready (id, toMs t) id
    rw [if_pos rfl] at hput
    exact Prod.ext rfl (Prod.ext hput hinflight)
  | dead =>
    refine ⟨_, (at_hset (by exact hh) _).trans ?_,
      hashToRecord_attempts (hashToRecord_status hr .deadLettered) a.attempt⟩
    exact Prod.ext rfl (Prod.ext hready hinflight)
  | append =>
    refine ⟨h, ?_, hr⟩
    rw [← hh]
    rfl

/-- The same, as it shows in the job. -/
theorem at_complete {s : RedisState} {id : DeliveryId} {h : Hash} {r : DeliveryRecord}
    (hh : s.hashOf id = some h) (hr : hashToRecord h = some r) (limit : Nat) (a : AttemptRecord)
    (c : Completion) : ∃ h' r' ready inflight,
      at_ (execAll s (complete limit id a c)) id = (some h', ready, inflight) ∧
      hashToRecord h' = some r' ∧ r'.deliveryId = r.deliveryId ∧
      jobOf ready inflight r' =
        c.settle counter a.attempt (jobOf (s.ready.find? id) (s.inflight.find? id) r) := by
  obtain ⟨h', hat, hr'⟩ := at_completed hh hr limit a c
  refine ⟨h', _, _, _, hat, hr', ?_⟩
  cases c <;> exact ⟨rfl, rfl⟩

theorem readable_complete {s : RedisState} (hs : Readable s) {id : DeliveryId}
    (hid : (s.hashOf id).isSome = true) (limit : Nat) (a : AttemptRecord) (c : Completion) :
    Readable (execAll s (complete limit id a c)) := by
  obtain ⟨h, hh⟩ := Option.isSome_iff_exists.mp hid
  obtain ⟨r, hr, hrid⟩ := hs id h hh
  obtain ⟨h', r', ready, inflight, hat, hr', hrid', -⟩ := at_complete hh hr limit a c
  intro id' x hx
  by_cases he : id' = id
  · subst he
    have hx' := congrArg Prod.fst hat
    rw [at_, hx] at hx'
    cases hx'
    exact ⟨r', hr', hrid'.trans hrid⟩
  · have hx' := congrArg Prod.fst (at_complete_other s limit he a c)
    rw [at_, hx] at hx'
    exact hs id' x hx'.symm

/-! ### Claims -/

theorem readAll_eq {s : RedisState} (hs : Readable s) (ids : List DeliveryId) :
    readAll (ids.filterMap s.hashOf) = some (ids.filterMap (get s)) := by
  induction ids with
  | nil => rfl
  | cons id ids ih =>
    cases hh : s.hashOf id with
    | none =>
      have hg : get s id = none := by rw [get, hh, Option.bind_none]
      rw [List.filterMap_cons_none hh, List.filterMap_cons_none hg, ih]
    | some h =>
      obtain ⟨r, hr, -⟩ := hs id h hh
      have hg : get s id = some r := by rw [get, hh, Option.bind_some, hr]
      rw [List.filterMap_cons_some hh, List.filterMap_cons_some hg, readAll, hr,
        Option.bind_some, ih, Option.map_some]

theorem get_deliveryId {s : RedisState} (hs : Readable s) {id : DeliveryId} {r : DeliveryRecord}
    (h : get s id = some r) : r.deliveryId = id := by
  obtain ⟨x, hx, hr⟩ := Option.bind_eq_some_iff.mp h
  obtain ⟨r', hr', hid⟩ := hs id x hx
  rw [hr] at hr'
  cases hr'
  exact hid

theorem nodup_rangeByScore (set : ZSet) (nowMs : Int) : (rangeByScore set nowMs).Nodup := by
  have hfilter := set.nodup.sublist ((List.filter_sublist
    (p := fun m : DeliveryId × Int => decide (0 ≤ m.2) && decide (m.2 ≤ nowMs))).map Prod.fst)
  exact ((List.perm_insertionSort _ _).map Prod.fst).nodup_iff.mpr hfilter

theorem mem_rangeByScore {set : ZSet} {nowMs : Int} {id : DeliveryId} :
    id ∈ rangeByScore set nowMs ↔ ∃ score, set.find? id = some (id, score) ∧ 0 ≤ score ∧
      score ≤ nowMs := by
  simp only [rangeByScore, List.mem_map, List.mem_insertionSort, List.mem_filter,
    Bool.and_eq_true, decide_eq_true_eq]
  constructor
  · rintro ⟨⟨k, score⟩, ⟨hm, hle⟩, rfl⟩
    exact ⟨score, Table.find?_of_mem hm, hle⟩
  · rintro ⟨score, hf, hle⟩
    exact ⟨(id, score), ⟨(Table.find?_eq_some.mp hf).1, hle⟩, rfl⟩

/-- The records a claim reads: each under the id it was found under. -/
theorem map_deliveryId_filterMap_get {s : RedisState} (hs : Readable s) (ids : List DeliveryId) :
    (ids.filterMap (get s)).map (·.deliveryId) = ids.filter fun id => (get s id).isSome := by
  induction ids with
  | nil => rfl
  | cons id ids ih =>
    cases hg : get s id with
    | none =>
      rw [List.filterMap_cons_none hg, ih, List.filter_cons_of_neg (by simp [hg])]
    | some r =>
      rw [List.filterMap_cons_some hg, List.map_cons, ih, get_deliveryId hs hg,
        List.filter_cons_of_pos (by simp [hg])]

/-- A command in a list that no other command of the list interferes with. -/
theorem at_execAll_mem (s : RedisState) {cs : List Command} (hn : (cs.map Command.id).Nodup)
    {c : Command} (hc : c ∈ cs) : ∃ s', at_ s' c.id = at_ s c.id ∧
      at_ (execAll s cs) c.id = at_ (exec s' c) c.id := by
  obtain ⟨pre, post, rfl⟩ := List.append_of_mem hc
  rw [List.map_append, List.map_cons, List.nodup_append, List.nodup_cons] at hn
  obtain ⟨-, ⟨hpost, -⟩, hpre⟩ := hn
  refine ⟨execAll s pre, at_execAll s pre ?_, ?_⟩
  · intro c' hc' he
    exact hpre c'.id (List.mem_map_of_mem hc') c.id (List.mem_cons_self ..) he
  · rw [execAll_append]
    exact at_execAll (exec (execAll s pre) c) post fun c' hc' he =>
      hpost (he ▸ List.mem_map_of_mem hc')

theorem find?_putMany_const (set : ZSet) {ids : List DeliveryId} (hn : ids.Nodup) (score : Int)
    (id : DeliveryId) : (set.putMany (ids.map fun id => (id, score))).find? id =
      if id ∈ ids then some (id, score) else set.find? id := by
  split
  case isTrue hid =>
    exact Table.find?_putMany_of_mem set (ids.map fun id => (id, score))
      (by simpa [List.map_map, Function.comp_def] using hn) (List.mem_map_of_mem hid)
  case isFalse hid =>
    apply Table.find?_putMany_of_not_mem
    intro m hm
    obtain ⟨id', hid', rfl⟩ := List.mem_map.mp hm
    exact fun he => hid (he ▸ hid')

theorem find?_filter_not_mem (set : ZSet) (ids : List DeliveryId) (id : DeliveryId) :
    (set.filter fun m => m.1 ∉ ids).find? id = if id ∈ ids then none else set.find? id := by
  rw [Table.find?_filter]
  cases hr : set.find? id with
  | none => simp
  | some m =>
    obtain rfl := Table.find?_key hr
    by_cases hid : m.1 ∈ ids <;> simp [Option.filter_some, hid]

theorem at_moveToInflight (s : RedisState) (leaseMs : Int) {ids : List DeliveryId} (hn : ids.Nodup)
    (id : DeliveryId) : at_ (moveToInflight s leaseMs ids) id =
      if id ∈ ids then (s.hashOf id, none, some (id, leaseMs)) else at_ s id := by
  simp only [at_, moveToInflight, find?_putMany_const _ hn, find?_filter_not_mem]
  split <;> rfl

theorem at_moveToReady (s : RedisState) (nowMs : Int) {ids : List DeliveryId} (hn : ids.Nodup)
    (id : DeliveryId) : at_ (moveToReady s nowMs ids) id =
      if id ∈ ids then (s.hashOf id, some (id, nowMs), none) else at_ s id := by
  simp only [at_, moveToReady, find?_putMany_const _ hn, find?_filter_not_mem]
  split <;> rfl

theorem nodup_claimScript (s : RedisState) (nowMs leaseMs : Int) (n : Nat) :
    (claimScript s nowMs leaseMs n).1.Nodup :=
  (nodup_rangeByScore s.ready nowMs).sublist (List.take_sublist _ _)

theorem at_claimScript (s : RedisState) (nowMs leaseMs : Int) (n : Nat) (id : DeliveryId) :
    at_ (claimScript s nowMs leaseMs n).2 id =
      if id ∈ (claimScript s nowMs leaseMs n).1 then (s.hashOf id, none, some (id, leaseMs))
      else at_ s id :=
  at_moveToInflight s leaseMs (nodup_claimScript s nowMs leaseMs n) id

theorem mem_claimScript {s : RedisState} {nowMs leaseMs : Int} {n : Nat} {id : DeliveryId}
    (h : id ∈ (claimScript s nowMs leaseMs n).1) :
    ∃ score, s.ready.find? id = some (id, score) := by
  obtain ⟨score, hf, -⟩ := mem_rangeByScore.mp (List.mem_of_mem_take h)
  exact ⟨score, hf⟩

/-- The status a claim writes into the hash of each record it read. -/
def markInFlight (r : DeliveryRecord) : Command :=
  .hset r.deliveryId [("status", DeliveryStatus.inFlight.value)]

/-- **A claim** of a readable state: it reads the records of the ids the script took. -/
theorem claimBatch_eq {s : RedisState} (hs : Readable s) (now : Datetime) (ttl n : Nat) :
    claimBatch s now ttl n =
      let x := claimScript s (toMs now) (toMs now + ttl * 1000) n
      (some ((x.1.filterMap (get s)).map fun r => { r with status := .inFlight }),
        execAll x.2 ((x.1.filterMap (get s)).map markInFlight)) := by
  have hscript : ∀ id, (claimScript s (toMs now) (toMs now + ttl * 1000) n).2.hashOf id =
      s.hashOf id := fun _ => rfl
  have hread := readAll_eq hs (claimScript s (toMs now) (toMs now + ttl * 1000) n).1
  rw [claimBatch]
  simp only [hscript, hread]
  rfl

/-- What a claim leaves at the delivery of a record it returned. -/
theorem at_claimed {s : RedisState} (hs : Readable s) {now : Datetime} {ttl n : Nat}
    {r : DeliveryRecord}
    (hr : r ∈ (claimScript s (toMs now) (toMs now + ttl * 1000) n).1.filterMap (get s)) :
    ∃ h, s.hashOf r.deliveryId = some h ∧ hashToRecord h = some r ∧
      (s.ready.find? r.deliveryId).isSome = true ∧
      at_ (claimBatch s now ttl n).2 r.deliveryId =
        (some (h.put ("status", DeliveryStatus.inFlight.value)), none,
          some (r.deliveryId, toMs now + ttl * 1000)) := by
  obtain ⟨id, hid, hget⟩ := List.mem_filterMap.mp hr
  obtain rfl := get_deliveryId hs hget
  obtain ⟨h, hh, hrec⟩ := Option.bind_eq_some_iff.mp hget
  obtain ⟨score, hready⟩ := mem_claimScript hid
  refine ⟨h, hh, hrec, by rw [hready]; rfl, ?_⟩
  have hn : (((claimScript s (toMs now) (toMs now + ttl * 1000) n).1.filterMap
      (get s)).map markInFlight).map Command.id |>.Nodup := by
    rw [List.map_map]
    change (List.map DeliveryRecord.deliveryId _).Nodup
    rw [map_deliveryId_filterMap_get hs]
    exact (nodup_claimScript _ _ _ _).filter _
  obtain ⟨s', hat, hlast⟩ := at_execAll_mem
    (claimScript s (toMs now) (toMs now + ttl * 1000) n).2 hn (List.mem_map_of_mem hr)
  rw [claimBatch_eq hs]
  simp only [markInFlight, Command.id] at hat hlast ⊢
  rw [hlast]
  rw [at_claimScript, if_pos hid, hh] at hat
  simp only [at_, Prod.mk.injEq] at hat
  obtain ⟨hh', hready', hinflight'⟩ := hat
  rw [at_, hashOf_hset, if_pos rfl, hh']
  simp only [exec, hready', hinflight']
  rfl

/-- At the deliveries whose records it has not read, a claim leaves what its script does. -/
theorem at_claimBatch_unread {s : RedisState} (hs : Readable s) {now : Datetime} {ttl n : Nat}
    {id : DeliveryId}
    (hid : ∀ r ∈ (claimScript s (toMs now) (toMs now + ttl * 1000) n).1.filterMap (get s),
      r.deliveryId ≠ id) : at_ (claimBatch s now ttl n).2 id =
      at_ (claimScript s (toMs now) (toMs now + ttl * 1000) n).2 id := by
  rw [claimBatch_eq hs]
  apply at_execAll
  intro c hc
  obtain ⟨r, hr, rfl⟩ := List.mem_map.mp hc
  exact hid r hr

/-- What a claim leaves at the other deliveries: an id without a hash is leased
all the same, if it is in `ready`. -/
theorem at_unclaimed {s : RedisState} (hs : Readable s) {now : Datetime} {ttl n : Nat}
    {id : DeliveryId}
    (hid : ∀ r ∈ (claimScript s (toMs now) (toMs now + ttl * 1000) n).1.filterMap (get s),
      r.deliveryId ≠ id) :
    at_ (claimBatch s now ttl n).2 id = at_ s id ∨
      (s.ready.find? id).isSome = true ∧ s.hashOf id = none ∧
        (claimBatch s now ttl n).2.hashOf id = none := by
  have hrest := at_claimBatch_unread hs hid
  rw [hrest, at_claimScript]
  by_cases hm : id ∈ (claimScript s (toMs now) (toMs now + ttl * 1000) n).1
  · right
    have hnone : s.hashOf id = none := by
      cases hh : s.hashOf id with
      | none => rfl
      | some h =>
        obtain ⟨r, hr, hrid⟩ := hs id h hh
        have hget : get s id = some r := by rw [get, hh, Option.bind_some, hr]
        exact absurd hrid (hid r (List.mem_filterMap.mpr ⟨id, hm, hget⟩))
    obtain ⟨score, hready⟩ := mem_claimScript hm
    refine ⟨by rw [hready]; rfl, hnone, ?_⟩
    have hhash := congrArg Prod.fst hrest
    rw [at_claimScript, if_pos hm] at hhash
    exact hhash.trans hnone
  · exact Or.inl (if_neg hm)

/-- A claim leaves an id that no key knows alone. -/
theorem at_claimBatch_fresh {s : RedisState} (hs : Readable s) {id : DeliveryId}
    (hat : at_ s id = (none, none, none)) (now : Datetime) (ttl n : Nat) :
    at_ (claimBatch s now ttl n).2 id = (none, none, none) := by
  have hash : s.hashOf id = none := congrArg Prod.fst hat
  have hready : s.ready.find? id = none := congrArg (·.2.1) hat
  have hne : ∀ r ∈ (claimScript s (toMs now) (toMs now + ttl * 1000) n).1.filterMap (get s),
      r.deliveryId ≠ id := by
    rintro r hr rfl
    obtain ⟨h, hh, -⟩ := at_claimed hs hr
    rw [hash] at hh
    cases hh
  rcases at_unclaimed hs hne with hat' | ⟨hsome, -⟩
  · exact hat'.trans hat
  · rw [hready] at hsome
    cases hsome

theorem view_of_hashOf_none {s : RedisState} {id : DeliveryId} (h : s.hashOf id = none) :
    view s id = none := by
  rw [view, viewAt, at_, h]
  rfl

theorem view_eq {s : RedisState} {id : DeliveryId} {h : Hash} {r : DeliveryRecord}
    {ready inflight : Option (DeliveryId × Int)} (hat : at_ s id = (some h, ready, inflight))
    (hr : hashToRecord h = some r) : view s id = some (jobOf ready inflight r) := by
  rw [view, hat, viewAt, Option.bind_some, hr, Option.map_some]

theorem readable_claimBatch {s : RedisState} (hs : Readable s) (now : Datetime) (ttl n : Nat) :
    Readable (claimBatch s now ttl n).2 := by
  intro id x hx
  by_cases hm : ∃ r ∈ (claimScript s (toMs now) (toMs now + ttl * 1000) n).1.filterMap (get s),
      r.deliveryId = id
  · obtain ⟨r, hr, rfl⟩ := hm
    obtain ⟨h, -, hrec, -, hat⟩ := at_claimed hs hr
    have hx' := congrArg Prod.fst hat
    rw [at_, hx] at hx'
    cases hx'
    exact ⟨_, hashToRecord_status hrec .inFlight, rfl⟩
  · have hid : ∀ r ∈ (claimScript s (toMs now) (toMs now + ttl * 1000) n).1.filterMap (get s),
        r.deliveryId ≠ id := fun r hr he => hm ⟨r, hr, he⟩
    rcases at_unclaimed hs hid with hat | ⟨-, -, hnone⟩
    · have hx' := congrArg Prod.fst hat
      rw [at_, hx] at hx'
      exact hs id x hx'.symm
    · rw [hx] at hnone
      cases hnone

theorem view_claim {s : RedisState} (hs : Readable s) (now : Datetime) (ttl n : Nat)
    {rs : List DeliveryRecord} (h : (claimBatch s now ttl n).1 = some rs) :
    (rs.map (·.deliveryId)).Nodup ∧
    (∀ r ∈ rs, ∃ j e, view s r.deliveryId = some j ∧ j.status.claimable = true ∧
      r.attempts = j.attempts ∧ core r = j.core ∧ view (claimBatch s now ttl n).2 r.deliveryId =
        some { j with status := .inFlight, lease := some e }) ∧
    ∀ id, (∀ r ∈ rs, r.deliveryId ≠ id) → view (claimBatch s now ttl n).2 id = view s id := by
  have hrs := h
  rw [claimBatch_eq hs, Option.some_inj] at hrs
  refine ⟨?_, ?_, ?_⟩
  · rw [← hrs, List.map_map]
    change (List.map DeliveryRecord.deliveryId _).Nodup
    rw [map_deliveryId_filterMap_get hs]
    exact (nodup_claimScript _ _ _ _).filter _
  · intro r hr
    rw [← hrs] at hr
    obtain ⟨r₀, hr₀, rfl⟩ := List.mem_map.mp hr
    obtain ⟨h', hh, hrec, hready, hat⟩ := at_claimed hs hr₀
    refine ⟨jobOf (s.ready.find? r₀.deliveryId) (s.inflight.find? r₀.deliveryId) r₀,
      fromMs (toMs now + ttl * 1000), view_eq (by rw [at_, hh]) hrec, ?_, rfl, rfl, ?_⟩
    · simp only [jobOf, hready, if_true]
      split
      · assumption
      · rfl
    · exact (view_eq hat (hashToRecord_status hrec .inFlight)).trans rfl
  · intro id hid
    have hid' : ∀ r ∈ (claimScript s (toMs now) (toMs now + ttl * 1000) n).1.filterMap (get s),
        r.deliveryId ≠ id := by
      intro r hr
      exact hid { r with status := .inFlight } (hrs ▸ List.mem_map_of_mem hr)
    rcases at_unclaimed hs hid' with hat | ⟨-, hnone, hnone'⟩
    · rw [view, hat, view]
    · rw [view_of_hashOf_none hnone, view_of_hashOf_none hnone']

/-! ### Reclaims -/

/-- What a reclaim leaves at one delivery. -/
theorem at_reclaimStale (s : RedisState) (now : Datetime) (id : DeliveryId) :
    at_ (reclaimStale s now).2 id =
      if id ∈ rangeByScore s.inflight (toMs now) then (s.hashOf id, some (id, toMs now), none)
      else at_ s id :=
  at_moveToReady s (toMs now) (nodup_rangeByScore s.inflight (toMs now)) id

/-- A reclaim leaves an id that is not leased alone. -/
theorem at_reclaimStale_unleased {s : RedisState} {id : DeliveryId}
    (h : s.inflight.find? id = none) (now : Datetime) :
    at_ (reclaimStale s now).2 id = at_ s id := by
  rw [at_reclaimStale, if_neg]
  intro hstale
  obtain ⟨score, hscore, -⟩ := mem_rangeByScore.mp hstale
  rw [h] at hscore
  cases hscore

theorem view_reclaim (s : RedisState) (now : Datetime) (id : DeliveryId) :
    view (reclaimStale s now).2 id = view s id ∨
    ∃ j e st, view s id = some j ∧ j.status = .inFlight ∧ j.lease = some e ∧
      e ≤ fromMs (toMs now) ∧ st.claimable = true ∧
      view (reclaimStale s now).2 id = some { j with status := st, lease := none } := by
  have hat : at_ (reclaimStale s now).2 id = _ := at_reclaimStale s now id
  by_cases hm : id ∈ rangeByScore s.inflight (toMs now)
  · obtain ⟨score, hscore, -, hle⟩ := mem_rangeByScore.mp hm
    rw [if_pos hm] at hat
    cases hr : (s.hashOf id).bind hashToRecord with
    | none =>
      left
      rw [view, hat, view]
      simp [viewAt, at_, hr]
    | some r =>
      obtain ⟨h, hh, hrec⟩ := Option.bind_eq_some_iff.mp hr
      have hafter : view (reclaimStale s now).2 id = some (jobOf (some (id, toMs now)) none r) :=
        view_eq (hat.trans (by rw [hh])) hrec
      have hbefore : view s id = some (jobOf (s.ready.find? id) (some (id, score)) r) :=
        view_eq (by rw [at_, hh, hscore]) hrec
      cases hready : s.ready.find? id with
      | some m =>
        left
        rw [hafter, hbefore, hready]
        rfl
      | none =>
        right
        rw [hready] at hbefore
        refine ⟨_, fromMs score, if r.status.claimable then r.status else .pending, hbefore, rfl,
          rfl, ?_, ?_, hafter⟩
        · have hcast : (score : ℚ) ≤ toMs now := by exact_mod_cast hle
          exact div_le_div_of_nonneg_right hcast (by norm_num)
        · split
          · assumption
          · rfl
  · left
    rw [view, hat, if_neg hm, view]

theorem readable_reclaimStale {s : RedisState} (hs : Readable s) (now : Datetime) :
    Readable (reclaimStale s now).2 :=
  readable_congr (fun _ => rfl) hs

/-! ### Enqueues -/

theorem enqueueOne_id {r : DeliveryRecord} {cs : List Command} (h : enqueueOne r = some cs) :
    ∀ c ∈ cs, c.id = r.deliveryId := by
  obtain ⟨fields, -, rfl⟩ := Option.map_eq_some_iff.mp h
  simp [Command.id]

/-- What the commands for one record leave at its delivery. -/
theorem at_enqueueOne {r : DeliveryRecord} {cs : List Command} (h : enqueueOne r = some cs)
    (s : RedisState) : ∃ data, decodeUtf8 r.dataJson = some data ∧
      at_ (execAll s cs) r.deliveryId =
        (some (hset ((s.hashOf r.deliveryId).getD .empty) (recordFields r data)),
          some (r.deliveryId, toMs r.fireAt), s.inflight.find? r.deliveryId) := by
  obtain ⟨fields, hf, rfl⟩ := Option.map_eq_some_iff.mp h
  obtain ⟨data, hdata, rfl⟩ := Option.map_eq_some_iff.mp hf
  refine ⟨data, hdata, ?_⟩
  have hhash := hashOf_hset s r.deliveryId r.deliveryId (recordFields r data)
  rw [if_pos rfl] at hhash
  have hready := Table.find?_put (exec s (.hset r.deliveryId (recordFields r data))).ready
    (r.deliveryId, toMs r.fireAt) r.deliveryId
  rw [if_pos rfl] at hready
  exact Prod.ext hhash (Prod.ext hready rfl)

theorem enqueuePipeline_id {rs : List DeliveryRecord} {cs : List Command}
    (h : enqueuePipeline rs = some cs) : ∀ c ∈ cs, ∃ r ∈ rs, c.id = r.deliveryId := by
  induction rs generalizing cs with
  | nil =>
    cases h
    simp
  | cons r rs ih =>
    obtain ⟨ds, hds, h⟩ := Option.bind_eq_some_iff.mp h
    obtain ⟨es, hes, rfl⟩ := Option.map_eq_some_iff.mp h
    intro c hc
    rcases List.mem_append.mp hc with hc | hc
    · exact ⟨r, List.mem_cons_self .., enqueueOne_id hds c hc⟩
    · obtain ⟨r', hr', he⟩ := ih hes c hc
      exact ⟨r', List.mem_cons_of_mem _ hr', he⟩

/-- A pipeline leaves the deliveries of other records alone. -/
theorem at_enqueuePipeline_other {rs : List DeliveryRecord} {cs : List Command}
    (h : enqueuePipeline rs = some cs) {id : DeliveryId} (hid : ∀ r ∈ rs, r.deliveryId ≠ id)
    (s : RedisState) : at_ (execAll s cs) id = at_ s id := by
  apply at_execAll
  intro c hc he
  obtain ⟨r, hr, hrid⟩ := enqueuePipeline_id h c hc
  exact hid r hr (hrid.symm.trans he)

/-- What a pipeline leaves at the delivery of one of its records. -/
theorem at_enqueuePipeline {rs : List DeliveryRecord} {cs : List Command}
    (h : enqueuePipeline rs = some cs) (hn : (rs.map (·.deliveryId)).Nodup) {r : DeliveryRecord}
    (hr : r ∈ rs) (s : RedisState) : ∃ data, decodeUtf8 r.dataJson = some data ∧
      at_ (execAll s cs) r.deliveryId =
        (some (hset ((s.hashOf r.deliveryId).getD .empty) (recordFields r data)),
          some (r.deliveryId, toMs r.fireAt), s.inflight.find? r.deliveryId) := by
  induction rs generalizing cs s with
  | nil => cases hr
  | cons r' rs ih =>
    obtain ⟨ds, hds, h⟩ := Option.bind_eq_some_iff.mp h
    obtain ⟨es, hes, rfl⟩ := Option.map_eq_some_iff.mp h
    rw [List.map_cons, List.nodup_cons] at hn
    rw [execAll_append]
    rcases List.mem_cons.mp hr with rfl | hr
    · have hrest : at_ (execAll (execAll s ds) es) r.deliveryId =
          at_ (execAll s ds) r.deliveryId := by
        apply at_execAll
        intro c hc he
        obtain ⟨r'', hr'', he''⟩ := enqueuePipeline_id hes c hc
        exact hn.1 (he ▸ he'' ▸ List.mem_map_of_mem hr'')
      rw [hrest]
      exact at_enqueueOne hds s
    · obtain ⟨data, hdata, hat⟩ := ih hes hn.2 hr (execAll s ds)
      have hne : ∀ c ∈ ds, c.id ≠ r.deliveryId := fun c hc he =>
        hn.1 (enqueueOne_id hds c hc ▸ he ▸ List.mem_map_of_mem hr)
      have hsame := at_execAll s ds hne
      simp only [at_, Prod.mk.injEq] at hsame
      rw [hsame.1, hsame.2.2] at hat
      exact ⟨data, hdata, hat⟩

theorem readable_enqueuePipeline {rs : List DeliveryRecord} {cs : List Command}
    (h : enqueuePipeline rs = some cs) {s : RedisState} (hs : Readable s) :
    Readable (execAll s cs) := by
  induction rs generalizing cs s with
  | nil =>
    cases h
    exact hs
  | cons r rs ih =>
    obtain ⟨ds, hds, h⟩ := Option.bind_eq_some_iff.mp h
    obtain ⟨es, hes, rfl⟩ := Option.map_eq_some_iff.mp h
    rw [execAll_append]
    apply ih hes
    obtain ⟨fields, hf, rfl⟩ := Option.map_eq_some_iff.mp hds
    obtain ⟨data, -, rfl⟩ := Option.map_eq_some_iff.mp hf
    exact readable_congr (fun _ => rfl)
      (readable_hset hs (hashToRecord_recordFields _ r data) rfl)

/-! ### The queue -/

/-- The store over its readable states; completions are of deliveries it knows. -/
def redisStore (historyLimit : Nat) : DeliveryStore where
  State := { s : RedisState // Readable s }
  empty := ⟨empty, fun _ _ h => by cases h⟩
  enqueueMany s rs :=
    match h : enqueuePipeline rs with
    | none => none
    | some cs => some ⟨execAll s.1 cs, readable_enqueuePipeline h s.2⟩
  claimBatch s now ttl n _ :=
    (claimBatch s.1 now ttl n).1.map fun rs =>
      (rs, ⟨(claimBatch s.1 now ttl n).2, readable_claimBatch s.2 now ttl n⟩)
  reclaimStale s now :=
    ((reclaimStale s.1 now).1, ⟨(reclaimStale s.1 now).2, readable_reclaimStale s.2 now⟩)
  complete s id c a :=
    if h : (s.1.hashOf id).isSome then
      some ⟨execAll s.1 (complete historyLimit id a c), readable_complete s.2 h historyLimit a c⟩
    else none
  get s id := get s.1 id

theorem enqueueMany_some {limit : Nat} {s s' : (redisStore limit).State} {rs : List DeliveryRecord}
    (h : (redisStore limit).enqueueMany s rs = some s') :
    ∃ cs, enqueuePipeline rs = some cs ∧ s'.1 = execAll s.1 cs := by
  simp only [redisStore] at h
  split at h
  · cases h
  next cs hcs =>
    cases h
    exact ⟨cs, hcs, rfl⟩

theorem hashOf_of_view {s : RedisState} {id : DeliveryId} {j : Job} (h : view s id = some j) :
    ∃ x r, s.hashOf id = some x ∧ hashToRecord x = some r ∧
      j = jobOf (s.ready.find? id) (s.inflight.find? id) r := by
  obtain ⟨r, hr, rfl⟩ := Option.map_eq_some_iff.mp h
  obtain ⟨x, hx, hrec⟩ := Option.bind_eq_some_iff.mp hr
  exact ⟨x, r, hx, hrec, rfl⟩

/-- **The Redis store as a lease queue.** -/
def redisQueue (historyLimit : Nat) : LeaseQueue where
  toDeliveryStore := redisStore historyLimit
  view s id := view s.1 id
  expired e now := e ≤ fromMs (toMs now)
  counter := counter
  counter_retry _ _ := rfl
  view_empty _ := rfl
  view_enqueue_other s rs s' id h hid := by
    obtain ⟨cs, hcs, hs'⟩ := enqueueMany_some h
    rw [view, hs', at_enqueuePipeline_other hcs hid, view]
  view_enqueue_new s rs s' r h hn hr hpending _ := by
    obtain ⟨cs, hcs, hs'⟩ := enqueueMany_some h
    obtain ⟨data, hdata, hat⟩ := at_enqueuePipeline hcs hn hr s.1
    have hx := hashToRecord_recordFields ((s.1.hashOf r.deliveryId).getD .empty) r data
    have hclaimable : (stored r data).status = .pending := hpending
    refine ⟨core (stored r data), keeps_stored r hdata, ?_⟩
    rw [hs', view_eq hat hx, jobOf, hclaimable]
    rfl
  view_claim s now ttl n pick rs s' h := by
    obtain ⟨rs', hrs, h⟩ := Option.map_eq_some_iff.mp h
    cases h
    exact view_claim s.2 now ttl n hrs
  view_reclaim s now id := view_reclaim s.1 now id
  view_complete s id c a j s' h hs' := by
    obtain ⟨x, r, hx, hr, rfl⟩ := hashOf_of_view h
    obtain ⟨h', r', ready, inflight, hat, hr', -, hjob⟩ := at_complete hx hr historyLimit a c
    obtain ⟨hsome, hs'⟩ := Option.dite_none_right_eq_some.mp hs'
    cases hs'
    rw [view_eq hat hr', hjob]
  view_complete_other s id c a s' id' h hne := by
    obtain ⟨hsome, h⟩ := Option.dite_none_right_eq_some.mp h
    cases h
    rw [view, at_complete_other s.1 historyLimit hne a c, view]

end WebhookEngine.Stores.Redis
