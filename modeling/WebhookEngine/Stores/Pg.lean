import WebhookEngine.Lib.Columns
import WebhookEngine.Lib.Table
import WebhookEngine.Stores.Queue

/-!
# The Postgres delivery store

`PgDeliveryRepo` and `PgAttemptRepo` of `service/pg_repos.py` under the
transactions of `PgWebhookDeliveryStore`: here every call is one atomic step
(`PgTransactions` cuts the calls into their statements). The statements act on
rows; what a statement does to one row it hits is a function of that row.

A value that its column cannot hold is refused: the call raises, and its transaction is rolled
back. The limits on the size of a value are left out.

`ORDER BY fire_at LIMIT n` leaves the choice between equal `fire_at` open, and
`RETURNING` its order: `validPick` describes every choice Postgres may make.

* `pgQueue`: the store is a `RowQueue`. Every completion and `bump_attempt` set
  the counter to the reported attempt number.
-/

namespace WebhookEngine.Stores.Pg

open Lib Lib.Columns WebhookEngine.Stores.Queue

/-! ## Rows -/

/-- A row of the deliveries table. -/
structure Row where
  record : DeliveryRecord
  leaseExpiry : Option Datetime
  deriving DecidableEq, Repr

def Row.deliveryId (row : Row) : DeliveryId := row.record.deliveryId

/-- What an insert writes: the status is the constant `'pending'`. -/
def Row.ofRecord (r : DeliveryRecord) : Row := ⟨{ r with status := .pending }, none⟩

/-- `status IN ('pending', 'failed_retry') AND fire_at <= :now`. -/
def Row.claimable (now : Datetime) (row : Row) : Bool :=
  row.record.status.claimable && decide (row.record.fireAt ≤ now)

def Row.claim (leaseExpiry : Datetime) (row : Row) : Row :=
  ⟨{ row.record with status := .inFlight }, some leaseExpiry⟩

/-- `status = 'in_flight' AND lease_expiry < :now`. -/
def Row.stale (now : Datetime) (row : Row) : Bool :=
  row.record.status = .inFlight && row.leaseExpiry.any fun e => decide (e < now)

def Row.reclaim (row : Row) : Row := ⟨{ row.record with status := .pending }, none⟩

def Row.markSent (a : AttemptRecord) (row : Row) : Row :=
  ⟨{ row.record with status := .sent, attempts := a.attempt }, none⟩

def Row.scheduleRetry (fireAt : Datetime) (a : AttemptRecord) (row : Row) : Row :=
  ⟨{ row.record with status := .failedRetry, fireAt := fireAt, attempts := a.attempt }, none⟩

def Row.markDead (a : AttemptRecord) (row : Row) : Row :=
  ⟨{ row.record with status := .deadLettered, attempts := a.attempt }, none⟩

def Row.bumpAttempt (a : AttemptRecord) (row : Row) : Row :=
  { row with record := { row.record with attempts := a.attempt } }

/-- The `SET` of the statement a completion runs. -/
def Row.settle (c : Completion) (a : AttemptRecord) : Row → Row :=
  match c with
  | .sent => Row.markSent a
  | .retry t => Row.scheduleRetry t a
  | .dead => Row.markDead a
  | .append => Row.bumpAttempt a

theorem claim_deliveryId (e : Datetime) (row : Row) : (row.claim e).deliveryId = row.deliveryId :=
  rfl

theorem reclaim_deliveryId (row : Row) : row.reclaim.deliveryId = row.deliveryId := rfl

theorem settle_deliveryId (c : Completion) (a : AttemptRecord) (row : Row) :
    (row.settle c a).deliveryId = row.deliveryId := by
  cases c <;> rfl

/-! ## The store -/

/-- The two tables. An attempt row has no column for the response body. -/
structure PgWebhookDeliveryStore where
  deliveries : Table Row.deliveryId
  attempts : List (DeliveryId × AttemptRecord)

def empty : PgWebhookDeliveryStore := ⟨.empty, []⟩

/-- The columns of a row take the values of the record. -/
def recordFits (r : DeliveryRecord) : Bool :=
  [r.deliveryId, r.subscriptionId, r.ownerId, r.eventName, r.eventId, r.schemaVersion,
    r.targetUrl, r.resolvedIp, r.profile].all fitsText &&
  [r.tenantId, r.redeliveryOf, r.secretVersion].all (·.all fitsText) && fitsInt r.attempts

/-- The rows after the `INSERT` of an enqueue. -/
def insertRows (s : PgWebhookDeliveryStore) (rs : List DeliveryRecord) :
    PgWebhookDeliveryStore :=
  { s with deliveries := s.deliveries.insertMany (rs.map Row.ofRecord) }

def enqueueMany (s : PgWebhookDeliveryStore) (rs : List DeliveryRecord) :
    Option PgWebhookDeliveryStore :=
  if rs.all recordFits then some (insertRows s rs) else none

/-- The rows the `SELECT` of a claim chooses from. -/
def claimableRows (s : PgWebhookDeliveryStore) (now : Datetime) : List Row :=
  s.deliveries.rows.filter (Row.claimable now)

/-- `ids` is the first `batchSize` of the claimable rows in some order by `fire_at`. -/
def validPick (s : PgWebhookDeliveryStore) (now : Datetime) (batchSize : Nat)
    (ids : List DeliveryId) : Bool :=
  decide ids.Nodup && decide (ids.length = min batchSize (claimableRows s now).length) &&
    (ids.all fun id => decide (id ∈ (claimableRows s now).map Row.deliveryId)) &&
    (claimableRows s now).all fun row => (claimableRows s now).all fun row' =>
      decide (row.deliveryId ∈ ids → row'.deliveryId ∉ ids →
        row.record.fireAt ≤ row'.record.fireAt)

def claimBatch (s : PgWebhookDeliveryStore) (now : Datetime) (leaseTtlS batchSize : Nat)
    (ids : List DeliveryId) : Option (List DeliveryRecord × PgWebhookDeliveryStore) :=
  if fitsBigint batchSize ∧ validPick s now batchSize ids then
    let deliveries := s.deliveries.update (fun row => decide (row.deliveryId ∈ ids))
      (Row.claim (now + leaseTtlS)) (claim_deliveryId _)
    some (ids.filterMap fun id => (deliveries.find? id).map Row.record,
      { s with deliveries := deliveries })
  else none

def reclaimStale (s : PgWebhookDeliveryStore) (now : Datetime) : Nat × PgWebhookDeliveryStore :=
  ((s.deliveries.rows.filter (Row.stale now)).length,
    { s with deliveries := s.deliveries.update (Row.stale now) Row.reclaim reclaim_deliveryId })

/-- The columns of an attempt row take the values of the attempt. -/
def attemptFits (id : DeliveryId) (a : AttemptRecord) : Bool :=
  fitsText id && a.error.all fitsText && fitsText a.responseSnippet && fitsInt a.attempt &&
    a.httpCode.all fitsInt && fitsInt a.durationMs

/-- The tables after `attempt_repo.append` and the statement of the delivery repo. -/
def report (s : PgWebhookDeliveryStore) (id : DeliveryId) (c : Completion) (a : AttemptRecord) :
    PgWebhookDeliveryStore where
  deliveries := s.deliveries.modify id (Row.settle c a) (settle_deliveryId c a)
  attempts := s.attempts ++ [(id, { a with responseBody := [], responseTruncated := false })]

def complete (s : PgWebhookDeliveryStore) (id : DeliveryId) (c : Completion) (a : AttemptRecord) :
    Option PgWebhookDeliveryStore :=
  if attemptFits id a then some (report s id c a) else none

def get (s : PgWebhookDeliveryStore) (id : DeliveryId) : Option DeliveryRecord :=
  (s.deliveries.find? id).map Row.record

/-! ## The abstract model -/

def pgStore : DeliveryStore where
  State := PgWebhookDeliveryStore
  empty := empty
  enqueueMany := enqueueMany
  claimBatch := claimBatch
  reclaimStale := reclaimStale
  complete := complete
  get := get

def counter : Counter := fun _ _ n => n

theorem counter_counts : Counter.Counts counter fun _ => true where
  assigned _ _ _ _ := rfl
  kept _ _ _ h := by cases h

def toJob (row : Row) : Job :=
  ⟨row.record.status, row.record.attempts, row.leaseExpiry, core row.record⟩

def view (s : PgWebhookDeliveryStore) (id : DeliveryId) : Option Job :=
  (s.deliveries.find? id).map toJob

theorem toJob_settle (c : Completion) (a : AttemptRecord) (row : Row) :
    toJob (row.settle c a) = c.settle counter a.attempt (toJob row) := by
  cases c <;> rfl

theorem eq_of_enqueueMany {s s' : PgWebhookDeliveryStore} {rs : List DeliveryRecord}
    (h : enqueueMany s rs = some s') : s' = insertRows s rs :=
  (Option.some_inj.mp (Option.ite_none_right_eq_some.mp h).2).symm

theorem eq_of_complete {s s' : PgWebhookDeliveryStore} {id : DeliveryId} {c : Completion}
    {a : AttemptRecord} (h : complete s id c a = some s') : s' = report s id c a :=
  (Option.some_inj.mp (Option.ite_none_right_eq_some.mp h).2).symm

theorem view_insertRows (s : PgWebhookDeliveryStore) (rs : List DeliveryRecord) (id : DeliveryId) :
    view (insertRows s rs) id = (view s id).or
      ((rs.find? fun r => r.deliveryId = id).map fun r => toJob (Row.ofRecord r)) := by
  have hkey : ((fun row : Row => decide (row.deliveryId = id)) ∘ Row.ofRecord) =
      fun r => decide (r.deliveryId = id) := rfl
  rw [view, insertRows, Table.find?_insertMany, List.find?_map, hkey, Option.map_or,
    Option.map_map]
  rfl

theorem row_of_validPick {s : PgWebhookDeliveryStore} {now : Datetime} {n : Nat}
    {ids : List DeliveryId} (h : validPick s now n ids = true) {id : DeliveryId} (hid : id ∈ ids) :
    ∃ row, s.deliveries.find? id = some row ∧ row.record.status.claimable = true := by
  simp only [validPick, Bool.and_eq_true, List.all_eq_true, decide_eq_true_eq] at h
  obtain ⟨row, hrow, rfl⟩ := List.mem_map.mp (h.1.2 id hid)
  obtain ⟨hrow, hclaim⟩ := List.mem_filter.mp hrow
  simp only [Row.claimable, Bool.and_eq_true] at hclaim
  exact ⟨row, Table.find?_of_mem hrow, hclaim.1⟩

theorem nodup_of_validPick {s : PgWebhookDeliveryStore} {now : Datetime} {n : Nat}
    {ids : List DeliveryId} (h : validPick s now n ids = true) : ids.Nodup := by
  simp only [validPick, Bool.and_eq_true, decide_eq_true_eq] at h
  exact h.1.1.1

/-- A claim returns the picked rows, as the update leaves them. -/
theorem mem_claimBatch {s s' : PgWebhookDeliveryStore} {now : Datetime} {ttl n : Nat}
    {ids : List DeliveryId} {rs : List DeliveryRecord}
    (h : claimBatch s now ttl n ids = some (rs, s')) :
    rs.map (·.deliveryId) = ids ∧ ids.Nodup ∧
    (∀ r ∈ rs, ∃ row, s.deliveries.find? r.deliveryId = some row ∧
      row.record.status.claimable = true ∧ r = (row.claim (now + ttl)).record ∧
      s'.deliveries.find? r.deliveryId = some (row.claim (now + ttl))) ∧
    ∀ id ∉ ids, s'.deliveries.find? id = s.deliveries.find? id := by
  obtain ⟨⟨-, hpick⟩, hs'⟩ := Option.ite_none_right_eq_some.mp h
  simp only [Option.some.injEq, Prod.mk.injEq] at hs'
  obtain ⟨hrs, rfl⟩ := hs'
  have hfind := Table.find?_update_key s.deliveries (fun k => decide (k ∈ ids))
    (Row.claim (now + ttl)) (claim_deliveryId _)
  have hin : ∀ id ∈ ids, ∃ row, s.deliveries.find? id = some row ∧
      row.record.status.claimable = true ∧ row.deliveryId = id ∧
      (s.deliveries.update (fun row => decide (row.deliveryId ∈ ids)) (Row.claim (now + ttl))
        (claim_deliveryId _)).find? id = some (row.claim (now + ttl)) := by
    intro id hid
    obtain ⟨row, hrow, hclaim⟩ := row_of_validPick hpick hid
    refine ⟨row, hrow, hclaim, Table.find?_key hrow, ?_⟩
    rw [hfind, if_pos (decide_eq_true hid), hrow, Option.map_some]
  refine ⟨?_, nodup_of_validPick hpick, ?_, ?_⟩
  · rw [← hrs, List.map_filterMap]
    calc ids.filterMap _ = ids.filterMap some := by
          apply List.filterMap_congr
          intro id hid
          obtain ⟨row, -, -, hkey, hrow⟩ := hin id hid
          rw [hrow, ← hkey]
          rfl
      _ = ids := List.filterMap_some
  · intro r hr
    rw [← hrs] at hr
    obtain ⟨id, hid, hsome⟩ := List.mem_filterMap.mp hr
    obtain ⟨row, hrow, hclaim, rfl, hrow'⟩ := hin id hid
    rw [hrow', Option.map_some] at hsome
    cases hsome
    exact ⟨row, hrow, hclaim, rfl, hrow'⟩
  · intro id hid
    rw [hfind, if_neg (by simpa only [decide_eq_true_eq] using hid)]

theorem view_reclaim (s : PgWebhookDeliveryStore) (now : Datetime) (id : DeliveryId) :
    view (reclaimStale s now).2 id = view s id ∨
    ∃ j e st, view s id = some j ∧ j.status = .inFlight ∧ j.lease = some e ∧ e < now ∧
      st.claimable = true ∧
      view (reclaimStale s now).2 id = some { j with status := st, lease := none } := by
  simp only [view, reclaimStale, Table.find?_update]
  cases s.deliveries.find? id with
  | none => exact Or.inl rfl
  | some row =>
    by_cases hs : row.stale now = true
    · have hstale := hs
      simp only [Row.stale, Bool.and_eq_true, decide_eq_true_eq, Option.any_eq_true] at hstale
      obtain ⟨hfl, e, he, hlt⟩ := hstale
      refine Or.inr ⟨_, e, .pending, rfl, hfl, he, hlt, rfl, ?_⟩
      rw [Option.map_some, Option.map_some, if_pos hs]
      rfl
    · left
      rw [Option.map_some, if_neg hs]

theorem view_report (s : PgWebhookDeliveryStore) (id id' : DeliveryId) (c : Completion)
    (a : AttemptRecord) : view (report s id c a) id' =
      if id' = id then (view s id').map (c.settle counter a.attempt) else view s id' := by
  simp only [view, report, Table.find?_modify]
  split
  · rw [Option.map_map, Option.map_map]
    congr 1
    exact funext fun row => toJob_settle c a row
  · rfl

/-- The Postgres store obeys the laws of a queue with one row per delivery. -/
def pgQueue : RowQueue where
  toDeliveryStore := pgStore
  view := view
  expired e now := e < now
  counter := counter
  counter_retry _ _ := rfl
  view_empty id := rfl
  view_enqueue_other s rs s' id he h := by
    rw [eq_of_enqueueMany he]
    exact (view_insertRows s rs id).trans (or_find?_other _ _ h)
  view_enqueue_new s rs s' r he hn hr hp hv := by
    rw [eq_of_enqueueMany he]
    exact ⟨core r, ⟨rfl, rfl, rfl, rfl, rfl, rfl, rfl⟩,
      (view_insertRows s rs _).trans (or_find?_new _ hn hr hv)⟩
  view_claim s now ttl n pick rs s' h := by
    obtain ⟨hids, hnodup, hin, hout⟩ := mem_claimBatch h
    refine ⟨hids ▸ hnodup, ?_, ?_⟩
    · intro r hr
      obtain ⟨row, hrow, hclaim, rfl, hrow'⟩ := hin r hr
      exact ⟨toJob row, now + ttl, congrArg (Option.map toJob) hrow, hclaim, rfl, rfl,
        congrArg (Option.map toJob) hrow'⟩
    · intro id hid
      have hnot : id ∉ pick := by
        intro hm
        rw [← hids] at hm
        obtain ⟨r, hr, he⟩ := List.mem_map.mp hm
        exact hid r hr he
      exact congrArg (Option.map toJob) (hout id hnot)
  view_reclaim := view_reclaim
  view_complete s id c a j s' h hs' := by
    rw [eq_of_complete hs']
    exact (view_report s id id c a).trans (by rw [if_pos rfl, h, Option.map_some])
  view_complete_other s id c a s' id' h hne := by
    rw [eq_of_complete h]
    exact (view_report s id id' c a).trans (if_neg hne)
  ofRecord r := toJob (Row.ofRecord r)
  view_enqueue s rs s' id he := by
    rw [eq_of_enqueueMany he]
    exact view_insertRows s rs id
  assigns := fun _ => true
  counts := counter_counts
  get_view s id := by
    change ((s.deliveries.find? id).map _).map _ = ((s.deliveries.find? id).map _).map _
    rw [Option.map_map, Option.map_map]
    rfl

end WebhookEngine.Stores.Pg
