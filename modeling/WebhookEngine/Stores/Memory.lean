import Mathlib.Data.List.Sort
import WebhookEngine.Lib.Table
import WebhookEngine.Stores.Queue

/-!
# The in-memory delivery store

`MemoryWebhookDeliveryStore` of `stores/memory.py`: three dictionaries in one
object, every method under one lock. The dictionaries are tables in insertion
order, so that `sorted` (stable) and the slice after it decide which of several
records with one `fire_at` a claim takes.

* `memoryQueue`: the store is a `RowQueue`. Only a retry counts an attempt.
-/

namespace WebhookEngine.Stores.Memory

open Lib WebhookEngine.Stores.Queue

/-- The object's dictionaries. Only a stored record is ever leased. -/
structure MemoryWebhookDeliveryStore where
  records : Table DeliveryRecord.deliveryId
  attempts : Dict DeliveryId (List AttemptRecord)
  leaseExpiry : Dict DeliveryId Datetime
  leased : ∀ id, (leaseExpiry.find? id).isSome → (records.find? id).isSome

def empty : MemoryWebhookDeliveryStore := ⟨.empty, .empty, .empty, fun _ h => by simp at h⟩

/-! ## The methods -/

/-- `_attempts.setdefault(id, []).append(attempt)`. -/
def logAttempt (log : Dict DeliveryId (List AttemptRecord)) (id : DeliveryId) (a : AttemptRecord) :
    Dict DeliveryId (List AttemptRecord) :=
  log.put (id, ((log.find? id).elim [] (·.2)) ++ [a])

def enqueueMany (s : MemoryWebhookDeliveryStore) (rs : List DeliveryRecord) :
    MemoryWebhookDeliveryStore where
  records := s.records.insertMany rs
  attempts := s.attempts.putMany
    ((rs.filter fun r => (s.records.find? r.deliveryId).isNone).map fun r => (r.deliveryId, []))
  leaseExpiry := s.leaseExpiry
  leased id h := by
    rw [Table.find?_insertMany, Option.isSome_or, s.leased id h, Bool.true_or]

/-- `_records[id] = replace(_records[id], ..)`, then the attempt is logged and the
lease dropped; `none` is the `KeyError` for an unknown id. -/
def complete (s : MemoryWebhookDeliveryStore) (id : DeliveryId) (a : AttemptRecord)
    (f : DeliveryRecord → DeliveryRecord) (hf : ∀ r, (f r).deliveryId = r.deliveryId) :
    Option MemoryWebhookDeliveryStore :=
  if (s.records.find? id).isSome then
    some
      { records := s.records.modify id f hf
        attempts := logAttempt s.attempts id a
        leaseExpiry := s.leaseExpiry.erase id
        leased := fun k h => by
          rw [Table.find?_erase] at h
          rw [Table.find?_modify]
          split at h
          case isTrue => simp at h
          case isFalse hk =>
            rw [if_neg hk]
            exact s.leased k h }
  else none

def setStatus (status : DeliveryStatus) (r : DeliveryRecord) : DeliveryRecord :=
  { r with status := status }

theorem setStatus_deliveryId (status : DeliveryStatus) (r : DeliveryRecord) :
    (setStatus status r).deliveryId = r.deliveryId := rfl

def markSent (s : MemoryWebhookDeliveryStore) (id : DeliveryId) (a : AttemptRecord) :
    Option MemoryWebhookDeliveryStore :=
  complete s id a (setStatus .sent) (setStatus_deliveryId _)

def scheduleRetry (s : MemoryWebhookDeliveryStore) (id : DeliveryId) (fireAt : Datetime)
    (a : AttemptRecord) : Option MemoryWebhookDeliveryStore :=
  complete s id a
    (fun r => { r with status := .failedRetry, fireAt := fireAt, attempts := r.attempts + 1 })
    fun _ => rfl

def markDead (s : MemoryWebhookDeliveryStore) (id : DeliveryId) (a : AttemptRecord) :
    Option MemoryWebhookDeliveryStore :=
  complete s id a (setStatus .deadLettered) (setStatus_deliveryId _)

def appendAttempt (s : MemoryWebhookDeliveryStore) (id : DeliveryId) (a : AttemptRecord) :
    MemoryWebhookDeliveryStore :=
  { s with attempts := logAttempt s.attempts id a }

def get (s : MemoryWebhookDeliveryStore) (id : DeliveryId) : Option DeliveryRecord :=
  s.records.find? id

/-- `sorted(.., key=fire_at)[:batch_size]` over the claimable records that are due. -/
def ready (s : MemoryWebhookDeliveryStore) (now : Datetime) (batchSize : Nat) :
    List DeliveryRecord :=
  ((s.records.rows.filter fun r => r.status.claimable && decide (r.fireAt ≤ now)).insertionSort
    fun r r' => r.fireAt ≤ r'.fireAt).take batchSize

theorem mem_records_of_mem_ready {s : MemoryWebhookDeliveryStore} {now : Datetime} {n : Nat}
    {r : DeliveryRecord} (h : r ∈ ready s now n) :
    r ∈ s.records.rows ∧ r.status.claimable = true := by
  have hsorted := (List.mem_insertionSort _).mp (List.mem_of_mem_take h)
  obtain ⟨hr, hdue⟩ := List.mem_filter.mp hsorted
  exact ⟨hr, (Bool.and_eq_true _ _ ▸ hdue).1⟩

theorem nodup_ready (s : MemoryWebhookDeliveryStore) (now : Datetime) (n : Nat) :
    ((ready s now n).map (·.deliveryId)).Nodup := by
  have hfilter := s.records.nodup_keys_filter
    fun r => r.status.claimable && decide (r.fireAt ≤ now)
  have hsort := ((List.perm_insertionSort (fun r r' : DeliveryRecord => r.fireAt ≤ r'.fireAt)
    _).map DeliveryRecord.deliveryId).nodup_iff.mpr hfilter
  exact hsort.sublist ((List.take_sublist _ _).map _)

def claimBatch (s : MemoryWebhookDeliveryStore) (now : Datetime) (leaseTtlS batchSize : Nat) :
    List DeliveryRecord × MemoryWebhookDeliveryStore :=
  let batch := ready s now batchSize
  (batch,
    { records := s.records.update (fun r => decide (r.deliveryId ∈ batch.map (·.deliveryId)))
        (setStatus .inFlight) (setStatus_deliveryId _)
      attempts := s.attempts
      leaseExpiry := s.leaseExpiry.putMany
        (batch.map fun r => (r.deliveryId, now + leaseTtlS))
      leased := fun k h => by
        rw [Table.find?_update, Option.isSome_map]
        by_cases hk : ∃ r ∈ batch, r.deliveryId = k
        · obtain ⟨r, hr, rfl⟩ := hk
          rw [Table.find?_of_mem (mem_records_of_mem_ready hr).1, Option.isSome_some]
        · rw [Table.find?_putMany_of_not_mem] at h
          · exact s.leased k h
          · intro e he hek
            obtain ⟨r, hr, rfl⟩ := List.mem_map.mp he
            exact hk ⟨r, hr, hek⟩ })

theorem find?_records_claim (s : MemoryWebhookDeliveryStore) (now : Datetime) (ttl n : Nat)
    (id : DeliveryId) : (claimBatch s now ttl n).2.records.find? id =
      if id ∈ (ready s now n).map (·.deliveryId) then
        (s.records.find? id).map (setStatus .inFlight)
      else s.records.find? id := by
  have hupdate := Table.find?_update_key s.records
    (fun k => decide (k ∈ (ready s now n).map (·.deliveryId))) (setStatus .inFlight)
    (setStatus_deliveryId _) id
  simp only [decide_eq_true_eq] at hupdate
  exact hupdate

theorem find?_leases_claim (s : MemoryWebhookDeliveryStore) (now : Datetime) (ttl n : Nat)
    (id : DeliveryId) : (claimBatch s now ttl n).2.leaseExpiry.find? id =
      if id ∈ (ready s now n).map (·.deliveryId) then some (id, now + (ttl : ℚ))
      else s.leaseExpiry.find? id := by
  have hkeys : ((ready s now n).map fun r => (r.deliveryId, now + (ttl : ℚ))).map Prod.fst =
      (ready s now n).map (·.deliveryId) := by
    rw [List.map_map]
    rfl
  split
  case isTrue hid =>
    obtain ⟨r, hr, rfl⟩ := List.mem_map.mp hid
    exact Table.find?_putMany_of_mem s.leaseExpiry _ (hkeys ▸ nodup_ready s now n)
      (List.mem_map_of_mem hr)
  case isFalse hid =>
    refine Table.find?_putMany_of_not_mem s.leaseExpiry _ _ fun e he hk => hid ?_
    have hmem : e.1 ∈ (ready s now n).map (·.deliveryId) := hkeys ▸ List.mem_map_of_mem he
    rwa [hk] at hmem

/-- The leased records whose lease ends before `now`. -/
def stale (s : MemoryWebhookDeliveryStore) (now : Datetime) (id : DeliveryId) : Bool :=
  (s.leaseExpiry.find? id).any fun e =>
    decide (e.2 < now) && (s.records.find? id).any (·.status = .inFlight)

def reclaimStale (s : MemoryWebhookDeliveryStore) (now : Datetime) :
    Nat × MemoryWebhookDeliveryStore :=
  ((s.leaseExpiry.rows.filter fun e => stale s now e.1).length,
    { records := s.records.update (fun r => stale s now r.deliveryId) (setStatus .pending)
        (setStatus_deliveryId _)
      attempts := s.attempts
      leaseExpiry := s.leaseExpiry.filter fun e => !stale s now e.1
      leased := fun k h => by
        rw [Table.find?_update, Option.isSome_map]
        rw [Table.find?_filter] at h
        exact s.leased k (Option.isSome_of_isSome_filter _ _ h) })

/-! ## The abstract model -/

def memoryStore : DeliveryStore where
  State := MemoryWebhookDeliveryStore
  empty := empty
  enqueueMany s rs := some (enqueueMany s rs)
  claimBatch s now ttl n _ := some (claimBatch s now ttl n)
  reclaimStale := reclaimStale
  complete s id c a :=
    match c with
    | .sent => markSent s id a
    | .retry t => scheduleRetry s id t a
    | .dead => markDead s id a
    | .append => some (appendAttempt s id a)
  get := get

def counter : Counter
  | .retry _, old, _ => old + 1
  | _, old, _ => old

theorem counter_counts : Counter.Counts counter fun _ => false where
  assigned _ _ _ h := by cases h
  kept c old n _ := by cases c <;> simp [counter]

def toJob (lease : Option Datetime) (r : DeliveryRecord) : Job :=
  ⟨r.status, r.attempts, lease, core r⟩

def view (s : MemoryWebhookDeliveryStore) (id : DeliveryId) : Option Job :=
  (s.records.find? id).map (toJob ((s.leaseExpiry.find? id).map (·.2)))

theorem lease_eq_none {s : MemoryWebhookDeliveryStore} {id : DeliveryId}
    (h : s.records.find? id = none) : s.leaseExpiry.find? id = none := by
  by_contra hlease
  have hstored := s.leased id (Option.isSome_iff_ne_none.mpr hlease)
  rw [h] at hstored
  cases hstored

theorem view_enqueue (s : MemoryWebhookDeliveryStore) (rs : List DeliveryRecord)
    (id : DeliveryId) : view (enqueueMany s rs) id =
      (view s id).or ((rs.find? fun r => r.deliveryId = id).map (toJob none)) := by
  simp only [view, enqueueMany, Table.find?_insertMany]
  cases hr : s.records.find? id with
  | some r => simp
  | none => simp [lease_eq_none hr]

theorem view_claim (s : MemoryWebhookDeliveryStore) (now : Datetime) (ttl n : Nat) :
    (∀ r ∈ (claimBatch s now ttl n).1, ∃ j e, view s r.deliveryId = some j ∧
      j.status.claimable = true ∧ r.attempts = j.attempts ∧ core r = j.core ∧
      view (claimBatch s now ttl n).2 r.deliveryId =
        some { j with status := .inFlight, lease := some e }) ∧
    ∀ id, (∀ r ∈ (claimBatch s now ttl n).1, r.deliveryId ≠ id) →
      view (claimBatch s now ttl n).2 id = view s id := by
  constructor
  · intro r hr
    obtain ⟨hrow, hclaim⟩ := mem_records_of_mem_ready hr
    have hfind := Table.find?_of_mem hrow
    have hm : r.deliveryId ∈ (ready s now n).map (·.deliveryId) := List.mem_map_of_mem hr
    refine ⟨toJob ((s.leaseExpiry.find? r.deliveryId).map (·.2)) r, now + ttl, ?_, hclaim, rfl,
      rfl, ?_⟩
    · rw [view, hfind, Option.map_some]
    · rw [view, find?_records_claim, find?_leases_claim, if_pos hm, if_pos hm, hfind]
      rfl
  · intro id hid
    have hm : id ∉ (ready s now n).map (·.deliveryId) := by
      intro h
      obtain ⟨r, hr, he⟩ := List.mem_map.mp h
      exact hid r hr he
    rw [view, find?_records_claim, find?_leases_claim, if_neg hm, if_neg hm, view]

theorem view_reclaim (s : MemoryWebhookDeliveryStore) (now : Datetime) (id : DeliveryId) :
    view (reclaimStale s now).2 id = view s id ∨
    ∃ j e st, view s id = some j ∧ j.status = .inFlight ∧ j.lease = some e ∧ e < now ∧
      st.claimable = true ∧
      view (reclaimStale s now).2 id = some { j with status := st, lease := none } := by
  simp only [view, reclaimStale, Table.find?_update, Table.find?_filter]
  cases hf : s.records.find? id with
  | none => exact Or.inl rfl
  | some r =>
    obtain rfl := Table.find?_key hf
    cases hl : s.leaseExpiry.find? r.deliveryId with
    | none =>
      left
      simp [stale, hl]
    | some e =>
      obtain ⟨k, t⟩ := e
      obtain rfl : k = r.deliveryId := Table.find?_key hl
      by_cases hs : stale s now r.deliveryId = true
      · have hdue := hs
        simp only [stale, hl, hf, Option.any_some, Bool.and_eq_true, decide_eq_true_eq] at hdue
        refine Or.inr ⟨_, t, .pending, rfl, hdue.2, rfl, hdue.1, rfl, ?_⟩
        simp [hs, Option.filter_some]
        rfl
      · left
        simp [hs, Option.filter_some]

theorem complete_of_find? {s s' : MemoryWebhookDeliveryStore} {id : DeliveryId}
    {r : DeliveryRecord} (hr : s.records.find? id = some r) {a : AttemptRecord}
    {f : DeliveryRecord → DeliveryRecord} {hf : ∀ r, (f r).deliveryId = r.deliveryId}
    (h : complete s id a f hf = some s') :
    view s' id = some (toJob none (f r)) := by
  obtain ⟨-, hs'⟩ := Option.ite_none_right_eq_some.mp h
  cases hs'
  simp [view, Table.find?_modify, Table.find?_erase, hr]

theorem complete_other {s s' : MemoryWebhookDeliveryStore} {id id' : DeliveryId}
    {a : AttemptRecord} {f : DeliveryRecord → DeliveryRecord}
    {hf : ∀ r, (f r).deliveryId = r.deliveryId} (h : complete s id a f hf = some s')
    (hne : id' ≠ id) : view s' id' = view s id' := by
  obtain ⟨-, hs'⟩ := Option.ite_none_right_eq_some.mp h
  cases hs'
  simp only [view, Table.find?_modify, Table.find?_erase, if_neg hne]

/-- The in-memory store obeys the laws of a queue with one row per delivery. -/
def memoryQueue : RowQueue where
  toDeliveryStore := memoryStore
  view := view
  expired e now := e < now
  counter := counter
  counter_retry _ _ := rfl
  view_empty id := rfl
  view_enqueue_other s rs s' id he h := by
    cases he
    exact (view_enqueue s rs id).trans (or_find?_other _ _ h)
  view_enqueue_new s rs s' r he hn hr hp hv := by
    cases he
    exact ⟨core r, ⟨rfl, rfl, rfl, rfl, rfl, rfl, rfl⟩,
      ((view_enqueue s rs _).trans (or_find?_new _ hn hr hv)).trans (by rw [toJob, hp])⟩
  view_claim s now ttl n pick rs s' h := by
    cases h
    exact ⟨nodup_ready s now n, view_claim s now ttl n⟩
  view_reclaim := view_reclaim
  view_complete s id c a j s' h hs' := by
    obtain ⟨r, hr, rfl⟩ := Option.map_eq_some_iff.mp h
    cases c with
    | sent => exact complete_of_find? hr hs'
    | retry t => exact complete_of_find? hr hs'
    | dead => exact complete_of_find? hr hs'
    | append => cases hs'; exact h
  view_complete_other s id c a s' id' h hne := by
    cases c with
    | sent => exact complete_other h hne
    | retry t => exact complete_other h hne
    | dead => exact complete_other h hne
    | append => cases h; rfl
  ofRecord := toJob none
  view_enqueue s rs s' id he := by
    cases he
    exact view_enqueue s rs id
  assigns := fun _ => false
  counts := counter_counts
  get_view s id := by
    change (s.records.find? id).map _ = ((s.records.find? id).map _).map _
    rw [Option.map_map]
    rfl

end WebhookEngine.Stores.Memory
