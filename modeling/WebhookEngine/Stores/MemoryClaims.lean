import WebhookEngine.Lib.Sorting
import WebhookEngine.Stores.Stranded

/-!
# What a claim takes

`MemoryWebhookDeliveryStore.claim_batch` after any calls: the due records are handed out in the
order of their `fire_at`, those of one `fire_at` in the order in which they were enqueued.

* `insertedBy_after`: the dictionary of records is in enqueue order;
* `due_claimed`: what is due after a claim;
* `claims_in_order`: what a claim returns and writes, and what the next one returns.
-/

namespace WebhookEngine.Stores.MemoryClaims

open Lib Lib.Sorting WebhookEngine.Stores.Queue WebhookEngine.Stores.Memory
  WebhookEngine.Stores.Stranded

/-! ## Any calls -/

/-- The state a call leaves, whatever the status of the records that are enqueued. -/
def apply (s : MemoryWebhookDeliveryStore) : Call → MemoryWebhookDeliveryStore
  | .enqueueMany rs => enqueueMany s rs
  | .claimBatch now ttl n => (claimBatch s now ttl n).2
  | .reclaimStale now => (reclaimStale s now).2
  | .complete id c a => completion s id c a

def after (calls : List Call) : MemoryWebhookDeliveryStore := calls.foldl apply Memory.empty

/-- The ids that were enqueued, in this order; an id may be enqueued again. -/
def enqueuedIds (calls : List Call) : List DeliveryId :=
  calls.flatMap fun
    | .enqueueMany rs => rs.map (·.deliveryId)
    | _ => []

theorem keys_completion (s : MemoryWebhookDeliveryStore) (id : DeliveryId) (c : Completion)
    (a : AttemptRecord) : (completion s id c a).records.rows.map (·.deliveryId) =
      s.records.rows.map (·.deliveryId) := by
  unfold completion
  split
  · rfl
  · rfl
  · exact Table.keys_update _ _ _ (rewritten_deliveryId _)
  next hr _ =>
    rw [complete, hr, Option.isSome_some, if_pos rfl, Option.getD_some]
    exact Table.keys_update _ _ _ (rewritten_deliveryId _)

theorem insertedBy_apply {s : MemoryWebhookDeliveryStore} {log : List DeliveryId}
    (h : s.records.InsertedBy log) (call : Call) :
    (apply s call).records.InsertedBy (log ++ enqueuedIds [call]) := by
  cases call with
  | enqueueMany rs =>
    rw [enqueuedIds, List.flatMap_singleton]
    exact h.insertMany rs
  | claimBatch now ttl n =>
    rw [enqueuedIds, List.flatMap_singleton, List.append_nil]
    exact h.congr (Table.keys_update _ _ _ (setStatus_deliveryId _))
  | reclaimStale now =>
    rw [enqueuedIds, List.flatMap_singleton, List.append_nil]
    exact h.congr (Table.keys_update _ _ _ (setStatus_deliveryId _))
  | complete id c a =>
    rw [enqueuedIds, List.flatMap_singleton, List.append_nil]
    exact h.congr (keys_completion s id c a)

theorem insertedBy_foldl {s : MemoryWebhookDeliveryStore} {log : List DeliveryId}
    (h : s.records.InsertedBy log) (calls : List Call) :
    (calls.foldl apply s).records.InsertedBy (log ++ enqueuedIds calls) := by
  induction calls generalizing s log with
  | nil =>
    rw [enqueuedIds, List.flatMap_nil, List.append_nil]
    exact h
  | cons call calls ih =>
    have hrest := ih (insertedBy_apply h call)
    rwa [List.append_assoc, enqueuedIds, enqueuedIds, ← List.flatMap_append,
      List.singleton_append] at hrest

theorem insertedBy_after (calls : List Call) :
    (after calls).records.InsertedBy (enqueuedIds calls) := by
  have hempty : Memory.empty.records.InsertedBy [] := Table.insertedBy_empty
  exact insertedBy_foldl hempty calls

/-! ## The due records -/

/-- PENDING or FAILED_RETRY, and `fire_at` has come. -/
def isDue (now : Datetime) (r : DeliveryRecord) : Bool :=
  r.status.claimable && decide (r.fireAt ≤ now)

def due (s : MemoryWebhookDeliveryStore) (now : Datetime) : List DeliveryRecord :=
  s.records.rows.filter (isDue now)

/-- The record was enqueued first. -/
def Earlier (log : List DeliveryId) (r r' : DeliveryRecord) : Prop :=
  log.idxOf r.deliveryId < log.idxOf r'.deliveryId

/-- By `fire_at`, ties in enqueue order. -/
abbrev Before (log : List DeliveryId) : DeliveryRecord → DeliveryRecord → Prop :=
  ByKey DeliveryRecord.fireAt (Earlier log)

/-- `sorted(.., key=lambda r: r.fire_at)` of the due records. -/
def queued (s : MemoryWebhookDeliveryStore) (now : Datetime) : List DeliveryRecord :=
  (due s now).insertionSort fun r r' => r.fireAt ≤ r'.fireAt

theorem ready_eq_take (s : MemoryWebhookDeliveryStore) (now : Datetime) (n : Nat) :
    ready s now n = (queued s now).take n := rfl

theorem queued_perm (s : MemoryWebhookDeliveryStore) (now : Datetime) :
    (queued s now).Perm (due s now) := List.perm_insertionSort ..

theorem earlier_asymm {log : List DeliveryId} (r r' : DeliveryRecord) (h : Earlier log r r') :
    ¬ Earlier log r' r := Nat.lt_asymm h

theorem pairwise_queued {s : MemoryWebhookDeliveryStore} {log : List DeliveryId}
    (h : s.records.InsertedBy log) (now : Datetime) :
    (queued s now).Pairwise (Before log) := by
  have hkeys : (s.records.rows.map DeliveryRecord.deliveryId).Pairwise
      (fun k k' => log.idxOf k < log.idxOf k') := h.ordered
  have hrows : s.records.rows.Pairwise (Earlier log) := by
    rw [List.pairwise_map] at hkeys
    exact hkeys
  exact pairwise_insertionSort_byKey (hrows.filter _)

theorem nodup_queued (s : MemoryWebhookDeliveryStore) (now : Datetime) :
    ((queued s now).map (·.deliveryId)).Nodup :=
  ((queued_perm s now).map _).nodup_iff.mpr (s.records.nodup_keys_filter _)

/-! ## One claim -/

/-- The first `n` of the due records, in the order of `Before`. -/
structure Handed (log : List DeliveryId) (waiting : List DeliveryRecord) (n : Nat)
    (batch : List DeliveryRecord) : Prop where
  count : batch.length = min n waiting.length
  distinct : (batch.map (·.deliveryId)).Nodup
  due : ∀ r ∈ batch, r ∈ waiting
  ordered : batch.Pairwise (Before log)
  foremost : ∀ r ∈ batch, ∀ r' ∈ waiting, r' ∉ batch → Before log r r'
  earliest : ∀ r ∈ batch, ∀ r' ∈ waiting, r' ∉ batch → r.fireAt ≤ r'.fireAt

/-- The batch is in flight and leased, and nothing else is different. -/
structure Leased (s : MemoryWebhookDeliveryStore) (expiry : Datetime) (batch : List DeliveryRecord)
    (s' : MemoryWebhookDeliveryStore) : Prop where
  records : s'.records.rows = s.records.rows.map fun r =>
    if r.deliveryId ∈ batch.map (·.deliveryId) then { r with status := .inFlight } else r
  leases : ∀ id, s'.leaseExpiry.find? id =
    if id ∈ batch.map (·.deliveryId) then some (id, expiry) else s.leaseExpiry.find? id
  attempts : s'.attempts = s.attempts

theorem handed_claimBatch {s : MemoryWebhookDeliveryStore} {log : List DeliveryId}
    (h : s.records.InsertedBy log) (now : Datetime) (ttl n : Nat) :
    Handed log (due s now) n (claimBatch s now ttl n).1 := by
  have hsplit := pairwise_queued h now
  rw [← List.take_append_drop n (queued s now), List.pairwise_append] at hsplit
  obtain ⟨hordered, -, hbefore⟩ := hsplit
  have hforemost : ∀ r ∈ (queued s now).take n, ∀ r' ∈ due s now, r' ∉ (queued s now).take n →
      Before log r r' := by
    intro r hr r' hr' hnot
    have hmem : r' ∈ (queued s now).take n ++ (queued s now).drop n := by
      rw [List.take_append_drop]
      exact (queued_perm s now).mem_iff.mpr hr'
    exact hbefore r hr r' ((List.mem_append.mp hmem).resolve_left hnot)
  exact
    { count := by
        rw [← (queued_perm s now).length_eq]
        exact List.length_take
      distinct := nodup_ready s now n
      due := fun r hr => (queued_perm s now).mem_iff.mp (List.mem_of_mem_take hr)
      ordered := hordered
      foremost := hforemost
      earliest := fun r hr r' hr' hnot => (hforemost r hr r' hr' hnot).le }

theorem leased_claimBatch (s : MemoryWebhookDeliveryStore) (now : Datetime) (ttl n : Nat) :
    Leased s (now + ttl) (claimBatch s now ttl n).1 (claimBatch s now ttl n).2 where
  records := by
    apply List.map_congr_left
    intro r _
    simp only [decide_eq_true_eq]
    rfl
  leases := find?_leases_claim s now ttl n
  attempts := rfl

/-! ## The next claim -/

theorem due_claimed (s : MemoryWebhookDeliveryStore) (now : Datetime) (ttl n : Nat) :
    due (claimBatch s now ttl n).2 now =
      (due s now).filter fun r => r.deliveryId ∉ (ready s now n).map (·.deliveryId) := by
  have hleft : ∀ r, isDue now (setStatus .inFlight r) = false := fun _ => rfl
  rw [due, claimBatch, Table.filter_update _ _ _ _ _ hleft, due, List.filter_filter]
  simp only [decide_not]

/-- What is left of the queue after a claim. -/
theorem queued_claimed {s : MemoryWebhookDeliveryStore} {log : List DeliveryId}
    (h : s.records.InsertedBy log) (now : Datetime) (ttl n : Nat) :
    queued (claimBatch s now ttl n).2 now = (queued s now).drop n := by
  have hafter : (claimBatch s now ttl n).2.records.InsertedBy log :=
    h.congr (Table.keys_update _ _ _ (setStatus_deliveryId _))
  have hleft := (queued_perm s now).filter
    fun r => decide (r.deliveryId ∉ (ready s now n).map (·.deliveryId))
  rw [← due_claimed s now ttl n, ready_eq_take,
    Table.filter_not_mem_take (nodup_queued s now) n] at hleft
  have hperm := (queued_perm (claimBatch s now ttl n).2 now).trans hleft.symm
  exact eq_of_byKey earlier_asymm hperm (pairwise_queued hafter now)
    ((pairwise_queued h now).sublist (List.drop_sublist ..))

/-- Two claims in a row take two pieces of one sequence, from its start. -/
theorem claims_in_order (calls : List Call) (now : Datetime) (leaseTtlS batchSize : Nat) :
    let s := after calls
    let log := enqueuedIds calls
    let first := claimBatch s now leaseTtlS batchSize
    let second := claimBatch first.2 now leaseTtlS batchSize
    Handed log (due s now) batchSize first.1 ∧
      Leased s (now + leaseTtlS) first.1 first.2 ∧
      ∃ sequence : List DeliveryRecord,
        sequence.Perm (due s now) ∧ sequence.Pairwise (Before log) ∧
        first.1 = sequence.take batchSize ∧
        second.1 = (sequence.drop batchSize).take batchSize := by
  intro s log first second
  have hlog := insertedBy_after calls
  refine ⟨handed_claimBatch hlog now leaseTtlS batchSize,
    leased_claimBatch s now leaseTtlS batchSize, queued s now, queued_perm s now,
    pairwise_queued hlog now, rfl, ?_⟩
  rw [← queued_claimed hlog now leaseTtlS batchSize]
  rfl

end WebhookEngine.Stores.MemoryClaims
