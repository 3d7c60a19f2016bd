import WebhookEngine.Lib.Table
import WebhookEngine.Types

/-!
# The delivery store as a lease queue

`DeliveryStore` is the interface of `WebhookDeliveryStoreProtocol`: the state
and its operations. `none` is a call that raises and has no effect. A backend may
leave a choice open (which of several rows with one `fire_at` a claim takes); it is
the last argument of `claimBatch`, and `none` there means that the backend cannot
make that choice.

`LeaseQueue` is the abstract model: to each delivery belongs a `Job` (status,
attempts counter, lease, the columns nothing rewrites), and every operation is
described by what it does to the job of one id. The laws are fields, so a
`LeaseQueue` is a store that is known to obey them. `RowQueue` adds what the
stores that keep one row per delivery promise besides: a repeated enqueue is a
no-op, and `get` shows the job.

What the backends do differently when a worker reports an attempt is the
attempts counter alone, the field `counter`.
-/

namespace WebhookEngine.Stores.Queue

open Lib

/-- The four calls with which a worker reports on a delivery it was handed. -/
inductive Completion where
  | sent
  | retry (fireAt : Datetime)
  | dead
  | append
  deriving DecidableEq, Repr

/-- The columns of a record that no operation rewrites. -/
def core (r : DeliveryRecord) : DeliveryRecord :=
  { r with status := .pending, attempts := 0, fireAt := 0 }

/-- What every store keeps of a record it is given. A store may have no empty text for
an optional column. -/
structure Keeps (r c : DeliveryRecord) : Prop where
  deliveryId : c.deliveryId = r.deliveryId
  subscriptionId : c.subscriptionId = r.subscriptionId
  ownerId : c.ownerId = r.ownerId
  eventName : c.eventName = r.eventName
  eventId : c.eventId = r.eventId
  tenantId : c.tenantId.getD "" = r.tenantId.getD ""
  dataJson : c.dataJson = r.dataJson

/-- One delivery as the queue sees it. -/
structure Job where
  status : DeliveryStatus
  attempts : Nat
  lease : Option Datetime
  core : DeliveryRecord
  deriving DecidableEq

/-- The attempts counter after a completion: from the completion, the stored
counter and the reported attempt number. -/
abbrev Counter := Completion → Nat → Nat → Nat

/-- The completions in `assigns` set the counter to the reported attempt number,
the others never lower it. -/
structure Counter.Counts (counter : Counter) (assigns : Completion → Bool) : Prop where
  assigned : ∀ c old n, assigns c = true → counter c old n = n
  kept : ∀ c old n, assigns c = false → old ≤ counter c old n

theorem Counter.Counts.le_iff {counter : Counter} {assigns : Completion → Bool}
    (h : counter.Counts assigns) (c : Completion) (old n : Nat) :
    old ≤ counter c old n ↔ (assigns c = true → old ≤ n) := by
  cases ha : assigns c with
  | true => simp [h.assigned c old n ha]
  | false => simp [h.kept c old n ha]

def Completion.settle (counter : Counter) (c : Completion) (n : Nat) (j : Job) : Job :=
  match c with
  | .sent => { j with status := .sent, attempts := counter .sent j.attempts n, lease := none }
  | .retry t =>
    { j with status := .failedRetry, attempts := counter (.retry t) j.attempts n, lease := none }
  | .dead =>
    { j with status := .deadLettered, attempts := counter .dead j.attempts n, lease := none }
  | .append => { j with attempts := counter .append j.attempts n }

@[simp] theorem settle_attempts (counter : Counter) (c : Completion) (n : Nat) (j : Job) :
    (c.settle counter n j).attempts = counter c j.attempts n := by
  cases c <;> rfl

@[simp] theorem settle_core (counter : Counter) (c : Completion) (n : Nat) (j : Job) :
    (c.settle counter n j).core = j.core := by
  cases c <;> rfl

/-- The status a completion writes, if it writes one. -/
def Completion.status : Completion → Option DeliveryStatus
  | .sent => some .sent
  | .retry _ => some .failedRetry
  | .dead => some .deadLettered
  | .append => none

theorem settle_status (counter : Counter) (c : Completion) (n : Nat) (j : Job) :
    (c.settle counter n j).status = c.status.getD j.status := by
  cases c <;> rfl

/-- The operations of `WebhookDeliveryStoreProtocol`. -/
structure DeliveryStore where
  State : Type
  empty : State
  enqueueMany : State → List DeliveryRecord → Option State
  claimBatch : State → Datetime → Nat → Nat → List DeliveryId → Option (List DeliveryRecord × State)
  reclaimStale : State → Datetime → Nat × State
  complete : State → DeliveryId → Completion → AttemptRecord → Option State
  get : State → DeliveryId → Option DeliveryRecord

/-- An insert that leaves existing rows alone, at an id that the batch does not name. -/
theorem or_find?_other {rs : List DeliveryRecord} {id : DeliveryId} (v : Option Job)
    (f : DeliveryRecord → Job) (h : ∀ r ∈ rs, r.deliveryId ≠ id) :
    v.or ((rs.find? fun r => r.deliveryId = id).map f) = v := by
  have hnone : rs.find? (fun r => r.deliveryId = id) = none := by
    simpa [List.find?_eq_none] using h
  rw [hnone, Option.map_none, Option.or_none]

/-- An insert that leaves existing rows alone, at a new id. -/
theorem or_find?_new {rs : List DeliveryRecord} {r : DeliveryRecord} {v : Option Job}
    (f : DeliveryRecord → Job) (hn : (rs.map (·.deliveryId)).Nodup) (hr : r ∈ rs)
    (hv : v = none) : v.or ((rs.find? fun x => x.deliveryId = r.deliveryId).map f) =
      some (f r) := by
  rw [Table.find?_rows hn hr, hv, Option.map_some, Option.none_or]

/-- A delivery store with its abstract model. -/
structure LeaseQueue extends DeliveryStore where
  view : State → DeliveryId → Option Job
  expired : Datetime → Datetime → Prop
  counter : Counter
  /-- A retry that reports the next attempt counts it. -/
  counter_retry : ∀ t old, counter (.retry t) old (old + 1) = old + 1
  view_empty : ∀ id, view empty id = none
  view_enqueue_other : ∀ s rs s' id, enqueueMany s rs = some s' →
    (∀ r ∈ rs, r.deliveryId ≠ id) → view s' id = view s id
  view_enqueue_new : ∀ s rs s' r, enqueueMany s rs = some s' → (rs.map (·.deliveryId)).Nodup →
    r ∈ rs → r.status = .pending → view s r.deliveryId = none →
    ∃ c, Keeps r c ∧ view s' r.deliveryId = some ⟨.pending, r.attempts, none, c⟩
  /-- A claim hands out claimable jobs, each once, and leases exactly these. -/
  view_claim : ∀ s now ttl n pick rs s', claimBatch s now ttl n pick = some (rs, s') →
    (rs.map (·.deliveryId)).Nodup ∧
    (∀ r ∈ rs, ∃ j e, view s r.deliveryId = some j ∧ j.status.claimable = true ∧
      r.attempts = j.attempts ∧ core r = j.core ∧
      view s' r.deliveryId = some { j with status := .inFlight, lease := some e }) ∧
    ∀ id, (∀ r ∈ rs, r.deliveryId ≠ id) → view s' id = view s id
  /-- A reclaim frees jobs whose lease has expired, and touches no other. -/
  view_reclaim : ∀ s now id, view (reclaimStale s now).2 id = view s id ∨
    ∃ j e st, view s id = some j ∧ j.status = .inFlight ∧ j.lease = some e ∧ expired e now ∧
      st.claimable = true ∧
      view (reclaimStale s now).2 id = some { j with status := st, lease := none }
  view_complete : ∀ s id c a j s', view s id = some j → complete s id c a = some s' →
    view s' id = some (c.settle counter a.attempt j)
  view_complete_other : ∀ s id c a s' id', complete s id c a = some s' → id' ≠ id →
    view s' id' = view s id'

/-- A lease queue that keeps one row per delivery. -/
structure RowQueue extends LeaseQueue where
  ofRecord : DeliveryRecord → Job
  view_enqueue : ∀ s rs s' id, enqueueMany s rs = some s' → view s' id =
    (view s id).or ((rs.find? fun r => r.deliveryId = id).map ofRecord)
  assigns : Completion → Bool
  counts : counter.Counts assigns
  get_view : ∀ s id, (get s id).map (fun r => (r.status, r.attempts)) =
    (view s id).map fun j => (j.status, j.attempts)

namespace LeaseQueue

variable (q : LeaseQueue)

/-- No operation forgets a delivery: claims. -/
theorem claim_present {s s' : q.State} {now : Datetime} {ttl n : Nat} {pick : List DeliveryId}
    {rs : List DeliveryRecord} (h : q.claimBatch s now ttl n pick = some (rs, s'))
    {id : DeliveryId} {j : Job} (hj : q.view s id = some j) :
    ∃ j', q.view s' id = some j' ∧ j'.attempts = j.attempts ∧ j'.core = j.core ∧
      (j'.status = j.status ∨ j.status.claimable = true ∧ j'.status = .inFlight) := by
  obtain ⟨-, hin, hout⟩ := q.view_claim s now ttl n pick rs s' h
  by_cases hm : ∃ r ∈ rs, r.deliveryId = id
  · obtain ⟨r, hr, rfl⟩ := hm
    obtain ⟨j₀, e, hj₀, hc, -, -, hs'⟩ := hin r hr
    rw [hj] at hj₀
    cases hj₀
    exact ⟨_, hs', rfl, rfl, Or.inr ⟨hc, rfl⟩⟩
  · have hne : ∀ r ∈ rs, r.deliveryId ≠ id := fun r hr he => hm ⟨r, hr, he⟩
    exact ⟨j, by rw [hout id hne, hj], rfl, rfl, Or.inl rfl⟩

/-- No operation forgets a delivery: reclaims. -/
theorem reclaim_present (s : q.State) (now : Datetime) {id : DeliveryId} {j : Job}
    (hj : q.view s id = some j) :
    ∃ j', q.view (q.reclaimStale s now).2 id = some j' ∧ j'.attempts = j.attempts ∧
      j'.core = j.core ∧
      (j'.status = j.status ∨ j.status = .inFlight ∧ j'.status.claimable = true) := by
  rcases q.view_reclaim s now id with h | ⟨j₀, e, st, hj₀, hfl, -, -, hst, h⟩
  · exact ⟨j, by rw [h, hj], rfl, rfl, Or.inl rfl⟩
  · rw [hj] at hj₀
    cases hj₀
    exact ⟨_, h, rfl, rfl, Or.inr ⟨hfl, hst⟩⟩

end LeaseQueue

end WebhookEngine.Stores.Queue
