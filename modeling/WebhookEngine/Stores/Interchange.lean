import WebhookEngine.Lib.Run
import WebhookEngine.Stores.Memory
import WebhookEngine.Stores.Pg

/-!
# The in-memory store beside the Postgres store

The same calls on `MemoryWebhookDeliveryStore` and on `PgWebhookDeliveryStore`. What
`get` and the lease say about one id is a `Shown`; each call of either store changes it by
one function, and these are the same but for the attempts counter.

* `alike_step`: statuses, fire times, leases and reclaim counts agree after every call,
  as long as the claims take the same ids;
* `pick_perm_ready`: they do when no two deliveries that are due have one fire time;
* `observations_agree_iff`: what the two stores answer is the same, in every run, exactly
  when no claim finds a delivery, every completion is a retry, and Postgres takes the values.
-/

namespace WebhookEngine.Stores.Interchange

open Lib Lib.Columns Lib.Run WebhookEngine.Stores.Queue

/-! ## What is shown of a delivery -/

structure Shown where
  status : DeliveryStatus
  attempts : Nat
  fireAt : Datetime
  lease : Option Datetime
  deriving DecidableEq

def Shown.due (now : Datetime) (x : Shown) : Bool := x.status.claimable && decide (x.fireAt ≤ now)

def Shown.stale (now : Datetime) (x : Shown) : Bool :=
  x.status = .inFlight && x.lease.any fun e => decide (e < now)

def Shown.claimed (e : Datetime) (x : Shown) : Shown :=
  { x with status := .inFlight, lease := some e }

def Shown.reclaimed (now : Datetime) (x : Shown) : Shown :=
  if x.stale now then { x with status := .pending, lease := none } else x

def Shown.settled (counter : Counter) (c : Completion) (n : Nat) (x : Shown) : Shown where
  status := c.status.getD x.status
  attempts := counter c x.attempts n
  fireAt := match c with
    | .retry t => t
    | _ => x.fireAt
  lease := match c with
    | .append => x.lease
    | _ => none

/-- Without the counter, or with it. -/
def Shown.forget (counter : Bool) (x : Shown) : Shown :=
  if counter then { x with attempts := 0 } else x

theorem forget_claimed (b : Bool) (e : Datetime) (x : Shown) :
    (x.claimed e).forget b = (x.forget b).claimed e := by
  cases b <;> rfl

theorem stale_forget (b : Bool) (now : Datetime) (x : Shown) :
    (x.forget b).stale now = x.stale now := by
  cases b <;> rfl

theorem due_forget (b : Bool) (now : Datetime) (x : Shown) :
    (x.forget b).due now = x.due now := by
  cases b <;> rfl

theorem forget_reclaimed (b : Bool) (now : Datetime) (x : Shown) :
    (x.reclaimed now).forget b = (x.forget b).reclaimed now := by
  unfold Shown.reclaimed
  rw [stale_forget]
  split
  · cases b <;> rfl
  · rfl

theorem forget_settled {counter counter' : Counter} {c : Completion} {n n' : Nat} {x y : Shown}
    (h : x.forget true = y.forget true) :
    (x.settled counter c n).forget true = (y.settled counter' c n').forget true := by
  simp only [Shown.forget, if_true, Shown.mk.injEq, true_and] at h
  obtain ⟨hstatus, hfire, hlease⟩ := h
  simp [Shown.forget, Shown.settled, hstatus, hfire, hlease]

/-- Two stores show the same of every id. -/
def Alike (b : Bool) (f g : DeliveryId → Option Shown) : Prop :=
  ∀ id, (f id).map (Shown.forget b) = (g id).map (Shown.forget b)

theorem alike_of_eq {f g : DeliveryId → Option Shown} (h : ∀ id, f id = g id) (b : Bool) :
    Alike b f g := fun id => by rw [h id]

theorem alike_false_iff {f g : DeliveryId → Option Shown} :
    Alike false f g ↔ ∀ id, f id = g id := by
  have hid : Shown.forget false = id := rfl
  simp only [Alike, hid, Option.map_id_fun, id]

theorem Alike.map {b : Bool} {f g f' g' : DeliveryId → Option Shown} (h : Alike b f g)
    {p : DeliveryId → Prop} [DecidablePred p] {F G : Shown → Shown}
    (hf : ∀ id, f' id = if p id then (f id).map F else f id)
    (hg : ∀ id, g' id = if p id then (g id).map G else g id)
    (hFG : ∀ id x y, p id → f id = some x → g id = some y → x.forget b = y.forget b →
      (F x).forget b = (G y).forget b) :
    Alike b f' g' := by
  intro id
  have hid := h id
  rw [hf, hg]
  by_cases hp : p id
  · rw [if_pos hp, if_pos hp]
    cases hx : f id with
    | none =>
      rw [hx, Option.map_none, eq_comm, Option.map_eq_none_iff] at hid
      rw [hid]
      rfl
    | some x =>
      rw [hx, Option.map_some] at hid
      obtain ⟨y, hy, hxy⟩ := Option.map_eq_some_iff.mp hid.symm
      rw [hy]
      exact congrArg some (hFG id x y hp hx hy hxy.symm)
  · rw [if_neg hp, if_neg hp]
    exact hid

/-! ## The in-memory store -/

def ofRecord (lease : Option Datetime) (r : DeliveryRecord) : Shown :=
  ⟨r.status, r.attempts, r.fireAt, lease⟩

namespace Mem

open Memory

def shown (s : MemoryWebhookDeliveryStore) (id : DeliveryId) : Option Shown :=
  (s.records.find? id).map (ofRecord ((s.leaseExpiry.find? id).map (·.2)))

theorem shown_enqueue (s : MemoryWebhookDeliveryStore) (rs : List DeliveryRecord)
    (id : DeliveryId) : shown (enqueueMany s rs) id =
      (shown s id).or ((rs.find? fun r => r.deliveryId = id).map (ofRecord none)) := by
  simp only [shown, enqueueMany, Table.find?_insertMany]
  cases hr : s.records.find? id with
  | some r => simp
  | none => simp [lease_eq_none hr]

theorem shown_claim (s : MemoryWebhookDeliveryStore) (now : Datetime) (ttl n : Nat)
    (id : DeliveryId) : shown (claimBatch s now ttl n).2 id =
      if id ∈ (ready s now n).map (·.deliveryId) then
        (shown s id).map (Shown.claimed (now + ttl))
      else shown s id := by
  rw [shown, find?_records_claim, find?_leases_claim]
  split
  · rw [shown, Option.map_map, Option.map_map]
    rfl
  · rfl

theorem stale_eq (s : MemoryWebhookDeliveryStore) (now : Datetime) (id : DeliveryId) :
    stale s now id = (shown s id).any (Shown.stale now) := by
  unfold stale shown
  cases s.leaseExpiry.find? id with
  | none => cases s.records.find? id <;> simp [Shown.stale, ofRecord]
  | some e => cases s.records.find? id <;> simp [Shown.stale, ofRecord, Bool.and_comm]

theorem shown_reclaim (s : MemoryWebhookDeliveryStore) (now : Datetime) (id : DeliveryId) :
    shown (reclaimStale s now).2 id = (shown s id).map (Shown.reclaimed now) := by
  have hstale := stale_eq s now id
  cases hr : s.records.find? id with
  | none => simp [shown, reclaimStale, Table.find?_update, hr]
  | some r =>
    obtain rfl := Table.find?_key hr
    simp only [shown, hr, Option.map_some, Option.any_some] at hstale
    simp only [shown, reclaimStale, Table.find?_update, Table.find?_filter, hr, Option.map_some,
      hstale, Shown.reclaimed]
    cases hl : s.leaseExpiry.find? r.deliveryId with
    | none => simp [Shown.stale, ofRecord]
    | some e =>
      obtain ⟨k, t⟩ := e
      obtain rfl : k = r.deliveryId := Table.find?_key hl
      rw [hl, Option.map_some] at hstale
      simp only [Option.filter_some, hstale, Option.map_some]
      by_cases hs : (ofRecord (some t) r).stale now = true
      · simp [hs]
        rfl
      · simp [hs]

theorem shown_complete {s s' : MemoryWebhookDeliveryStore} {id : DeliveryId} {c : Completion}
    {a : AttemptRecord} (h : memoryStore.complete s id c a = some s') (id' : DeliveryId) :
    shown s' id' = if id' = id then (shown s id').map (Shown.settled counter c a.attempt)
      else shown s id' := by
  have hrewrite : ∀ f hf, (∀ l r, ofRecord none (f r) =
      (ofRecord l r).settled counter c a.attempt) → complete s id a f hf = some s' →
      shown s' id' = if id' = id then (shown s id').map (Shown.settled counter c a.attempt)
        else shown s id' := by
    intro f hf heq hcomplete
    obtain ⟨-, hs'⟩ := Option.ite_none_right_eq_some.mp hcomplete
    cases hs'
    simp only [shown, Table.find?_modify, Table.find?_erase]
    split
    · rw [Option.map_map, Option.map_map, Option.map_none]
      congr 1
      funext r
      exact heq _ r
    · rfl
  cases c with
  | sent => exact hrewrite _ _ (fun _ _ => rfl) h
  | retry t => exact hrewrite _ _ (fun _ _ => rfl) h
  | dead => exact hrewrite _ _ (fun _ _ => rfl) h
  | append =>
    cases h
    split
    · exact (Option.map_id_fun' ▸ rfl : shown s id' = (shown s id').map fun x => x)
    · rfl

end Mem

/-! ## The Postgres store -/

namespace Rows

open Pg

def ofRow (row : Row) : Shown := ofRecord row.leaseExpiry row.record

def shown (s : PgWebhookDeliveryStore) (id : DeliveryId) : Option Shown :=
  (s.deliveries.find? id).map ofRow

theorem shown_enqueue (s : PgWebhookDeliveryStore) {rs : List DeliveryRecord}
    (hpending : ∀ r ∈ rs, r.status = .pending) (id : DeliveryId) : shown (insertRows s rs) id =
      (shown s id).or ((rs.find? fun r => r.deliveryId = id).map (ofRecord none)) := by
  have hkey : ((fun row : Row => decide (row.deliveryId = id)) ∘ Row.ofRecord) =
      fun r => decide (r.deliveryId = id) := rfl
  rw [shown, insertRows, Table.find?_insertMany, List.find?_map, hkey, Option.map_or,
    Option.map_map]
  congr 1
  cases hr : rs.find? fun r => r.deliveryId = id with
  | none => rfl
  | some r =>
    have hr' := hpending r (List.mem_of_find?_eq_some hr)
    simp [ofRow, ofRecord, Row.ofRecord, hr']

theorem shown_claim {s s' : PgWebhookDeliveryStore} {now : Datetime} {ttl n : Nat}
    {pick : List DeliveryId} {rs : List DeliveryRecord}
    (h : claimBatch s now ttl n pick = some (rs, s')) (id : DeliveryId) :
    shown s' id = if id ∈ pick then (shown s id).map (Shown.claimed (now + ttl))
      else shown s id := by
  obtain ⟨-, hs'⟩ := Option.ite_none_right_eq_some.mp h
  cases hs'
  simp only [shown]
  rw [Table.find?_update_key s.deliveries (fun k => decide (k ∈ pick)) _ (claim_deliveryId _)]
  simp only [decide_eq_true_eq]
  split
  · rw [Option.map_map, Option.map_map]
    rfl
  · rfl

theorem stale_eq (now : Datetime) (row : Row) : row.stale now = (ofRow row).stale now := rfl

theorem shown_reclaim (s : PgWebhookDeliveryStore) (now : Datetime) (id : DeliveryId) :
    shown (reclaimStale s now).2 id = (shown s id).map (Shown.reclaimed now) := by
  simp only [shown, reclaimStale, Table.find?_update, Option.map_map]
  congr 1
  funext row
  simp only [Function.comp_apply, Shown.reclaimed]
  by_cases hs : row.stale now = true
  · rw [if_pos hs, if_pos (stale_eq now row ▸ hs)]
    rfl
  · rw [if_neg hs, if_neg (stale_eq now row ▸ hs)]

theorem shown_report (s : PgWebhookDeliveryStore) (id id' : DeliveryId) (c : Completion)
    (a : AttemptRecord) : shown (report s id c a) id' =
      if id' = id then (shown s id').map (Shown.settled counter c a.attempt) else shown s id' := by
  simp only [shown, report, Table.find?_modify]
  split
  · rw [Option.map_map, Option.map_map]
    congr 1
    funext row
    cases c <;> rfl
  · rfl

end Rows

/-! ## Counting and claiming -/

open Memory (ready)

theorem Alike.any {b : Bool} {f g : DeliveryId → Option Shown} (h : Alike b f g) {p : Shown → Bool}
    (hp : ∀ x, p (x.forget b) = p x) (id : DeliveryId) : (f id).any p = (g id).any p := by
  have hany : ∀ o : Option Shown, (o.map (Shown.forget b)).any p = o.any p := by
    intro o
    cases o with
    | none => rfl
    | some x => exact hp x
  rw [← hany (f id), h id, hany]

variable {s : Memory.MemoryWebhookDeliveryStore} {t : Pg.PgWebhookDeliveryStore} {b : Bool}

/-- **The reclaim counts agree.** -/
theorem reclaim_count (h : Alike b (Mem.shown s) (Rows.shown t)) (now : Datetime) :
    (Memory.reclaimStale s now).1 = (Pg.reclaimStale t now).1 := by
  apply Table.length_filter_eq
  intro id
  have hany := h.any (stale_forget b now) id
  rw [← Mem.stale_eq, Rows.shown, Option.any_map] at hany
  refine Eq.trans ?_ hany
  cases hl : s.leaseExpiry.find? id with
  | none => simp [Memory.stale, hl]
  | some e => rw [Option.any_some, Table.find?_key hl]

/-- The deliveries a claim chooses from, in memory. -/
def dueRecords (s : Memory.MemoryWebhookDeliveryStore) (now : Datetime) : List DeliveryRecord :=
  s.records.rows.filter fun r => r.status.claimable && decide (r.fireAt ≤ now)

theorem shown_of_mem {r : DeliveryRecord} (hr : r ∈ s.records.rows) :
    Mem.shown s r.deliveryId =
      some (ofRecord ((s.leaseExpiry.find? r.deliveryId).map (·.2)) r) := by
  rw [Mem.shown, Table.find?_of_mem hr, Option.map_some]

theorem due_iff (h : Alike b (Mem.shown s) (Rows.shown t)) (now : Datetime) (id : DeliveryId) :
    (s.records.find? id).any (fun r => r.status.claimable && decide (r.fireAt ≤ now)) =
      (t.deliveries.find? id).any (Pg.Row.claimable now) := by
  have hany := h.any (due_forget b now) id
  rw [Mem.shown, Rows.shown, Option.any_map, Option.any_map] at hany
  exact hany

theorem length_due (h : Alike b (Mem.shown s) (Rows.shown t)) (now : Datetime) :
    (dueRecords s now).length = (Pg.claimableRows t now).length :=
  Table.length_filter_eq (due_iff h now)

theorem mem_ready_due {now : Datetime} {n : Nat} {r : DeliveryRecord} (h : r ∈ ready s now n) :
    r ∈ dueRecords s now :=
  (List.mem_insertionSort _).mp (List.mem_of_mem_take h)

theorem length_ready (s : Memory.MemoryWebhookDeliveryStore) (now : Datetime) (n : Nat) :
    (ready s now n).length = min n (dueRecords s now).length := by
  rw [ready, List.length_take, List.length_insertionSort, dueRecords]

/-- What a claim leaves behind is not due before what it takes. -/
theorem fireAt_ready_le {now : Datetime} {n : Nat} {r r' : DeliveryRecord}
    (hr : r ∈ ready s now n) (hr' : r' ∈ dueRecords s now) (hleft : r' ∉ ready s now n) :
    r.fireAt ≤ r'.fireAt := by
  have hsorted := List.pairwise_insertionSort (fun x y : DeliveryRecord => x.fireAt ≤ y.fireAt)
    (dueRecords s now)
  have hmem := (List.mem_insertionSort fun x y : DeliveryRecord => x.fireAt ≤ y.fireAt).mpr hr'
  rw [← List.take_append_drop n ((dueRecords s now).insertionSort _)] at hsorted hmem
  rcases List.mem_append.mp hmem with htaken | hdropped
  · exact absurd htaken hleft
  · exact (List.pairwise_append.mp hsorted).2.2 r hr r' hdropped

/-- No two deliveries that are due have one fire time. -/
def Distinct (s : Memory.MemoryWebhookDeliveryStore) (now : Datetime) : Prop :=
  ∀ r ∈ dueRecords s now, ∀ r' ∈ dueRecords s now, r.fireAt = r'.fireAt →
    r.deliveryId = r'.deliveryId

/-- **Every choice of Postgres is the choice of the in-memory store**, unless fire times tie. -/
theorem pick_perm_ready (h : Alike true (Mem.shown s) (Rows.shown t)) {now : Datetime} {n : Nat}
    {pick : List DeliveryId} (hdistinct : Distinct s now)
    (hpick : Pg.validPick t now n pick = true) :
    pick.Perm ((ready s now n).map (·.deliveryId)) := by
  simp only [Pg.validPick, Bool.and_eq_true, List.all_eq_true, decide_eq_true_eq] at hpick
  obtain ⟨⟨⟨hnodup, hlength⟩, hsub⟩, hfirst⟩ := hpick
  have hready := Memory.nodup_ready s now n
  have hlen : ((ready s now n).map (·.deliveryId)).length = pick.length := by
    rw [List.length_map, length_ready, length_due h, hlength]
  -- a delivery that only Postgres takes has a counterpart that only memory takes
  apply (List.subperm_of_subset hnodup ?_).perm_of_length_le hlen.le
  intro id hid
  by_contra hnot
  have hother : ∃ r ∈ ready s now n, r.deliveryId ∉ pick := by
    by_contra hall
    push Not at hall
    have hperm := (List.subperm_of_subset hready fun k hk => by
      obtain ⟨r, hr, rfl⟩ := List.mem_map.mp hk
      exact hall r hr).perm_of_length_le hlen.ge
    exact hnot (hperm.mem_iff.mpr hid)
  obtain ⟨r', hr', hr'pick⟩ := hother
  have hrow : ∀ k, (∃ r ∈ dueRecords s now, r.deliveryId = k) →
      ∃ r ∈ dueRecords s now, ∃ row ∈ Pg.claimableRows t now, r.deliveryId = k ∧
        row.deliveryId = k ∧ row.record.fireAt = r.fireAt := by
    rintro k ⟨r, hr, rfl⟩
    have hmem : r.deliveryId ∈ (Pg.claimableRows t now).map Pg.Row.deliveryId := by
      rw [Pg.claimableRows, Table.mem_keys_filter, ← due_iff h, ← Table.mem_keys_filter]
      exact List.mem_map_of_mem hr
    obtain ⟨row, hrow, hkey⟩ := List.mem_map.mp hmem
    refine ⟨r, hr, row, hrow, rfl, hkey, ?_⟩
    have hshown := h r.deliveryId
    rw [shown_of_mem (List.mem_filter.mp hr).1, Rows.shown, ← hkey,
      Table.find?_of_mem (List.mem_filter.mp hrow).1] at hshown
    exact (congrArg Shown.fireAt (Option.some_inj.mp hshown)).symm
  have hdue : id ∈ (dueRecords s now).map (·.deliveryId) := by
    rw [dueRecords, Table.mem_keys_filter, due_iff h, ← Table.mem_keys_filter]
    exact hsub id hid
  obtain ⟨r, hr, row, hrow₁, rfl, hkey, hfire⟩ := hrow id (List.mem_map.mp hdue)
  obtain ⟨r₂, hr₂, row', hrow₂, hid₂, hkey', hfire'⟩ := hrow _ ⟨r', mem_ready_due hr', rfl⟩
  have hle := hfirst row hrow₁ row' hrow₂ (hkey ▸ hid) (hkey' ▸ hr'pick)
  have hge := fireAt_ready_le hr' hr fun hmem => hnot (List.mem_map_of_mem hmem)
  have hsame : r₂ = r' := by
    have h₁ := Table.find?_of_mem (List.mem_filter.mp hr₂).1
    have h₂ := Table.find?_of_mem (List.mem_filter.mp (mem_ready_due hr')).1
    rw [hid₂, h₂] at h₁
    exact (Option.some_inj.mp h₁).symm
  rw [hfire, hfire', hsame] at hle
  have hid' := hdistinct r hr r' (mem_ready_due hr') (le_antisymm hle hge)
  exact hnot (hid' ▸ List.mem_map_of_mem hr')

/-! ## The two stores side by side -/

structure World where
  memory : Memory.MemoryWebhookDeliveryStore
  pg : Pg.PgWebhookDeliveryStore

def init : World := ⟨Memory.empty, Pg.empty⟩

/-- A call on both stores; `pick` is the choice of Postgres. -/
inductive Call where
  | enqueueMany (records : List DeliveryRecord)
  | claimBatch (now : Datetime) (leaseTtlS batchSize : Nat) (pick : List DeliveryId)
  | reclaimStale (now : Datetime)
  | complete (id : DeliveryId) (c : Completion) (attempt : AttemptRecord)

/-- The attempt a completion reports is the one after those stored. -/
def reportsNext (w : World) (id : DeliveryId) (a : AttemptRecord) : Bool :=
  (Memory.get w.memory id).any (fun r => a.attempt = r.attempts + 1) ||
    (Pg.get w.pg id).any fun r => a.attempt = r.attempts + 1

/-- One call. Where Postgres raises, its tables stay as they are. -/
def step (w : World) : Call → Option World
  | .enqueueMany rs =>
    if rs.all fun r => r.status = .pending then
      some ⟨Memory.enqueueMany w.memory rs, (Pg.enqueueMany w.pg rs).getD w.pg⟩
    else none
  | .claimBatch now ttl n pick =>
    if fitsBigint n then
      (Pg.claimBatch w.pg now ttl n pick).map fun x =>
        ⟨(Memory.claimBatch w.memory now ttl n).2, x.2⟩
    else some ⟨(Memory.claimBatch w.memory now ttl n).2, w.pg⟩
  | .reclaimStale now =>
    some ⟨(Memory.reclaimStale w.memory now).2, (Pg.reclaimStale w.pg now).2⟩
  | .complete id c a =>
    if reportsNext w id a then
      (Memory.memoryStore.complete w.memory id c a).map fun m =>
        ⟨m, (Pg.complete w.pg id c a).getD w.pg⟩
    else none

/-- The two claims hand out the same ids, with one status and counter each. -/
def SameClaim (rs rs' : List DeliveryRecord) : Prop :=
  ∀ id status attempts,
    (∃ r ∈ rs, r.deliveryId = id ∧ r.status = status ∧ r.attempts = attempts) ↔
      ∃ r ∈ rs', r.deliveryId = id ∧ r.status = status ∧ r.attempts = attempts

/-- Postgres takes the values of a call. -/
def PgTakes : Call → Prop
  | .enqueueMany rs => rs.all Pg.recordFits = true
  | .claimBatch _ _ n _ => fitsBigint n = true
  | .reclaimStale _ => True
  | .complete id _ a => Pg.attemptFits id a = true

instance : ∀ call, Decidable (PgTakes call)
  | .enqueueMany _ => inferInstanceAs (Decidable (_ = true))
  | .claimBatch .. => inferInstanceAs (Decidable (_ = true))
  | .reclaimStale _ => .isTrue trivial
  | .complete .. => inferInstanceAs (Decidable (_ = true))

/-- The two stores answer a call alike; neither alone raises. -/
def SameAnswer (w : World) : Call → Prop
  | .enqueueMany rs => (Pg.enqueueMany w.pg rs).isSome = true
  | .claimBatch now ttl n pick => fitsBigint n = true ∧
    ∀ x, Pg.claimBatch w.pg now ttl n pick = some x →
      SameClaim (Memory.claimBatch w.memory now ttl n).1 x.1
  | .reclaimStale now => (Memory.reclaimStale w.memory now).1 = (Pg.reclaimStale w.pg now).1
  | .complete id c a =>
    (Memory.memoryStore.complete w.memory id c a).isSome = (Pg.complete w.pg id c a).isSome

/-- What `get` shows. -/
def glance (r : DeliveryRecord) : DeliveryStatus × Nat × Datetime :=
  (r.status, r.attempts, r.fireAt)

def SameRecords (w : World) : Prop :=
  ∀ id, (Memory.get w.memory id).map glance = (Pg.get w.pg id).map glance

/-- The observations of a call are the same on both stores, and the records after it. -/
def Agrees (w : World) (call : Call) : Prop :=
  SameAnswer w call ∧ ∀ w', step w call = some w' → SameRecords w'

/-- A claim finds nothing to hand out, a completion is a retry. -/
def Idle (w : World) : Call → Prop
  | .claimBatch now _ n _ => n = 0 ∨ dueRecords w.memory now = []
  | .complete _ c _ => ∃ t, c = .retry t
  | _ => True

instance (w : World) : ∀ call, Decidable (Idle w call)
  | .enqueueMany _ => .isTrue trivial
  | .reclaimStale _ => .isTrue trivial
  | .claimBatch now _ n _ => inferInstanceAs (Decidable (n = 0 ∨ dueRecords w.memory now = []))
  | .complete _ (.retry t) _ => .isTrue ⟨t, rfl⟩
  | .complete _ .sent _ => .isFalse fun ⟨_, h⟩ => by cases h
  | .complete _ .dead _ => .isFalse fun ⟨_, h⟩ => by cases h
  | .complete _ .append _ => .isFalse fun ⟨_, h⟩ => by cases h

/-- Nothing of the kind, and nothing that Postgres refuses. -/
def Quiet (w : World) (call : Call) : Prop := Idle w call ∧ PgTakes call

instance (w : World) (call : Call) : Decidable (Quiet w call) :=
  inferInstanceAs (Decidable (_ ∧ _))

/-- The deliveries that are due at a claim have different fire times, and Postgres takes the
values of the call. -/
def Untied (w : World) (call : Call) : Prop :=
  PgTakes call ∧ ∀ now ttl n pick, call = .claimBatch now ttl n pick → Distinct w.memory now

/-- The two stores show the same, with or without the counters. -/
def Twins (b : Bool) (w : World) : Prop := Alike b (Mem.shown w.memory) (Rows.shown w.pg)

theorem get_map_glance {w : World} (id : DeliveryId) :
    (Memory.get w.memory id).map glance =
        (Mem.shown w.memory id).map (fun x => (x.status, x.attempts, x.fireAt)) ∧
      (Pg.get w.pg id).map glance =
        (Rows.shown w.pg id).map fun x => (x.status, x.attempts, x.fireAt) := by
  constructor
  · rw [Mem.shown, Option.map_map]
    rfl
  · rw [Rows.shown, Pg.get, Option.map_map, Option.map_map]
    rfl

theorem sameRecords_of_twins {w : World} (h : Twins false w) : SameRecords w := by
  intro id
  rw [(get_map_glance id).1, (get_map_glance id).2, alike_false_iff.mp h id]

/-! ## One call -/

theorem twins_init (b : Bool) : Twins b init := alike_of_eq (fun _ => rfl) b

theorem twins_enqueue {b : Bool} {w w' : World} {rs : List DeliveryRecord} (h : Twins b w)
    (htakes : rs.all Pg.recordFits = true) (hstep : step w (.enqueueMany rs) = some w') :
    Twins b w' := by
  obtain ⟨hpending, hstep⟩ := Option.ite_none_right_eq_some.mp hstep
  rw [Pg.enqueueMany, if_pos htakes, Option.getD_some] at hstep
  cases hstep
  have hpending' : ∀ r ∈ rs, r.status = .pending := by simpa using hpending
  intro id
  rw [Mem.shown_enqueue, Rows.shown_enqueue _ hpending', Option.map_or, Option.map_or, h id]

theorem twins_reclaim {b : Bool} {w w' : World} {now : Datetime} (h : Twins b w)
    (hstep : step w (.reclaimStale now) = some w') : Twins b w' := by
  cases hstep
  refine Alike.map (p := fun _ => True) h (F := Shown.reclaimed now) (G := Shown.reclaimed now)
    (fun id => ?_) (fun id => ?_) (fun id x y _ _ _ hxy => ?_)
  · rw [if_pos trivial, Mem.shown_reclaim]
  · rw [if_pos trivial, Rows.shown_reclaim]
  · rw [forget_reclaimed, forget_reclaimed, hxy]

/-- A claim that Postgres takes. -/
theorem claim_moves {w w' : World} {now : Datetime} {ttl n : Nat} {pick : List DeliveryId}
    (htakes : fitsBigint n = true) (hstep : step w (.claimBatch now ttl n pick) = some w') :
    ∃ rs t', Pg.claimBatch w.pg now ttl n pick = some (rs, t') ∧
      Pg.validPick w.pg now n pick = true ∧
      w' = ⟨(Memory.claimBatch w.memory now ttl n).2, t'⟩ := by
  rw [step, if_pos htakes] at hstep
  obtain ⟨⟨rs, t'⟩, hclaim, hw'⟩ := Option.map_eq_some_iff.mp hstep
  obtain ⟨⟨-, hpick⟩, -⟩ := Option.ite_none_right_eq_some.mp hclaim
  exact ⟨rs, t', hclaim, hpick, hw'.symm⟩

theorem twins_claim {b : Bool} {w w' : World} {now : Datetime} {ttl n : Nat}
    {pick : List DeliveryId} (h : Twins b w)
    (hpick : pick.Perm ((ready w.memory now n).map (·.deliveryId))) (htakes : fitsBigint n = true)
    (hstep : step w (.claimBatch now ttl n pick) = some w') : Twins b w' := by
  obtain ⟨rs, t', hclaim, -, rfl⟩ := claim_moves htakes hstep
  refine Alike.map (p := fun id => id ∈ pick) h (F := Shown.claimed (now + ttl))
    (G := Shown.claimed (now + ttl)) (fun id => ?_) (fun id => Rows.shown_claim hclaim id)
    (fun id x y _ _ _ hxy => ?_)
  · simp only [Mem.shown_claim, hpick.mem_iff]
  · rw [forget_claimed, forget_claimed, hxy]

theorem complete_moves {w w' : World} {id : DeliveryId} {c : Completion} {a : AttemptRecord}
    (htakes : Pg.attemptFits id a = true) (hstep : step w (.complete id c a) = some w') :
    reportsNext w id a = true ∧ Memory.memoryStore.complete w.memory id c a = some w'.memory ∧
      w'.pg = Pg.report w.pg id c a := by
  obtain ⟨hnext, hstep⟩ := Option.ite_none_right_eq_some.mp hstep
  rw [Pg.complete, if_pos htakes, Option.getD_some] at hstep
  obtain ⟨m, hm, hw'⟩ := Option.map_eq_some_iff.mp hstep
  cases hw'
  exact ⟨hnext, hm, rfl⟩

theorem twins_complete {b : Bool} {w w' : World} {id : DeliveryId} {c : Completion}
    {a : AttemptRecord} (h : Twins b w) (htakes : Pg.attemptFits id a = true)
    (hstep : step w (.complete id c a) = some w')
    (hsettle : ∀ x y, Mem.shown w.memory id = some x → Rows.shown w.pg id = some y →
      x.forget b = y.forget b → (x.settled Memory.counter c a.attempt).forget b =
        (y.settled Pg.counter c a.attempt).forget b) : Twins b w' := by
  obtain ⟨-, hm, hpg⟩ := complete_moves htakes hstep
  refine Alike.map (p := fun id' => id' = id) h (F := Shown.settled Memory.counter c a.attempt)
    (G := Shown.settled Pg.counter c a.attempt) (fun id' => Mem.shown_complete hm id')
    (fun id' => ?_) (fun id' x y hid hx hy hxy => ?_)
  · rw [hpg]
    exact Rows.shown_report w.pg id id' c a
  · subst hid
    exact hsettle x y hx hy hxy

/-- **One call keeps statuses, fire times and leases the same.** -/
theorem alike_step {w w' : World} {call : Call} (h : Twins true w) (huntied : Untied w call)
    (hstep : step w call = some w') : Twins true w' := by
  cases call with
  | enqueueMany rs => exact twins_enqueue h huntied.1 hstep
  | reclaimStale now => exact twins_reclaim h hstep
  | claimBatch now ttl n pick =>
    obtain ⟨htakes, hdistinct⟩ := huntied
    obtain ⟨-, -, -, hpick, -⟩ := claim_moves htakes hstep
    exact twins_claim h (pick_perm_ready h (hdistinct now ttl n pick rfl) hpick) htakes hstep
  | complete id c a =>
    exact twins_complete h huntied.1 hstep fun _ _ _ _ hxy => forget_settled hxy

/-- **Two stores, one queue**: in every run whose claims find no tie and whose values Postgres
takes, the two stores hand out the same ids, reclaim the same number of leases, and show one
status and one fire time for every id. -/
theorem statuses_agree (calls : List Call) (w : World) (h : run step init calls = some w)
    (huntied : Along step Untied init calls) :
    Along step (fun u call =>
      (∀ now ttl n pick, call = .claimBatch now ttl n pick → ∀ x,
        Pg.claimBatch u.pg now ttl n pick = some x →
        (x.1.map (·.deliveryId)).Perm ((ready u.memory now n).map (·.deliveryId))) ∧
      (∀ now, call = .reclaimStale now →
        (Memory.reclaimStale u.memory now).1 = (Pg.reclaimStale u.pg now).1) ∧
      ∀ id, (Memory.get u.memory id).map (fun r => (r.status, r.fireAt)) =
        (Pg.get u.pg id).map fun r => (r.status, r.fireAt)) init calls := by
  have hkept : Along step (fun u call => Untied u call ∧ Twins true u) init calls :=
    (along_iff (I := Twins true) (fun u call v hu _ => ⟨fun hc => ⟨hc, hu⟩, fun hc => hc.1⟩)
      (fun u call v hu hc hstep => alike_step hu hc.1 hstep) (twins_init true) h).mp huntied
  refine along_imp (fun u call hu => ?_) hkept
  obtain ⟨hcall, hu⟩ := hu
  refine ⟨?_, ?_, fun id => ?_⟩
  · rintro now ttl n pick rfl x hx
    obtain ⟨⟨-, hpick⟩, -⟩ := Option.ite_none_right_eq_some.mp hx
    rw [(Pg.mem_claimBatch hx).1]
    exact pick_perm_ready hu (hcall.2 now ttl n pick rfl) hpick
  · rintro now rfl
    exact reclaim_count hu now
  · have hid := congrArg (Option.map fun x : Shown => (x.status, x.fireAt)) (hu id)
    rw [Mem.shown, Rows.shown, Option.map_map, Option.map_map, Option.map_map,
      Option.map_map] at hid
    rw [Pg.get, Option.map_map]
    exact hid

/-! ## The counters -/

theorem ready_eq_nil {u : Memory.MemoryWebhookDeliveryStore} {now : Datetime} {n : Nat}
    (h : n = 0 ∨ dueRecords u now = []) : ready u now n = [] := by
  rw [← List.length_eq_zero_iff, length_ready]
  rcases h with rfl | h
  · exact Nat.zero_min _
  · rw [h]
    exact Nat.min_zero _

/-- A claim that hands out nothing takes nothing in either store. -/
theorem quiet_pick {w : World} {now : Datetime} {n : Nat} {pick : List DeliveryId} {b : Bool}
    (h : Twins b w) (hquiet : n = 0 ∨ dueRecords w.memory now = [])
    (hpick : Pg.validPick w.pg now n pick = true) : pick = [] := by
  simp only [Pg.validPick, Bool.and_eq_true, decide_eq_true_eq] at hpick
  have hlen := hpick.1.1.2
  rw [← length_due h, ← length_ready, ready_eq_nil hquiet] at hlen
  exact List.length_eq_zero_iff.mp hlen

theorem attempt_of_next {w : World} {id : DeliveryId} {a : AttemptRecord} {x : Shown}
    (h : Twins false w) (hx : Mem.shown w.memory id = some x)
    (hnext : reportsNext w id a = true) : a.attempt = x.attempts + 1 := by
  have hy : Rows.shown w.pg id = some x := by rw [← alike_false_iff.mp h id, hx]
  obtain ⟨r, hr, rfl⟩ := Option.map_eq_some_iff.mp hx
  obtain ⟨row, hrow, hsame⟩ := Option.map_eq_some_iff.mp hy
  have hattempts : row.record.attempts = r.attempts := congrArg Shown.attempts hsame
  simp only [reportsNext, Memory.get, Pg.get, hr, hrow, Option.any_some, Option.map_some,
    Bool.or_eq_true, decide_eq_true_eq, hattempts, or_self] at hnext
  exact hnext

/-- A quiet call keeps the counters the same as well. -/
theorem twins_quiet {w w' : World} {call : Call} (h : Twins false w) (hquiet : Quiet w call)
    (hstep : step w call = some w') : Twins false w' := by
  cases call with
  | enqueueMany rs => exact twins_enqueue h hquiet.2 hstep
  | reclaimStale now => exact twins_reclaim h hstep
  | claimBatch now ttl n pick =>
    obtain ⟨hidle, htakes⟩ := hquiet
    obtain ⟨-, -, -, hpick, -⟩ := claim_moves htakes hstep
    refine twins_claim h ?_ htakes hstep
    rw [quiet_pick h hidle hpick, ready_eq_nil hidle]
    exact List.Perm.refl _
  | complete id c a =>
    obtain ⟨⟨t, rfl⟩, htakes⟩ := hquiet
    refine twins_complete h htakes hstep fun x y hx hy hxy => ?_
    have hnext := attempt_of_next h hx (complete_moves htakes hstep).1
    obtain rfl : x = y := hxy
    simp [Shown.forget, Shown.settled, Memory.counter, Pg.counter, hnext]

/-- A completion that is no retry is counted by Postgres alone. -/
theorem counters_part {w w' : World} {id : DeliveryId} {c : Completion} {a : AttemptRecord}
    (h : Twins false w) (hc : ∀ t, c ≠ .retry t) (htakes : Pg.attemptFits id a = true)
    (hstep : step w (.complete id c a) = some w') : ¬ SameRecords w' := by
  intro hsame
  obtain ⟨hnext, hm, hpg⟩ := complete_moves htakes hstep
  have hstored : ∃ x, Mem.shown w.memory id = some x := by
    by_contra hnone
    have hnone : Mem.shown w.memory id = none := by
      rw [Option.eq_none_iff_forall_ne_some]
      exact fun x hx => hnone ⟨x, hx⟩
    have hnone' : Rows.shown w.pg id = none := by rw [← alike_false_iff.mp h id, hnone]
    simp [reportsNext, Memory.get, Pg.get, Option.map_eq_none_iff.mp hnone,
      Option.map_eq_none_iff.mp hnone'] at hnext
  obtain ⟨x, hx⟩ := hstored
  have hy : Rows.shown w.pg id = some x := by rw [← alike_false_iff.mp h id, hx]
  have hattempt := attempt_of_next h hx hnext
  have hid := hsame id
  rw [(get_map_glance id).1, (get_map_glance id).2, hpg, Mem.shown_complete hm, if_pos rfl,
    Rows.shown_report, if_pos rfl, hx, hy] at hid
  have hcount : Memory.counter c x.attempts a.attempt = x.attempts := by
    cases c with
    | retry t => exact absurd rfl (hc t)
    | sent => rfl
    | dead => rfl
    | append => rfl
  have hcounters : Memory.counter c x.attempts a.attempt = Pg.counter c x.attempts a.attempt :=
    congrArg (·.2.1) (Option.some_inj.mp hid)
  rw [hcount, Pg.counter, hattempt] at hcounters
  omega

/-- A claim that hands out a delivery shows it as it was, Postgres as it is now. -/
theorem claims_part {w : World} {now : Datetime} {ttl n : Nat} {pick : List DeliveryId}
    {x : List DeliveryRecord × Pg.PgWebhookDeliveryStore} (hn : n ≠ 0)
    (hdue : dueRecords w.memory now ≠ []) (hclaim : Pg.claimBatch w.pg now ttl n pick = some x) :
    ¬ SameClaim (Memory.claimBatch w.memory now ttl n).1 x.1 := by
  intro hsame
  have hlen : 0 < (ready w.memory now n).length := by
    rw [length_ready]
    have hpos := List.length_pos_iff.mpr hdue
    omega
  obtain ⟨r, hr⟩ := List.exists_mem_of_length_pos hlen
  obtain ⟨r', hr', -, hstatus, -⟩ := (hsame _ _ _).mp ⟨r, hr, rfl, rfl, rfl⟩
  obtain ⟨row, -, -, hrow, -⟩ := (Pg.mem_claimBatch hclaim).2.2.1 r' hr'
  have hclaimable := (Memory.mem_records_of_mem_ready hr).2
  rw [← hstatus, hrow] at hclaimable
  cases hclaimable

/-- Postgres takes a call that both stores answer. -/
theorem takes_of_answer {w w' : World} {call : Call} (hanswer : SameAnswer w call)
    (hstep : step w call = some w') : PgTakes call := by
  cases call with
  | enqueueMany rs =>
    obtain ⟨t, ht⟩ := Option.isSome_iff_exists.mp hanswer
    exact (Option.ite_none_right_eq_some.mp ht).1
  | claimBatch now ttl n pick => exact hanswer.1
  | reclaimStale now => trivial
  | complete id c a =>
    obtain ⟨-, hstep⟩ := Option.ite_none_right_eq_some.mp hstep
    obtain ⟨m, hm, -⟩ := Option.map_eq_some_iff.mp hstep
    have hsome : (Memory.memoryStore.complete w.memory id c a).isSome = true :=
      Option.isSome_iff_exists.mpr ⟨m, hm⟩
    obtain ⟨t, ht⟩ := Option.isSome_iff_exists.mp (hanswer.symm.trans hsome)
    exact (Option.ite_none_right_eq_some.mp ht).1

/-- One call is observed alike exactly when it is quiet. -/
theorem agrees_iff {w w' : World} {call : Call} (h : Twins false w)
    (hstep : step w call = some w') : Agrees w call ↔ Quiet w call := by
  constructor
  · rintro ⟨hanswer, hrecords⟩
    have htakes := takes_of_answer hanswer hstep
    refine ⟨?_, htakes⟩
    cases call with
    | enqueueMany rs => trivial
    | reclaimStale now => trivial
    | claimBatch now ttl n pick =>
      obtain ⟨rs, t, hclaim, -⟩ := claim_moves htakes hstep
      by_contra hloud
      obtain ⟨hn, hdue⟩ := not_or.mp hloud
      exact claims_part hn hdue hclaim (hanswer.2 _ hclaim)
    | complete id c a =>
      by_contra hc
      exact counters_part h (fun t ht => hc ⟨t, ht⟩) htakes hstep (hrecords w' hstep)
  · intro hquiet
    refine ⟨?_, fun v hv => sameRecords_of_twins (twins_quiet h hquiet hv)⟩
    obtain ⟨hidle, htakes⟩ := hquiet
    cases call with
    | enqueueMany rs => exact Option.isSome_iff_exists.mpr ⟨_, if_pos htakes⟩
    | complete id c a =>
      obtain ⟨-, hstep⟩ := Option.ite_none_right_eq_some.mp hstep
      obtain ⟨m, hm, -⟩ := Option.map_eq_some_iff.mp hstep
      have hsome : (Memory.memoryStore.complete w.memory id c a).isSome = true :=
        Option.isSome_iff_exists.mpr ⟨m, hm⟩
      exact hsome.trans (Option.isSome_iff_exists.mpr ⟨_, if_pos htakes⟩).symm
    | reclaimStale now => exact reclaim_count h now
    | claimBatch now ttl n pick =>
      refine ⟨htakes, fun x hclaim => ?_⟩
      obtain ⟨⟨-, hpick⟩, -⟩ := Option.ite_none_right_eq_some.mp hclaim
      have hrs : x.1 = [] := by
        have hids := (Pg.mem_claimBatch hclaim).1
        rw [quiet_pick h hidle hpick] at hids
        exact List.map_eq_nil_iff.mp hids
      have hready : (Memory.claimBatch w.memory now ttl n).1 = [] := ready_eq_nil hidle
      rw [hrs, hready]
      exact fun _ _ _ => Iff.rfl

/-- **When the two stores cannot be told apart**: every call of a run is observed alike on
both exactly when no claim has anything to hand out, every completion is a retry, and Postgres
takes the values. -/
theorem observations_agree_iff (calls : List Call) (w : World)
    (h : run step init calls = some w) :
    Along step Agrees init calls ↔ Along step Quiet init calls :=
  along_iff (I := Twins false) (fun _ _ _ hu hstep => agrees_iff hu hstep)
    (fun _ _ _ hu hquiet hstep => twins_quiet hu hquiet hstep) (twins_init false) h

def exampleAttempt (n : Nat) : AttemptRecord := ⟨n, 1, some 200, 1, none, "", [], false⟩

theorem observations_agree_iff_early_retry : ∃ w,
    run step init
      [.enqueueMany [exampleRecord "d" "https://example.com/hook"], .claimBatch (-1) 30 10 [],
        .complete "d" (.retry 60) (exampleAttempt 1), .reclaimStale 5,
        .complete "d" (.retry 90) (exampleAttempt 2)] = some w ∧
    Along step Agrees init
      [.enqueueMany [exampleRecord "d" "https://example.com/hook"], .claimBatch (-1) 30 10 [],
        .complete "d" (.retry 60) (exampleAttempt 1), .reclaimStale 5,
        .complete "d" (.retry 90) (exampleAttempt 2)] := by
  obtain ⟨w, hw⟩ := Option.isSome_iff_exists.mp (by decide +kernel : (run step init
    [.enqueueMany [exampleRecord "d" "https://example.com/hook"], .claimBatch (-1) 30 10 [],
      .complete "d" (.retry 60) (exampleAttempt 1), .reclaimStale 5,
      .complete "d" (.retry 90) (exampleAttempt 2)]).isSome = true)
  exact ⟨w, hw, (observations_agree_iff _ w hw).mpr (by decide +kernel)⟩

/-- One delivery, claimed and sent: the in-memory store hands it out as pending where Postgres
hands it out as in flight, and counts no attempt where Postgres counts one. -/
theorem sent_counted_by_postgres_alone :
    (∃ u x, run step init [.enqueueMany [exampleRecord "d" "https://example.com/hook"]] = some u ∧
      Pg.claimBatch u.pg 0 30 10 ["d"] = some x ∧
      (Memory.claimBatch u.memory 0 30 10).1.map (·.status) = [.pending] ∧
      x.1.map (·.status) = [.inFlight]) ∧
    (∃ w, run step init
        [.enqueueMany [exampleRecord "d" "https://example.com/hook"], .claimBatch 0 30 10 ["d"],
          .complete "d" .sent (exampleAttempt 1)] = some w ∧
      (Memory.get w.memory "d").map glance = some (.sent, 0, 0) ∧
      (Pg.get w.pg "d").map glance = some (.sent, 1, 0)) ∧
    ¬ Along step Agrees init
      [.enqueueMany [exampleRecord "d" "https://example.com/hook"], .claimBatch 0 30 10 ["d"],
        .complete "d" .sent (exampleAttempt 1)] := by
  have hfirst := (Option.any_eq_true ..).mp (by decide +kernel :
    (run step init [.enqueueMany [exampleRecord "d" "https://example.com/hook"]]).any (fun u =>
      (Pg.claimBatch u.pg 0 30 10 ["d"]).any fun x =>
        decide ((Memory.claimBatch u.memory 0 30 10).1.map (·.status) = [.pending] ∧
          x.1.map (·.status) = [.inFlight])) = true)
  obtain ⟨u, hu, hclaim⟩ := hfirst
  obtain ⟨x, hx, hstatus⟩ := (Option.any_eq_true ..).mp hclaim
  have hlast := (Option.any_eq_true ..).mp (by decide +kernel :
    (run step init
      [.enqueueMany [exampleRecord "d" "https://example.com/hook"], .claimBatch 0 30 10 ["d"],
        .complete "d" .sent (exampleAttempt 1)]).any (fun w =>
      decide ((Memory.get w.memory "d").map glance = some (.sent, 0, 0) ∧
        (Pg.get w.pg "d").map glance = some (.sent, 1, 0))) = true)
  obtain ⟨w, hw, hglance⟩ := hlast
  have hglance := of_decide_eq_true hglance
  refine ⟨⟨u, x, hu, hx, of_decide_eq_true hstatus⟩, ⟨w, hw, hglance⟩, fun hagree => ?_⟩
  obtain ⟨v, hv, hlast⟩ := run_append_some.mp (show run step init
    ([.enqueueMany [exampleRecord "d" "https://example.com/hook"], .claimBatch 0 30 10 ["d"]] ++
      [.complete "d" .sent (exampleAttempt 1)]) = some w from hw)
  obtain ⟨w', hstep, hw'⟩ := run_cons_some.mp hlast
  cases hw'
  have hagree' : Along step Agrees init
    ([.enqueueMany [exampleRecord "d" "https://example.com/hook"], .claimBatch 0 30 10 ["d"]] ++
      [.complete "d" .sent (exampleAttempt 1)]) := hagree
  have hsame := (along_at hagree' hv).2 w hstep "d"
  rw [hglance.1, hglance.2] at hsame
  exact absurd hsame (by decide)

end WebhookEngine.Stores.Interchange
