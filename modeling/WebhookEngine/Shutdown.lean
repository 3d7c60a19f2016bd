import Mathlib.Algebra.Order.Ring.Rat
import WebhookEngine.Lib.Asyncio
import WebhookEngine.Lib.Run
import WebhookEngine.Types

/-!
# Shutting the service down

The lifespan of `service/app.py`, the tick loop of `service/worker.py` and
`WebhookEngine.drain`, with a clock. The tick loop awaits a sleep, a call of the store or the
`gather` over the deliveries of its batch. On shutdown the lifespan cancels the loop,
awaits its end, and then drains.

* `drain_finds_nothing`: when `drain` begins, no delivery is in flight;
* `deliveries_kept_iff`: no delivery is cancelled before its time, and none that would end
  in time is lost, exactly when none is in flight at the shutdown.
-/

namespace WebhookEngine.Shutdown

open Lib Lib.Run Lib.Asyncio

/-- What the task of `run_tick_loop` awaits; once cancelled, it awaits the children of the
`gather` it was in, and ends. -/
inductive TickLoop where
  | sleeping
  | calling
  | gathering
  | cancelling
  | ended
  deriving DecidableEq

/-- Where the lifespan stands, and since when it shuts down. -/
inductive Lifespan where
  | serving
  | stopping (since : ℚ)
  | draining (since from_ : ℚ)
  | closed (since : ℚ)
  deriving DecidableEq

def Lifespan.since : Lifespan → Option ℚ
  | .serving => none
  | .stopping since => some since
  | .draining since _ => some since
  | .closed since => some since

/-- `deliveries` are the tasks of the batch, `past` those of the batches before. -/
structure Service where
  now : ℚ
  loop : TickLoop
  deliveries : Gather DeliveryId
  past : List (Child DeliveryId)
  lifespan : Lifespan

def init : Service := ⟨0, .sleeping, .empty, [], .serving⟩

inductive Label where
  | pass (dt : ℚ)
  | wake
  | claimed (batch : List (DeliveryId × ℚ))
  | finish (id : DeliveryId)
  | gathered
  | shutdown
  | loopEnded
  | stopped
  | drained
  | timedOut
  deriving DecidableEq

/-- The tasks of a batch, with the time that each send takes. -/
def tasksOf (now : ℚ) (batch : List (DeliveryId × ℚ)) : Gather DeliveryId :=
  Table.empty.insertMany (batch.map fun x => ⟨x.1, now + x.2, .running⟩)

def step (drainTimeoutS : ℚ) (s : Service) : Label → Option Service
  | .pass dt => if 0 ≤ dt then some { s with now := s.now + dt } else none
  | .wake => if s.loop = .sleeping then some { s with loop := .calling } else none
  -- `claim_batch` returns; a call that raises is a tick without a batch
  | .claimed batch =>
    if s.loop = .calling then
      if batch = [] then some { s with loop := .sleeping }
      else some { s with loop := .gathering, deliveries := tasksOf s.now batch }
    else none
  | .finish id =>
    if (s.deliveries.find? id).any fun t => !t.done && decide (t.due ≤ s.now) then
      some { s with deliveries := s.deliveries.modify id (Child.finish s.now) fun _ => rfl }
    else none
  | .gathered =>
    if s.loop = .gathering ∧ gathered s.deliveries = true then
      some { s with
        loop := .sleeping, deliveries := .empty, past := s.past ++ s.deliveries.rows }
    else none
  -- `task.cancel()` for the tick loop: its `gather` cancels the deliveries
  | .shutdown =>
    if s.lifespan = .serving then
      if s.loop = .gathering then
        some { s with
          lifespan := .stopping s.now, loop := .cancelling,
          deliveries := cancelAll s.now s.deliveries }
      else some { s with lifespan := .stopping s.now, loop := .ended }
    else none
  | .loopEnded =>
    if s.loop = .cancelling ∧ gathered s.deliveries = true then some { s with loop := .ended }
    else none
  | .stopped =>
    match s.lifespan with
    | .stopping since =>
      if s.loop = .ended then some { s with lifespan := .draining since s.now } else none
    | _ => none
  | .drained =>
    match s.lifespan with
    | .draining since _ =>
      if gathered s.deliveries = true then some { s with lifespan := .closed since } else none
    | _ => none
  -- `wait_for` runs out of time and cancels what it waits for
  | .timedOut =>
    match s.lifespan with
    | .draining since from_ =>
      if gathered s.deliveries = false ∧ from_ + drainTimeoutS ≤ s.now then
        some { s with lifespan := .closed since, deliveries := cancelAll s.now s.deliveries }
      else none
    | _ => none

/-- `engine._inflight`. -/
def Service.inflight (s : Service) : List (Child DeliveryId) := unfinished s.deliveries

def Service.tasks (s : Service) : List (Child DeliveryId) := s.past ++ s.deliveries.rows

/-- No delivery is cancelled before `drain_timeout_s` has passed since the shutdown, and each
whose send would end by then has ended when the lifespan closes. -/
def Kept (drainTimeoutS : ℚ) (s : Service) : Prop :=
  ∀ x ∈ s.tasks,
    (∀ t, x.fate = .cancelled t → ∃ since, s.lifespan.since = some since ∧
      since + drainTimeoutS ≤ t) ∧
    ∀ since, s.lifespan = .closed since → x.due ≤ since + drainTimeoutS →
      ∃ t, x.fate = .returned t

/-- A shutdown finds no delivery in flight. -/
def Quiet (s : Service) (a : Label) : Prop := a = .shutdown → s.inflight = []

instance (s : Service) (a : Label) : Decidable (Quiet s a) :=
  inferInstanceAs (Decidable (a = .shutdown → s.inflight = []))

/-! ## What the loop leaves -/

/-- Deliveries are in flight under a `gather` of the tick loop alone. -/
structure Inv (s : Service) : Prop where
  past : ∀ x ∈ s.past, x.done = true
  idle : s.loop = .sleeping ∨ s.loop = .calling → s.deliveries.rows = []
  ended : s.loop = .cancelling ∨ s.loop = .ended → gathered s.deliveries = true
  stopped : s.lifespan ≠ .serving → s.loop = .cancelling ∨ s.loop = .ended

theorem inv_init : Inv init where
  past x hx := by cases hx
  idle _ := rfl
  ended _ := rfl
  stopped h := absurd rfl h

theorem Inv.gathered_of_stopped {s : Service} (h : Inv s) (hl : s.lifespan ≠ .serving) :
    gathered s.deliveries = true := h.ended (h.stopped hl)

/-- A loop that still ticks belongs to a lifespan that serves. -/
theorem Inv.serving {s : Service} (h : Inv s)
    (hloop : s.loop = .sleeping ∨ s.loop = .calling ∨ s.loop = .gathering) :
    s.lifespan = .serving := by
  by_contra hl
  rcases h.stopped hl with hstop | hstop <;> rcases hloop with hloop | hloop | hloop <;>
    exact absurd (hstop.symm.trans hloop) (by simp)

/-- Outside its `gather` the loop leaves nothing in flight. -/
theorem Inv.gathered_of_not_gathering {s : Service} (h : Inv s) (hloop : s.loop ≠ .gathering) :
    gathered s.deliveries = true := by
  cases hc : s.loop with
  | sleeping => simp [Asyncio.gathered, h.idle (Or.inl hc)]
  | calling => simp [Asyncio.gathered, h.idle (Or.inr hc)]
  | gathering => exact absurd hc hloop
  | cancelling => exact h.ended (Or.inl hc)
  | ended => exact h.ended (Or.inr hc)

/-- A task may be cancelled the moment the lifespan shuts down. -/
def Hurt (s : Service) : Prop :=
  ∃ x ∈ s.tasks, ∃ since, s.lifespan.since = some since ∧ x.fate = .cancelled since

/-- No task has been cancelled. -/
def Calm (s : Service) : Prop := ∀ x ∈ s.tasks, ∀ t, x.fate ≠ .cancelled t

variable {drainTimeoutS : ℚ}

/-- What one step can do. -/
inductive Moves (drainTimeoutS : ℚ) (s : Service) : Label → Service → Prop where
  | clock (dt : ℚ) : Moves drainTimeoutS s (.pass dt) { s with now := s.now + dt }
  | wake (hloop : s.loop = .sleeping) : Moves drainTimeoutS s .wake { s with loop := .calling }
  | noBatch (hloop : s.loop = .calling) :
      Moves drainTimeoutS s (.claimed []) { s with loop := .sleeping }
  | batch (b : List (DeliveryId × ℚ)) (hloop : s.loop = .calling) :
      Moves drainTimeoutS s (.claimed b)
        { s with loop := .gathering, deliveries := tasksOf s.now b }
  | finish (id : DeliveryId) (t : Child DeliveryId) (ht : s.deliveries.find? id = some t)
      (hdone : t.done = false) :
      Moves drainTimeoutS s (.finish id)
        { s with deliveries := s.deliveries.modify id (Child.finish s.now) fun _ => rfl }
  | gathered (hloop : s.loop = .gathering) (hall : gathered s.deliveries = true) :
      Moves drainTimeoutS s .gathered
        { s with loop := .sleeping, deliveries := .empty, past := s.past ++ s.deliveries.rows }
  | shutGathering (hl : s.lifespan = .serving) (hloop : s.loop = .gathering) :
      Moves drainTimeoutS s .shutdown
        { s with
          lifespan := .stopping s.now, loop := .cancelling,
          deliveries := cancelAll s.now s.deliveries }
  | shutIdle (hl : s.lifespan = .serving) (hloop : s.loop ≠ .gathering) :
      Moves drainTimeoutS s .shutdown { s with lifespan := .stopping s.now, loop := .ended }
  | loopEnded (hloop : s.loop = .cancelling) (hall : gathered s.deliveries = true) :
      Moves drainTimeoutS s .loopEnded { s with loop := .ended }
  | stopped (since : ℚ) (hl : s.lifespan = .stopping since) (hloop : s.loop = .ended) :
      Moves drainTimeoutS s .stopped { s with lifespan := .draining since s.now }
  | drained (since from_ : ℚ) (hl : s.lifespan = .draining since from_) :
      Moves drainTimeoutS s .drained { s with lifespan := .closed since }
  | timedOut (since from_ : ℚ) (hl : s.lifespan = .draining since from_)
      (hall : gathered s.deliveries = false) :
      Moves drainTimeoutS s .timedOut
        { s with lifespan := .closed since, deliveries := cancelAll s.now s.deliveries }

theorem moves {s s' : Service} {a : Label} (h : step drainTimeoutS s a = some s') :
    Moves drainTimeoutS s a s' := by
  cases a with
  | pass dt =>
    obtain ⟨-, h⟩ := Option.ite_none_right_eq_some.mp h
    cases h
    exact .clock dt
  | wake =>
    obtain ⟨hloop, h⟩ := Option.ite_none_right_eq_some.mp h
    cases h
    exact .wake hloop
  | claimed b =>
    obtain ⟨hloop, h⟩ := Option.ite_none_right_eq_some.mp h
    split at h
    case isTrue hb =>
      cases h
      subst hb
      exact .noBatch hloop
    case isFalse =>
      cases h
      exact .batch b hloop
  | finish id =>
    obtain ⟨hany, h⟩ := Option.ite_none_right_eq_some.mp h
    cases h
    obtain ⟨t, ht, hdue⟩ := (Option.any_eq_true _ _).mp hany
    simp only [Bool.and_eq_true, Bool.not_eq_true'] at hdue
    exact .finish id t ht hdue.1
  | gathered =>
    obtain ⟨⟨hloop, hall⟩, h⟩ := Option.ite_none_right_eq_some.mp h
    cases h
    exact .gathered hloop hall
  | shutdown =>
    obtain ⟨hl, h⟩ := Option.ite_none_right_eq_some.mp h
    split at h
    case isTrue hloop =>
      cases h
      exact .shutGathering hl hloop
    case isFalse hloop =>
      cases h
      exact .shutIdle hl hloop
  | loopEnded =>
    obtain ⟨⟨hloop, hall⟩, h⟩ := Option.ite_none_right_eq_some.mp h
    cases h
    exact .loopEnded hloop hall
  | stopped =>
    simp only [step] at h
    split at h
    next since hl =>
      obtain ⟨hloop, h⟩ := Option.ite_none_right_eq_some.mp h
      cases h
      exact .stopped since hl hloop
    · cases h
  | drained =>
    simp only [step] at h
    split at h
    next since from_ hl =>
      obtain ⟨-, h⟩ := Option.ite_none_right_eq_some.mp h
      cases h
      exact .drained since from_ hl
    · cases h
  | timedOut =>
    simp only [step] at h
    split at h
    next since from_ hl =>
      obtain ⟨⟨hall, -⟩, h⟩ := Option.ite_none_right_eq_some.mp h
      cases h
      exact .timedOut since from_ hl hall
    · cases h

/-- A step keeps the invariant. -/
theorem inv_step {s s' : Service} {a : Label} (hs : Inv s)
    (h : step drainTimeoutS s a = some s') : Inv s' := by
  cases moves h with
  | clock dt => exact ⟨hs.past, hs.idle, hs.ended, hs.stopped⟩
  | wake hloop =>
    refine ⟨hs.past, fun _ => hs.idle (Or.inl hloop), by simp, fun hl => ?_⟩
    exact absurd (hs.serving (Or.inl hloop)) hl
  | noBatch hloop =>
    refine ⟨hs.past, fun _ => hs.idle (Or.inr hloop), by simp, fun hl => ?_⟩
    exact absurd (hs.serving (Or.inr (Or.inl hloop))) hl
  | batch b hloop =>
    refine ⟨hs.past, by simp, by simp, fun hl => ?_⟩
    exact absurd (hs.serving (Or.inr (Or.inl hloop))) hl
  | finish id t ht hdone =>
    have hin := (Table.find?_eq_some.mp ht).1
    refine ⟨hs.past, fun hloop => ?_, fun hloop => ?_, hs.stopped⟩
    · rw [hs.idle hloop] at hin
      cases hin
    · rw [gathered_iff.mp (hs.ended hloop) t hin] at hdone
      cases hdone
  | gathered hloop hall =>
    refine ⟨fun x hx => ?_, fun _ => rfl, by simp, fun hl => ?_⟩
    · rcases List.mem_append.mp hx with hx | hx
      · exact hs.past x hx
      · exact gathered_iff.mp hall x hx
    · exact absurd (hs.serving (Or.inr (Or.inr hloop))) hl
  | shutGathering hl hloop =>
    exact ⟨hs.past, by simp, fun _ => gathered_cancel _ _, fun _ => Or.inl rfl⟩
  | shutIdle hl hloop =>
    exact ⟨hs.past, by simp, fun _ => hs.gathered_of_not_gathering hloop, fun _ => Or.inr rfl⟩
  | loopEnded hloop hall => exact ⟨hs.past, by simp, fun _ => hall, fun _ => Or.inr rfl⟩
  | stopped since hl hloop =>
    exact ⟨hs.past, hs.idle, hs.ended, fun _ => Or.inr hloop⟩
  | drained since from_ hl =>
    exact ⟨hs.past, hs.idle, hs.ended, fun _ => hs.stopped (by rw [hl]; simp)⟩
  | timedOut since from_ hl hall =>
    rw [hs.gathered_of_stopped (by rw [hl]; simp)] at hall
    cases hall

/-- **`drain` finds nothing to wait for.** -/
theorem drain_finds_nothing {as : List Label} {s : Service}
    (h : run (step drainTimeoutS) init as = some s) {since from_ : ℚ}
    (hl : s.lifespan = .draining since from_) : s.inflight = [] := by
  have hs : Inv s := run_invariant (fun _ _ _ hu hv => inv_step hu hv) inv_init h
  exact unfinished_eq_nil.mpr (hs.gathered_of_stopped (by rw [hl]; simp))

/-! ## What a shutdown cancels -/

theorem mem_tasks {s : Service} {x : Child DeliveryId} :
    x ∈ s.tasks ↔ x ∈ s.past ∨ x ∈ s.deliveries.rows := List.mem_append

theorem running_tasksOf {now : ℚ} {b : List (DeliveryId × ℚ)} {x : Child DeliveryId}
    (hx : x ∈ (tasksOf now b).rows) : x.fate = .running := by
  have hfind := Table.find?_of_mem hx
  rw [tasksOf, Table.find?_insertMany, Table.find?_empty, Option.none_or] at hfind
  obtain ⟨y, -, rfl⟩ := List.mem_map.mp (List.mem_of_find?_eq_some hfind)
  rfl

/-- A finish changes the task it is about, and no other. -/
theorem mem_finish {g : Gather DeliveryId} {now : ℚ} {id : DeliveryId} {x : Child DeliveryId} :
    x ∈ (g.modify id (Child.finish now) fun _ => rfl).rows ↔
      (∃ y ∈ g.rows, y.id = id ∧ y.finish now = x) ∨ x ∈ g.rows ∧ x.id ≠ id := by
  simp only [Table.modify, Table.update, List.mem_map, decide_eq_true_eq]
  constructor
  · rintro ⟨y, hy, rfl⟩
    by_cases hid : y.id = id
    · exact Or.inl ⟨y, hy, hid, by rw [if_pos hid]⟩
    · exact Or.inr (by rw [if_neg hid]; exact ⟨hy, hid⟩)
  · rintro (⟨y, hy, hid, rfl⟩ | ⟨hx, hid⟩)
    · exact ⟨y, hy, if_pos hid⟩
    · exact ⟨x, hx, if_neg hid⟩

/-- What is cancelled at the shutdown stays so. -/
theorem hurt_step {s s' : Service} {a : Label} (hs : Inv s)
    (h : step drainTimeoutS s a = some s') (hhurt : Hurt s) : Hurt s' := by
  obtain ⟨x, hx, since, hsince, hfate⟩ := hhurt
  have hstopped : s.lifespan ≠ .serving := by
    intro hl
    rw [hl] at hsince
    cases hsince
  cases moves h with
  | clock dt => exact ⟨x, hx, since, hsince, hfate⟩
  | wake hloop => exact ⟨x, hx, since, hsince, hfate⟩
  | noBatch hloop => exact ⟨x, hx, since, hsince, hfate⟩
  | batch b hloop => exact absurd (hs.serving (Or.inr (Or.inl hloop))) hstopped
  | finish id t ht hdone =>
    have hall := gathered_iff.mp (hs.gathered_of_stopped hstopped)
    rw [hall t (Table.find?_eq_some.mp ht).1] at hdone
    cases hdone
  | gathered hloop hall =>
    refine ⟨x, mem_tasks.mpr (Or.inl ?_), since, hsince, hfate⟩
    exact List.mem_append.mpr (mem_tasks.mp hx)
  | shutGathering hl hloop => exact absurd hl hstopped
  | shutIdle hl hloop => exact absurd hl hstopped
  | loopEnded hloop hall => exact ⟨x, hx, since, hsince, hfate⟩
  | stopped since' hl hloop =>
    rw [hl] at hsince
    exact ⟨x, hx, since, hsince, hfate⟩
  | drained since' from_ hl =>
    rw [hl] at hsince
    exact ⟨x, hx, since, hsince, hfate⟩
  | timedOut since' from_ hl hall =>
    rw [hs.gathered_of_stopped hstopped] at hall
    cases hall

/-- A quiet step cancels nothing. -/
theorem calm_step {s s' : Service} {a : Label} (hs : Inv s) (hcalm : Calm s) (hquiet : Quiet s a)
    (h : step drainTimeoutS s a = some s') : Calm s' := by
  intro x hx t
  cases moves h with
  | clock dt => exact hcalm x hx t
  | wake hloop => exact hcalm x hx t
  | noBatch hloop => exact hcalm x hx t
  | batch b hloop =>
    rcases mem_tasks.mp hx with hx | hx
    · exact hcalm x (mem_tasks.mpr (Or.inl hx)) t
    · rw [running_tasksOf hx]
      simp
  | finish id t₀ ht hdone =>
    rcases mem_tasks.mp hx with hx | hx
    · exact hcalm x (mem_tasks.mpr (Or.inl hx)) t
    · rcases mem_finish.mp hx with ⟨y, -, -, rfl⟩ | ⟨hx, -⟩
      · simp [Child.finish]
      · exact hcalm x (mem_tasks.mpr (Or.inr hx)) t
  | gathered hloop hall =>
    rcases mem_tasks.mp hx with hx | hx
    · exact hcalm x (List.mem_append.mpr (List.mem_append.mp hx)) t
    · cases hx
  | shutGathering hl hloop =>
    have hall := unfinished_eq_nil.mp (hquiet rfl)
    rcases mem_tasks.mp hx with hx | hx
    · exact hcalm x (mem_tasks.mpr (Or.inl hx)) t
    · exact hcalm x (mem_tasks.mpr (Or.inr ((cancel_of_gathered hall).mp hx))) t
  | shutIdle hl hloop => exact hcalm x hx t
  | loopEnded hloop hall => exact hcalm x hx t
  | stopped since hl hloop => exact hcalm x hx t
  | drained since from_ hl => exact hcalm x hx t
  | timedOut since from_ hl hall =>
    rw [hs.gathered_of_stopped (by rw [hl]; simp)] at hall
    cases hall

/-- A shutdown with deliveries in flight cancels them on the spot. -/
theorem hurt_shutdown {s s' : Service} (hs : Inv s) (hin : s.inflight ≠ [])
    (h : step drainTimeoutS s .shutdown = some s') : Hurt s' := by
  obtain ⟨x, hx⟩ := List.exists_mem_of_ne_nil _ hin
  obtain ⟨hx, hrunning⟩ := List.mem_filter.mp hx
  simp only [Bool.not_eq_true'] at hrunning
  cases moves h with
  | shutGathering hl hloop =>
    exact ⟨x.cancel s.now, mem_tasks.mpr (Or.inr (mem_cancelAll.mpr ⟨x, hx, rfl⟩)), s.now, rfl,
      cancel_of_running hrunning⟩
  | shutIdle hl hloop =>
    have hnone : s.inflight = [] := unfinished_eq_nil.mpr (hs.gathered_of_not_gathering hloop)
    exact absurd hnone hin

theorem calm_init : Calm init := by
  intro x hx
  cases hx

/-- Along a run, nothing is cancelled at the shutdown exactly when it finds nothing. -/
theorem unhurt_iff_quiet {as : List Label} {s : Service}
    (h : run (step drainTimeoutS) init as = some s) :
    Along (step drainTimeoutS) (fun u a => ∀ v, step drainTimeoutS u a = some v → ¬ Hurt v)
      init as ↔ Along (step drainTimeoutS) Quiet init as := by
  refine along_iff (I := fun u => Inv u ∧ Calm u) (fun u a v hu hstep => ?_)
    (fun u a v hu hquiet hstep => ⟨inv_step hu.1 hstep, calm_step hu.1 hu.2 hquiet hstep⟩)
    ⟨inv_init, calm_init⟩ h
  constructor
  · rintro hunhurt rfl
    by_contra hin
    exact hunhurt v hstep (hurt_shutdown hu.1 hin hstep)
  · rintro hquiet w hw ⟨x, hx, since, -, hfate⟩
    exact calm_step hu.1 hu.2 hquiet hw x hx since hfate

/-- **When a shutdown keeps its promise**: no delivery is cancelled before the drain timeout
has passed, and none that would end in time is lost, exactly in the runs whose shutdown
finds no delivery in flight. -/
theorem deliveries_kept_iff (drainTimeoutS : ℚ) (hpos : 0 < drainTimeoutS) (as : List Label)
    (s : Service) (h : run (step drainTimeoutS) init as = some s) :
    Kept drainTimeoutS s ↔ Along (step drainTimeoutS) Quiet init as := by
  constructor
  · intro hkept
    have hunhurt : ¬ Hurt s := by
      rintro ⟨x, hx, since, hsince, hfate⟩
      obtain ⟨since', hsince', hle⟩ := (hkept x hx).1 since hfate
      rw [hsince] at hsince'
      cases hsince'
      exact absurd hle (not_le.mpr (lt_add_of_pos_right since hpos))
    exact (unhurt_iff_quiet h).mp (along_of_last
      (fun u a v hu hstep => ⟨inv_step hu hstep, mt (hurt_step hu hstep)⟩) inv_init h hunhurt).2
  · intro hquiet
    obtain ⟨hs, hcalm⟩ := run_preserves (I := fun u => Inv u ∧ Calm u)
      (fun u a v hu ha hstep => ⟨inv_step hu.1 hstep, calm_step hu.1 hu.2 ha hstep⟩) hquiet
      ⟨inv_init, calm_init⟩ h
    intro x hx
    refine ⟨fun t ht => absurd ht (hcalm x hx t), fun since hl hdue => ?_⟩
    have hdone : x.done = true := by
      rcases mem_tasks.mp hx with hx | hx
      · exact hs.past x hx
      · exact gathered_iff.mp (hs.gathered_of_stopped (by rw [hl]; simp)) x hx
    cases hfate : x.fate with
    | running => simp [Child.done, hfate] at hdone
    | returned t => exact ⟨t, rfl⟩
    | cancelled t => exact absurd hfate (hcalm x hx t)

/-- A delivery of one second ends before the shutdown. -/
theorem deliveries_kept_iff_idle_shutdown : ∃ s,
    run (step 10) init [.wake, .claimed [("d", 1)], .pass 1, .finish "d", .gathered, .shutdown,
      .stopped, .drained] = some s ∧ Kept 10 s := by
  obtain ⟨s, hs⟩ := Option.isSome_iff_exists.mp (by decide +kernel :
    (run (step 10) init [.wake, .claimed [("d", 1)], .pass 1, .finish "d", .gathered, .shutdown,
      .stopped, .drained]).isSome = true)
  exact ⟨s, hs, (deliveries_kept_iff 10 (by decide +kernel) _ s hs).mpr (by decide +kernel)⟩

/-- A delivery of one second is in flight at the shutdown: it is cancelled on the spot, ten
seconds before its time. -/
theorem inflight_cancelled_at_shutdown : ∃ s,
    run (step 10) init [.wake, .claimed [("d", 1)], .shutdown, .loopEnded, .stopped,
      .drained] = some s ∧ s.tasks = [⟨"d", 1, .cancelled 0⟩] ∧ ¬ Kept 10 s := by
  obtain ⟨s, hs, hlast⟩ := (Option.any_eq_true ..).mp (by decide +kernel :
    (run (step 10) init [.wake, .claimed [("d", 1)], .shutdown, .loopEnded, .stopped,
      .drained]).any (fun s => decide (s.tasks = [⟨"d", 1, .cancelled 0⟩] ∧
        s.lifespan.since = some 0)) = true)
  obtain ⟨htasks, hsince⟩ := of_decide_eq_true hlast
  refine ⟨s, hs, htasks, fun hkept => ?_⟩
  obtain ⟨since, hsince', hle⟩ := (hkept _ (by rw [htasks]; exact List.mem_cons_self ..)).1 0 rfl
  rw [hsince] at hsince'
  cases hsince'
  exact absurd hle (by decide +kernel)

end WebhookEngine.Shutdown
