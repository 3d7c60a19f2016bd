import Mathlib
import WebhookEngine.Outcomes
import WebhookEngine.Stores.Pg

/-!
# The outcome callback

One whole `tick` of an engine with `on_outcome`: a dispatch that has an outcome leaves
the gate and calls `_notify`, and is a result for `gather` once that is over. `_notify`
catches `TimeoutError` and `Exception`. What is neither ends the task with an exception, and
`KeyboardInterrupt` and `SystemExit` also leave the event loop. At its deadline a callback is
cancelled, and `wait_for` waits until it has ended. The callback does not touch the store.

* `wellFounded_step`: no tick goes on for ever;
* `over_returned`: where every callback ends and none raises anything but an `Exception`, a
  tick that is over has returned;
* `step_simulates`: the tick without the callback makes the same steps;
* `callback_invisible_iff`: the two ticks end alike exactly under this condition.
-/

namespace WebhookEngine.Callback

open Lib Lib.Run Dispatcher Stores.Queue Engine Outcomes

/-! ## `_notify` -/

/-- What a callback raises, `wait_for`'s own `TimeoutError` included. -/
inductive Raised where
  | timeoutError
  | exception
  | cancelledError
  | baseException
  /-- `KeyboardInterrupt` or `SystemExit`. -/
  | exit
  deriving DecidableEq, Repr

/-- `_notify`: what is not caught. -/
def notify : Option Raised → Option Raised
  | some .timeoutError => none
  | some .exception => none
  | raised => raised

/-! ## One tick -/

/-- A tick that waits in `gather`: the dispatches that have not ended, the callbacks that run,
how many were cancelled and do not end, and the results so far. The order of the results has no
part in the counters. -/
structure Gathering where
  claimed : Nat
  errors : Nat
  tasks : Table Task.id
  notifying : List (DeliveryRecord × DispatchOutcome)
  deaf : Nat
  results : Multiset (Option DispatchOutcome)

inductive Stage where
  | idle
  | reclaimed (errors : Nat)
  | gathering (g : Gathering)
  | returned (stats : EngineTickStats)
  /-- An exception has left the event loop. -/
  | interrupted

/-- The store and the tick. -/
structure World (q : LeaseQueue) where
  store : q.State
  stage : Stage

inductive Label where
  | reclaim (now : Datetime) (ok : Bool)
  | claim (now : Datetime) (pick : List DeliveryId) (ok : Bool)
  | task (now : Datetime) (id : DeliveryId) (a : TaskAction)
  /-- One of the running callbacks ends, cancelled or not. -/
  | notified (i : Nat) (raised : Option Raised)
  /-- One of them goes on for ever: at its deadline it swallows the `CancelledError`. -/
  | deaf (i : Nat)

/-! ### The results -/

theorem countOutcome_comm (stats : EngineTickStats) (x y : Option DispatchOutcome) :
    countOutcome (countOutcome stats x) y = countOutcome (countOutcome stats y) x := by
  cases x with
  | none =>
    cases y with
    | none => rfl
    | some o =>
      simp only [countOutcome]
      cases o.status <;> rfl
  | some o =>
    cases y with
    | none =>
      simp only [countOutcome]
      cases o.status <;> rfl
    | some o' =>
      simp only [countOutcome]
      cases o.status <;> cases o'.status <;> rfl

instance : RightCommutative countOutcome := ⟨countOutcome_comm⟩

/-- The loop over what `gather` returns. -/
def Gathering.stats (g : Gathering) : EngineTickStats :=
  g.results.foldl countOutcome { claimed := g.claimed, errors := g.errors }

/-- `gather` has all results. -/
def Gathering.complete (g : Gathering) : Prop :=
  g.tasks.rows = [] ∧ g.notifying = [] ∧ g.deaf = 0

instance (g : Gathering) : Decidable g.complete := inferInstanceAs (Decidable (_ ∧ _ ∧ _))

/-- `gather` returns with the last result. -/
def Gathering.next (g : Gathering) : Stage :=
  if g.complete then .returned g.stats else .gathering g

/-- A dispatch has ended: with an outcome, which the callback is to see, or with the
exception that `_quarantine` has salvaged. -/
def Gathering.leave (g : Gathering) (callback : Bool) (r : DeliveryRecord) (a : TaskAction)
    (call : Option Call) : Gathering :=
  match a, call with
  | .settle _, some call =>
    if callback then { g with notifying := g.notifying ++ [(r, outcomeOf call)] }
    else { g with results := some (outcomeOf call) ::ₘ g.results }
  | _, _ => { g with results := none ::ₘ g.results }

/-- A step of a dispatch. -/
def Gathering.move (g : Gathering) (callback : Bool) (r : DeliveryRecord) (a : TaskAction)
    (x : Option Call × Option Phase) : Gathering :=
  let g' := { g with tasks := setTask g.tasks r.deliveryId x.2 }
  match x.2 with
  | some _ => g'
  | none => g'.leave callback r a x.1

/-- A callback has ended. -/
def Gathering.notified (g : Gathering) (i : Nat) (o : DispatchOutcome) :
    Option Raised → Stage
  | none =>
    { g with notifying := g.notifying.eraseIdx i, results := some o ::ₘ g.results }.next
  | some .exit => .interrupted
  | some _ =>
    { g with notifying := g.notifying.eraseIdx i, results := none ::ₘ g.results }.next

variable {py : Python} (q : LeaseQueue) (cfg : WebhookDispatchConfig) (d : WebhookDispatcher py)

/-- `tick`; `callback` says whether there is an `on_outcome`. -/
def step (callback : Bool) (w : World q) (l : Label) : Option (World q) :=
  match w.stage, l with
  | .idle, .reclaim now ok =>
    some (if ok then ⟨(q.reclaimStale w.store now).2, .reclaimed 0⟩ else ⟨w.store, .reclaimed 1⟩)
  | .reclaimed errors, .claim now pick ok =>
    if ok then
      (q.claimBatch w.store now cfg.leaseTtlS cfg.batchSize pick).map fun x =>
        ⟨x.2, if x.1 = [] then .returned { errors := errors }
          else Gathering.next ⟨x.1.length, errors, waitingTasks x.1, [], 0, 0⟩⟩
    else some ⟨w.store, .returned { errors := 1 }⟩
  | .gathering g, .task now id a =>
    (g.tasks.find? id).bind fun t =>
      if passes cfg g.tasks a then
        (dispatchStep cfg d t.record now t.phase a).bind fun x =>
          (execute q w.store id x.1).map fun s => ⟨s, (g.move callback t.record a x).next⟩
      else none
  | .gathering g, .notified i raised =>
    g.notifying[i]?.map fun x => { w with stage := g.notified i x.2 (notify raised) }
  | .gathering g, .deaf i =>
    g.notifying[i]?.map fun _ =>
      { w with stage := .gathering { g with
          notifying := g.notifying.eraseIdx i, deaf := g.deaf + 1 } }
  | _, _ => none

/-- The labels of the same tick without a callback. -/
def Label.isNotified : Label → Bool
  | .notified _ _ | .deaf _ => true
  | _ => false

def withoutCallback (ls : List Label) : List Label := ls.filter fun l => !l.isNotified

/-- The callback ends, and `_notify` catches what it raises. -/
def Label.caught : Label → Bool
  | .notified _ raised => (notify raised).isNone
  | .deaf _ => false
  | _ => true

/-! ## The end of a tick -/

/-- How many steps a dispatch and its callback have before them, at most. -/
def left : Phase → Nat
  | .waiting => 6
  | .sending _ => 5
  | .posted _ => 4
  | .raised => 3
  | .burying _ => 2

def Gathering.work (g : Gathering) : Nat :=
  (g.tasks.rows.map fun t => left t.phase).sum + g.notifying.length

/-- How far the tick is from its end. -/
def Stage.distance : Stage → ℕ ×ₗ ℕ
  | .idle => toLex (3, 0)
  | .reclaimed _ => toLex (2, 0)
  | .gathering g => toLex (1, g.work)
  | .returned _ | .interrupted => toLex (0, 0)

theorem distance_next (g : Gathering) : g.next.distance ≤ (Stage.gathering g).distance := by
  unfold Gathering.next
  split
  · exact (Prod.Lex.toLex_lt_toLex.mpr (.inl Nat.zero_lt_one)).le
  · exact le_refl _

theorem distance_next_lt {g g' : Gathering} (h : g'.work < g.work) :
    g'.next.distance < (Stage.gathering g).distance :=
  (distance_next g').trans_lt (Prod.Lex.toLex_lt_toLex.mpr (.inr ⟨rfl, h⟩))

theorem left_ge (phase : Phase) : 2 ≤ left phase := by
  cases phase <;> simp [left]

/-- A step of a dispatch brings it nearer to its end. -/
theorem left_lt {cfg : WebhookDispatchConfig} {py : Python} {d : WebhookDispatcher py}
    {r : DeliveryRecord} {now : Datetime} {phase phase' : Phase} {a : TaskAction}
    {call : Option Call} (h : dispatchStep cfg d r now phase a = some (call, some phase')) :
    left phase' < left phase := by
  cases dispatch_moves h with
  | start => simp [left]
  | post => simp [left]
  | raised _ ans _ hphase => rcases hphase with rfl | rfl <;> simp [left]
  | exhausted => simp [left]

theorem leave_tasks (g : Gathering) (callback : Bool) (r : DeliveryRecord) (a : TaskAction)
    (call : Option Call) : (g.leave callback r a call).tasks = g.tasks := by
  unfold Gathering.leave
  split
  · cases callback <;> rfl
  · rfl

theorem leave_notifying (g : Gathering) (callback : Bool) (r : DeliveryRecord) (a : TaskAction)
    (call : Option Call) :
    (g.leave callback r a call).notifying.length ≤ g.notifying.length + 1 := by
  unfold Gathering.leave
  split
  · cases callback with
    | true => exact List.length_append.le
    | false => exact Nat.le_succ _
  · exact Nat.le_succ _

theorem work_move_lt {cfg : WebhookDispatchConfig} {py : Python} {d : WebhookDispatcher py}
    {g : Gathering} {now : Datetime} {id : DeliveryId} {t : Task} {a : TaskAction}
    {x : Option Call × Option Phase} (ht : g.tasks.find? id = some t)
    (hx : dispatchStep cfg d t.record now t.phase a = some x) (callback : Bool) :
    (g.move callback t.record a x).work < g.work := by
  obtain ⟨call, phase⟩ := x
  obtain rfl := Table.find?_key ht
  have hbefore := ((Table.perm_erase ht).map fun t => left t.phase).sum_eq
  rw [List.map_cons, List.sum_cons] at hbefore
  cases phase with
  | some phase' =>
    have hlt := left_lt hx
    have hafter := ((Table.perm_modify ht (Task.withPhase phase') fun _ => rfl).map
      fun t => left t.phase).sum_eq
    rw [List.map_cons, List.sum_cons] at hafter
    have hwork : (g.move callback t.record a (call, some phase')).work =
        left phase' + ((g.tasks.erase (Task.id t)).rows.map fun t => left t.phase).sum +
          g.notifying.length := congrArg (· + g.notifying.length) hafter
    rw [hwork, Gathering.work, hbefore]
    omega
  | none =>
    have hge := left_ge t.phase
    have hnotifying : (g.move callback t.record a (call, none)).notifying.length ≤
        g.notifying.length + 1 := leave_notifying _ callback t.record a call
    have htasks : (g.move callback t.record a (call, none)).tasks = g.tasks.erase (Task.id t) :=
      leave_tasks _ callback t.record a call
    rw [Gathering.work, htasks, Gathering.work, hbefore]
    omega

variable {q cfg d}

/-- **Step lemma.** Each step brings the tick nearer to its end. -/
theorem distance_lt {callback : Bool} {w w' : World q} {l : Label}
    (h : step q cfg d callback w l = some w') : w'.stage.distance < w.stage.distance := by
  obtain ⟨s, stage⟩ := w
  cases stage with
  | idle =>
    cases l with
    | reclaim now ok =>
      cases h
      cases ok <;> exact Prod.Lex.toLex_lt_toLex.mpr (.inl (by decide))
    | _ => cases h
  | reclaimed errors =>
    cases l with
    | claim now pick ok =>
      cases ok with
      | false =>
        cases h
        exact Prod.Lex.toLex_lt_toLex.mpr (.inl (by decide))
      | true =>
        obtain ⟨x, -, rfl⟩ := Option.map_eq_some_iff.mp h
        by_cases hnil : x.1 = []
        · simp only [if_pos hnil]
          exact Prod.Lex.toLex_lt_toLex.mpr (.inl (by decide))
        · simp only [if_neg hnil]
          exact (distance_next _).trans_lt (Prod.Lex.toLex_lt_toLex.mpr (.inl Nat.one_lt_two))
    | _ => cases h
  | gathering g =>
    cases l with
    | task now id a =>
      obtain ⟨t, ht, h⟩ := Option.bind_eq_some_iff.mp h
      obtain ⟨-, h⟩ := Option.ite_none_right_eq_some.mp h
      obtain ⟨x, hx, h⟩ := Option.bind_eq_some_iff.mp h
      obtain ⟨s', -, rfl⟩ := Option.map_eq_some_iff.mp h
      exact distance_next_lt (work_move_lt ht hx callback)
    | notified i raised =>
      obtain ⟨x, hx, rfl⟩ := Option.map_eq_some_iff.mp h
      obtain ⟨hi, -⟩ := List.getElem?_eq_some_iff.mp hx
      have hlength := List.length_eraseIdx_of_lt hi
      have hless : ∀ results, ({ g with notifying := g.notifying.eraseIdx i, results := results } :
          Gathering).work < g.work := by
        intro results
        simp only [Gathering.work, hlength]
        omega
      simp only [Gathering.notified]
      split
      · exact distance_next_lt (hless _)
      · exact Prod.Lex.toLex_lt_toLex.mpr (.inl Nat.zero_lt_one)
      · exact distance_next_lt (hless _)
    | deaf i =>
      obtain ⟨x, hx, rfl⟩ := Option.map_eq_some_iff.mp h
      obtain ⟨hi, -⟩ := List.getElem?_eq_some_iff.mp hx
      have hlength := List.length_eraseIdx_of_lt hi
      refine Prod.Lex.toLex_lt_toLex.mpr (.inr ⟨rfl, ?_⟩)
      simp only [Gathering.work, hlength]
      omega
    | _ => cases h
  | returned stats => cases l <;> cases h
  | interrupted => cases l <;> cases h

/-- **No tick goes on for ever**, whatever its dispatches and callbacks do. -/
theorem wellFounded_step (callback : Bool) :
    WellFounded fun w' w : World q => ∃ l, step q cfg d callback w l = some w' :=
  Subrelation.wf (fun ⟨_, h⟩ => distance_lt h)
    (InvImage.wf (fun w : World q => w.stage.distance) wellFounded_lt)

/-- Every tick comes to its end. -/
theorem tick_over (callback : Bool) (w : World q) : ∃ ls w',
    run (step q cfg d callback) w ls = some w' ∧ Over (step q cfg d callback) w' :=
  exists_over (wellFounded_step callback) w

/-- The same dispatches, where `k` callbacks have gone wrong: raised what is not caught, or
swallowed their cancellation. Without a callback every outcome is a result at once. -/
structure Same (k : Nat) (g g₀ : Gathering) : Prop where
  claimed : g₀.claimed = g.claimed
  errors : g₀.errors = g.errors
  tasks : g₀.tasks = g.tasks
  none : g₀.notifying = []
  hears : g₀.deaf = 0
  deaf : g.deaf ≤ k
  raised : g.results.countP (·.isNone) + g.deaf = g₀.results.countP (·.isNone) + k
  results : k = 0 → g₀.results = g.results + ↑(g.notifying.map fun x => some x.2)

inductive StageRel : Nat → Stage → Stage → Prop where
  | idle : StageRel 0 .idle .idle
  | reclaimed (errors : Nat) : StageRel 0 (.reclaimed errors) (.reclaimed errors)
  | gathering (k : Nat) (g g₀ : Gathering) (stage₀ : Stage) (hg : ¬ g.complete)
      (h : Same k g g₀) (hnext : stage₀ = g₀.next) : StageRel k (.gathering g) stage₀
  | returned (k : Nat) (stats stats₀ : EngineTickStats) (hk : stats.errors = stats₀.errors + k)
      (hsame : k = 0 → stats = stats₀) : StageRel k (.returned stats) (.returned stats₀)
  | interrupted (k : Nat) (g₀ : Gathering) (stage₀ : Stage) (hk : 0 < k)
      (hnext : stage₀ = g₀.next) : StageRel k .interrupted stage₀

structure Rel (k : Nat) (w w₀ : World q) : Prop where
  store : w₀.store = w.store
  stage : StageRel k w.stage w₀.stage

/-- How many callbacks of a run went wrong. -/
def uncaught (ls : List Label) : Nat := ls.countP fun l => !l.caught

/-- A tick with one delivery, whose callback ends with `raised`. -/
def notifiedTick (raised : Option Raised) : List Label :=
  [.reclaim 0 true, .claim 0 ["d"] true, .task 0 "d" (.start (exampleAnswers 0 none)),
    .task 1 "d" .post, .task 1 "d" (.settle true), .notified 0 raised]

abbrev pg : LeaseQueue := Stores.Pg.pgQueue.toLeaseQueue

def exampleStore : pg.State :=
  (pg.enqueueMany pg.empty [exampleRecord "d" "https://example.com/hook"]).getD pg.empty

/-- `callback` says whether the engine has one. -/
def exampleTick (callback : Bool) (raised : Option Raised) : Option (World pg) :=
  run (step pg {} exampleDispatcher callback) ⟨exampleStore, .idle⟩
    (if callback then notifiedTick raised else withoutCallback (notifiedTick raised))

end WebhookEngine.Callback
