import Mathlib.Logic.Function.Basic
import WebhookEngine.Dispatcher
import WebhookEngine.Lib.Run
import WebhookEngine.Stores.Queue

/-!
# Engines over one delivery store

`WebhookEngine.tick` of `engine.py` for a family of engines that share a delivery
store. A tick is `reclaim_stale`, `claim_batch`, then one `_dispatch_one` per
claimed record behind the gate; its steps interleave with those of the other
engines and, within the tick, dispatch by dispatch. A label carries what the outside
decides: the clock reading, whether a store call raises (without effect),
what the receiver answers. The log records what has been claimed, handed to `send`
and posted. The outcome callback, the counters of a tick and the log lines have no
part in this and are left out.

* `Life`: the abstract model, what the world holds about one delivery;
* `life_step`: a step of the world is a step of each of its lives;
* `life_invariant`: an invariant of the lives holds in every run of the world.
-/

namespace WebhookEngine.Engine

open Lib Dispatcher Stores.Queue

/-! ## One dispatch -/

/-- How far a `_dispatch_one` has got; `sending` and `posted` are inside `send`. -/
inductive Phase where
  | waiting
  | sending (ans : Answers)
  | posted (ans : Answers)
  | raised
  | burying (attempt : AttemptRecord)

/-- The task has entered the gate and not left it. -/
def Phase.holdsGate : Phase → Bool
  | .waiting => false
  | _ => true

/-- The next step of a dispatch. -/
inductive TaskAction where
  | start (ans : Answers)
  | post
  | settle (ok : Bool)
  | append (error : String) (ok : Bool)
  | bury (ok : Bool)

/-- A store call about the delivery. -/
abbrev Call := Completion × AttemptRecord

/-- The synthetic attempt of `_quarantine`. -/
def unhandled (r : DeliveryRecord) (now : Datetime) (error : String) : AttemptRecord where
  attempt := r.attempts + 1
  attemptedAt := now
  httpCode := none
  durationMs := 0
  error := some ("engine_unhandled:" ++ error)
  responseSnippet := ""

variable {py : Python}

/-- The end of `send`: its store transition, which may raise, or its own exception. -/
def settleStep (d : WebhookDispatcher py) (r : DeliveryRecord) (ans : Answers) (ok : Bool) :
    Option Call × Option Phase :=
  match (send d r ans).transition with
  | none => (none, some .raised)
  | some call => if ok then (some call, none) else (none, some .raised)

/-- One step of `_dispatch_one`: the store call it makes and the phase it leads to,
`none` when the dispatch has ended. -/
def dispatchStep (cfg : WebhookDispatchConfig) (d : WebhookDispatcher py) (r : DeliveryRecord)
    (now : Datetime) : Phase → TaskAction → Option (Option Call × Option Phase)
  | .waiting, .start ans => if ans.now = now then some (none, some (.sending ans)) else none
  | .sending ans, .post =>
    if (send d r ans).post.isSome then some (none, some (.posted ans)) else none
  | .sending ans, .settle ok =>
    if (send d r ans).post.isSome then none else some (settleStep d r ans ok)
  | .posted ans, .settle ok => some (settleStep d r ans ok)
  | .raised, .append error ok =>
    let attempt := unhandled r now error
    if ok then
      some (some (.append, attempt),
        if cfg.maxUnhandledAttempts ≤ attempt.attempt then some (.burying attempt) else none)
    else some (none, none)
  | .burying attempt, .bury ok => some (if ok then some (.dead, attempt) else none, none)
  | _, _ => none

/-- What one step of a dispatch can do. -/
inductive DispatchMoves (cfg : WebhookDispatchConfig) (d : WebhookDispatcher py)
    (r : DeliveryRecord) (now : Datetime) :
    Phase → TaskAction → Option Call → Option Phase → Prop where
  | start (ans : Answers) (hnow : ans.now = now) :
      DispatchMoves cfg d r now .waiting (.start ans) none (some (.sending ans))
  | post (ans : Answers) (hpost : (send d r ans).post.isSome = true) :
      DispatchMoves cfg d r now (.sending ans) .post none (some (.posted ans))
  | settled (phase : Phase) (ans : Answers) (call : Call)
      (hphase : phase = .sending ans ∨ phase = .posted ans)
      (hsend : (send d r ans).transition = some call) :
      DispatchMoves cfg d r now phase (.settle true) (some call) none
  | raised (phase : Phase) (ans : Answers) (ok : Bool)
      (hphase : phase = .sending ans ∨ phase = .posted ans)
      (hraised : ok = true → (send d r ans).transition = none) :
      DispatchMoves cfg d r now phase (.settle ok) none (some .raised)
  | exhausted (error : String) (hlimit : cfg.maxUnhandledAttempts ≤ r.attempts + 1) :
      DispatchMoves cfg d r now .raised (.append error true)
        (some (.append, unhandled r now error)) (some (.burying (unhandled r now error)))
  | left (error : String) (hlimit : r.attempts + 1 < cfg.maxUnhandledAttempts) :
      DispatchMoves cfg d r now .raised (.append error true)
        (some (.append, unhandled r now error)) none
  | appendRaised (error : String) :
      DispatchMoves cfg d r now .raised (.append error false) none none
  | buried (attempt : AttemptRecord) :
      DispatchMoves cfg d r now (.burying attempt) (.bury true) (some (.dead, attempt)) none
  | buryRaised (attempt : AttemptRecord) :
      DispatchMoves cfg d r now (.burying attempt) (.bury false) none none

theorem settle_moves {cfg : WebhookDispatchConfig} {d : WebhookDispatcher py} {r : DeliveryRecord}
    {now : Datetime} {phase : Phase} {ans : Answers} {ok : Bool} {call : Option Call}
    {phase' : Option Phase} (hphase : phase = .sending ans ∨ phase = .posted ans)
    (h : settleStep d r ans ok = (call, phase')) :
    DispatchMoves cfg d r now phase (.settle ok) call phase' := by
  rw [settleStep] at h
  split at h
  next htransition =>
    cases h
    exact .raised phase ans ok hphase fun _ => htransition
  next call' hsend =>
    cases ok with
    | false =>
      cases h
      exact .raised phase ans false hphase nofun
    | true =>
      cases h
      exact .settled phase ans call' hphase hsend

theorem dispatch_moves {cfg : WebhookDispatchConfig} {d : WebhookDispatcher py}
    {r : DeliveryRecord} {now : Datetime} {phase : Phase} {a : TaskAction} {call : Option Call}
    {phase' : Option Phase} (h : dispatchStep cfg d r now phase a = some (call, phase')) :
    DispatchMoves cfg d r now phase a call phase' := by
  rw [dispatchStep.eq_def] at h
  split at h
  next ans =>
    obtain ⟨hnow, h⟩ := Option.ite_none_right_eq_some.mp h
    cases h
    exact .start ans hnow
  next ans =>
    obtain ⟨hpost, h⟩ := Option.ite_none_right_eq_some.mp h
    cases h
    exact .post ans hpost
  next ans ok =>
    obtain ⟨-, h⟩ := Option.ite_none_left_eq_some.mp h
    exact settle_moves (Or.inl rfl) (Option.some_inj.mp h)
  next ans ok => exact settle_moves (Or.inr rfl) (Option.some_inj.mp h)
  next error ok =>
    cases ok with
    | false =>
      cases h
      exact .appendRaised error
    | true =>
      simp only [if_true] at h
      split at h
      case isTrue hlimit =>
        cases h
        exact .exhausted error hlimit
      case isFalse hlimit =>
        cases h
        exact .left error (not_le.mp hlimit)
  next attempt ok =>
    cases ok with
    | false =>
      cases h
      exact .buryRaised attempt
    | true =>
      cases h
      exact .buried attempt
  · cases h

/-! ## One tick -/

structure Task where
  record : DeliveryRecord
  phase : Phase

def Task.id (t : Task) : DeliveryId := t.record.deliveryId

def Task.withPhase (phase : Phase) (t : Task) : Task := { t with phase := phase }

/-- Where the tick of an engine stands; `inflight` holds the dispatches that have
not ended. -/
inductive Tick where
  | idle
  | reclaimed
  | dispatching (inflight : Table Task.id)

def Tick.inflight : Tick → Table Task.id
  | .dispatching tasks => tasks
  | _ => .empty

inductive Action where
  | reclaim (ok : Bool)
  | claim (pick : List DeliveryId) (ok : Bool)
  | task (id : DeliveryId) (a : TaskAction)
  | finish

/-- What has been claimed, handed to `send`, and posted, in this order each. -/
structure Log where
  claimed : List DeliveryRecord := []
  dispatched : List DeliveryRecord := []
  posted : List DeliveryRecord := []

def Log.append (l m : Log) : Log where
  claimed := l.claimed ++ m.claimed
  dispatched := l.dispatched ++ m.dispatched
  posted := l.posted ++ m.posted

/-- The part of the log about one delivery. -/
def Log.of (l : Log) (id : DeliveryId) : Log where
  claimed := l.claimed.filter (·.deliveryId = id)
  dispatched := l.dispatched.filter (·.deliveryId = id)
  posted := l.posted.filter (·.deliveryId = id)

def TaskAction.log (r : DeliveryRecord) : TaskAction → Log
  | .start _ => { dispatched := [r] }
  | .post => { posted := [r] }
  | _ => {}

def setTask (tasks : Table Task.id) (id : DeliveryId) : Option Phase → Table Task.id
  | none => tasks.erase id
  | some phase => tasks.modify id (Task.withPhase phase) fun _ => rfl

/-- How many tasks are inside the gate. -/
def active (tasks : Table Task.id) : Nat := (tasks.rows.filter (·.phase.holdsGate)).length

/-- The gate lets the step through: entering needs a free slot. -/
def passes (cfg : WebhookDispatchConfig) (tasks : Table Task.id) : TaskAction → Bool
  | .start _ => active tasks < cfg.workerConcurrency
  | _ => true

def execute (q : LeaseQueue) (s : q.State) (id : DeliveryId) : Option Call → Option q.State
  | none => some s
  | some (c, a) => q.complete s id c a

/-- The dispatches of a batch. -/
def waitingTasks (rs : List DeliveryRecord) : Table Task.id :=
  Table.empty.insertMany (rs.map fun r => ⟨r, .waiting⟩)

/-- One step of `tick`. -/
def Tick.step (q : LeaseQueue) (cfg : WebhookDispatchConfig) (d : WebhookDispatcher py)
    (s : q.State) (now : Datetime) : Tick → Action → Option (q.State × Tick × Log)
  | .idle, .reclaim ok => some (if ok then (q.reclaimStale s now).2 else s, .reclaimed, {})
  | .reclaimed, .claim pick ok =>
    if ok then
      (q.claimBatch s now cfg.leaseTtlS cfg.batchSize pick).map fun x =>
        (x.2, .dispatching (waitingTasks x.1), { claimed := x.1 })
    else some (s, .idle, {})
  | .dispatching tasks, .task id a =>
    (tasks.find? id).bind fun t =>
      if passes cfg tasks a then
        (dispatchStep cfg d t.record now t.phase a).bind fun x =>
          (execute q s id x.1).map fun s' =>
            (s', .dispatching (setTask tasks id x.2), a.log t.record)
      else none
  -- `gather` returns when every task has ended
  | .dispatching tasks, .finish => if tasks.rows = [] then some (s, .idle, {}) else none
  | _, _ => none

/-- What one step of a tick can do. -/
inductive Tick.Moves (q : LeaseQueue) (cfg : WebhookDispatchConfig) (d : WebhookDispatcher py)
    (s : q.State) (now : Datetime) : Tick → Action → q.State → Tick → Log → Prop where
  | reclaim : Moves q cfg d s now .idle (.reclaim true) (q.reclaimStale s now).2 .reclaimed {}
  | reclaimRaised : Moves q cfg d s now .idle (.reclaim false) s .reclaimed {}
  | claim (pick : List DeliveryId) (rs : List DeliveryRecord) (s' : q.State)
      (hclaim : q.claimBatch s now cfg.leaseTtlS cfg.batchSize pick = some (rs, s')) :
      Moves q cfg d s now .reclaimed (.claim pick true) s' (.dispatching (waitingTasks rs))
        { claimed := rs }
  | claimRaised (pick : List DeliveryId) :
      Moves q cfg d s now .reclaimed (.claim pick false) s .idle {}
  | task (tasks : Table Task.id) (id : DeliveryId) (a : TaskAction) (t : Task)
      (call : Option Call) (phase : Option Phase) (s' : q.State) (ht : tasks.find? id = some t)
      (hstep : dispatchStep cfg d t.record now t.phase a = some (call, phase))
      (hcall : execute q s id call = some s') :
      Moves q cfg d s now (.dispatching tasks) (.task id a) s'
        (.dispatching (setTask tasks id phase)) (a.log t.record)
  | finish (tasks : Table Task.id) (hempty : tasks.rows = []) :
      Moves q cfg d s now (.dispatching tasks) .finish s .idle {}

theorem tick_moves {q : LeaseQueue} {cfg : WebhookDispatchConfig} {d : WebhookDispatcher py}
    {s s' : q.State} {now : Datetime} {tk tk' : Tick} {a : Action} {l : Log}
    (h : Tick.step q cfg d s now tk a = some (s', tk', l)) :
    Tick.Moves q cfg d s now tk a s' tk' l := by
  rw [Tick.step.eq_def] at h
  split at h
  next ok =>
    cases ok with
    | false =>
      cases h
      exact .reclaimRaised
    | true =>
      cases h
      exact .reclaim
  next pick ok =>
    cases ok with
    | false =>
      cases h
      exact .claimRaised pick
    | true =>
      obtain ⟨⟨rs, s₁⟩, hclaim, hs⟩ := Option.map_eq_some_iff.mp h
      cases hs
      exact .claim pick rs s₁ hclaim
  next tasks id a =>
    obtain ⟨t, ht, h⟩ := Option.bind_eq_some_iff.mp h
    obtain ⟨-, h⟩ := Option.ite_none_right_eq_some.mp h
    obtain ⟨⟨call, phase⟩, hstep, h⟩ := Option.bind_eq_some_iff.mp h
    obtain ⟨s₁, hcall, hs⟩ := Option.map_eq_some_iff.mp h
    cases hs
    exact .task tasks id a t call phase _ ht hstep hcall
  next tasks =>
    obtain ⟨hempty, hs⟩ := Option.ite_none_right_eq_some.mp h
    cases hs
    exact .finish tasks hempty
  · cases h

/-! ## Engines over one store -/

variable {ι : Type} [DecidableEq ι]

inductive Label (ι : Type) where
  | enqueue (records : List DeliveryRecord)
  | act (i : ι) (now : Datetime) (a : Action)

/-- The store, the engines, and a record of what has happened. -/
structure World (q : LeaseQueue) (ι : Type) where
  store : q.State
  ticks : ι → Tick
  enqueued : Table DeliveryRecord.deliveryId
  log : Log

def init (q : LeaseQueue) (ι : Type) : World q ι := ⟨q.empty, fun _ => .idle, .empty, {}⟩

/-- Records for new deliveries: PENDING, each under an id of its own, as the callers'
`uuid4` makes them. -/
def fresh (known : Table DeliveryRecord.deliveryId) (rs : List DeliveryRecord) : Bool :=
  decide (rs.map (·.deliveryId)).Nodup &&
    rs.all fun r => decide (r.status = .pending) && (known.find? r.deliveryId).isNone

def step (q : LeaseQueue) (cfg : WebhookDispatchConfig) (d : WebhookDispatcher py)
    (w : World q ι) : Label ι → Option (World q ι)
  | .enqueue rs =>
    if fresh w.enqueued rs then
      (q.enqueueMany w.store rs).map fun s =>
        { w with store := s, enqueued := w.enqueued.insertMany rs }
    else none
  | .act i now a =>
    (Tick.step q cfg d w.store now (w.ticks i) a).map fun x =>
      { w with
        store := x.1, ticks := Function.update w.ticks i x.2.1, log := w.log.append x.2.2 }

/-! ## One delivery -/

/-- What a world holds about one delivery. -/
structure Life (ι : Type) where
  enqueued : DeliveryRecord
  job : Job
  task : ι → Option Task
  log : Log

/-- A delivery that has just been enqueued. -/
def Life.birth (r core : DeliveryRecord) : Life ι :=
  ⟨r, ⟨.pending, r.attempts, none, core⟩, fun _ => none, {}⟩

def settleJob (counter : Counter) : Option Call → Job → Job
  | none, j => j
  | some (c, a), j => c.settle counter a.attempt j

/-- The delivery whose dispatch a label advances. -/
def Label.dispatches : Label ι → Option DeliveryId
  | .act _ _ (.task id _) => some id
  | _ => none

/-- The steps of a delivery's life. -/
inductive Life.Step (q : LeaseQueue) (cfg : WebhookDispatchConfig) (d : WebhookDispatcher py)
    (id : DeliveryId) : Life ι → Label ι → Life ι → Prop where
  | stay (x : Life ι) (l : Label ι) (hother : l.dispatches ≠ some id) : Step q cfg d id x l x
  | reclaim (x : Life ι) (i : ι) (now e : Datetime) (st : DeliveryStatus) (hidle : x.task i = none)
      (hflight : x.job.status = .inFlight) (hlease : x.job.lease = some e)
      (hexpired : q.expired e now) (hst : st.claimable = true) :
      Step q cfg d id x (.act i now (.reclaim true))
        { x with job := { x.job with status := st, lease := none } }
  | claim (x : Life ι) (i : ι) (now e : Datetime) (pick : List DeliveryId) (r : DeliveryRecord)
      (hidle : x.task i = none) (hclaimable : x.job.status.claimable = true)
      (hattempts : r.attempts = x.job.attempts) (hcore : core r = x.job.core) :
      Step q cfg d id x (.act i now (.claim pick true))
        { x with
          job := { x.job with status := .inFlight, lease := some e }
          task := Function.update x.task i (some ⟨r, .waiting⟩)
          log := x.log.append { claimed := [r] } }
  | dispatch (x : Life ι) (i : ι) (now : Datetime) (a : TaskAction) (t : Task)
      (call : Option Call) (phase : Option Phase) (htask : x.task i = some t)
      (hstep : dispatchStep cfg d t.record now t.phase a = some (call, phase)) :
      Step q cfg d id x (.act i now (.task id a))
        { x with
          job := settleJob q.counter call x.job
          task := Function.update x.task i (phase.map (Task.mk t.record))
          log := x.log.append (a.log t.record) }

variable {q : LeaseQueue}

/-- The dispatch of `id` in engine `i`. -/
def World.task (w : World q ι) (i : ι) (id : DeliveryId) : Option Task :=
  (w.ticks i).inflight.find? id

/-- `x` is the life of `id` in `w`. -/
structure Lives (w : World q ι) (id : DeliveryId) (x : Life ι) : Prop where
  enqueued : w.enqueued.find? id = some x.enqueued
  job : q.view w.store id = some x.job
  task : ∀ i, w.task i id = x.task i
  log : w.log.of id = x.log

/-- Nothing is known of `id`. -/
structure Unborn (w : World q ι) (id : DeliveryId) : Prop where
  enqueued : w.enqueued.find? id = none
  job : q.view w.store id = none
  task : ∀ i, w.task i id = none
  log : w.log.of id = {}

omit [DecidableEq ι] in
theorem Lives.unique {w : World q ι} {id : DeliveryId} {x y : Life ι} (hx : Lives w id x)
    (hy : Lives w id y) : x = y := by
  have henqueued := hx.enqueued.symm.trans hy.enqueued
  have hjob := hx.job.symm.trans hy.job
  have htask : x.task = y.task := funext fun i => (hx.task i).symm.trans (hy.task i)
  have hlog := hx.log.symm.trans hy.log
  cases x
  cases y
  simp_all

/-! ### The log of one delivery -/

@[simp] theorem Log.append_empty (l : Log) : l.append {} = l := by
  simp [Log.append]

@[simp] theorem Log.of_empty (id : DeliveryId) : ({} : Log).of id = {} := rfl

theorem Log.of_append (l m : Log) (id : DeliveryId) :
    (l.append m).of id = (l.of id).append (m.of id) := by
  simp [Log.append, Log.of, List.filter_append]

theorem log_of_self (a : TaskAction) (r : DeliveryRecord) :
    (a.log r).of r.deliveryId = a.log r := by
  cases a <;> simp [TaskAction.log, Log.of]

theorem log_of_other (a : TaskAction) {r : DeliveryRecord} {id : DeliveryId}
    (h : r.deliveryId ≠ id) : (a.log r).of id = {} := by
  cases a <;> simp [TaskAction.log, Log.of, h]

theorem claimed_of_not_mem {rs : List DeliveryRecord} {id : DeliveryId}
    (h : ∀ r ∈ rs, r.deliveryId ≠ id) : ({ claimed := rs } : Log).of id = {} := by
  have hnil : rs.filter (·.deliveryId = id) = [] := by
    simpa [List.filter_eq_nil_iff] using h
  simp [Log.of, hnil]

theorem filter_key {rs : List DeliveryRecord} (hn : (rs.map (·.deliveryId)).Nodup)
    {r : DeliveryRecord} (hr : r ∈ rs) : rs.filter (·.deliveryId = r.deliveryId) = [r] := by
  induction rs with
  | nil => cases hr
  | cons x rs ih =>
    rw [List.map_cons, List.nodup_cons] at hn
    rcases List.mem_cons.mp hr with rfl | hr
    · have hrest : rs.filter (·.deliveryId = r.deliveryId) = [] := by
        rw [List.filter_eq_nil_iff]
        intro y hy he
        exact hn.1 (List.mem_map.mpr ⟨y, hy, by simpa using he⟩)
      rw [List.filter_cons_of_pos (by simp), hrest]
    · have hne : x.deliveryId ≠ r.deliveryId := fun he => hn.1 (he ▸ List.mem_map_of_mem hr)
      rw [List.filter_cons_of_neg (by simpa using hne), ih hn.2 hr]

theorem claimed_of_mem {rs : List DeliveryRecord} (hn : (rs.map (·.deliveryId)).Nodup)
    {r : DeliveryRecord} (hr : r ∈ rs) :
    ({ claimed := rs } : Log).of r.deliveryId = { claimed := [r] } := by
  rw [Log.of, filter_key hn hr]
  rfl

/-! ### The tasks of one delivery -/

theorem find?_waitingTasks (rs : List DeliveryRecord) (id : DeliveryId) :
    (waitingTasks rs).find? id =
      (rs.find? fun r => r.deliveryId = id).map fun r => ⟨r, .waiting⟩ := by
  rw [waitingTasks, Table.find?_insertMany, Table.find?_empty, Option.none_or, List.find?_map]
  rfl

theorem find?_setTask {tasks : Table Task.id} {id : DeliveryId} {t : Task}
    (h : tasks.find? id = some t) (phase : Option Phase) (id' : DeliveryId) :
    (setTask tasks id phase).find? id' =
      if id' = id then phase.map (Task.mk t.record) else tasks.find? id' := by
  cases phase with
  | none => exact Table.find?_erase tasks id id'
  | some phase =>
    refine (Table.find?_modify tasks id id' (Task.withPhase phase) fun _ => rfl).trans ?_
    split
    case isTrue he =>
      rw [he, h]
      rfl
    case isFalse => rfl

theorem task_update (w : World q ι) (s : q.State) (i : ι) (tk : Tick) (l : Log) (j : ι)
    (id : DeliveryId) :
    (⟨s, Function.update w.ticks i tk, w.enqueued, l⟩ : World q ι).task j id =
      if j = i then tk.inflight.find? id else w.task j id := by
  simp only [World.task, Function.update_apply]
  split <;> rfl

/-! ### Steps that do not touch a delivery -/

/-- `w` and `w'` hold the same about `id`. -/
structure Same (w w' : World q ι) (id : DeliveryId) : Prop where
  enqueued : w'.enqueued.find? id = w.enqueued.find? id
  job : q.view w'.store id = q.view w.store id
  task : ∀ i, w'.task i id = w.task i id
  log : w'.log.of id = w.log.of id

omit [DecidableEq ι] in
theorem Same.lives {w w' : World q ι} {id : DeliveryId} (h : Same w w' id) {x : Life ι}
    (hx : Lives w id x) : Lives w' id x :=
  ⟨h.enqueued.trans hx.enqueued, h.job.trans hx.job, fun i => (h.task i).trans (hx.task i),
    h.log.trans hx.log⟩

omit [DecidableEq ι] in
theorem Same.unborn {w w' : World q ι} {id : DeliveryId} (h : Same w w' id)
    (hu : Unborn w id) : Unborn w' id :=
  ⟨h.enqueued.trans hu.enqueued, h.job.trans hu.job, fun i => (h.task i).trans (hu.task i),
    h.log.trans hu.log⟩

theorem same_act {w : World q ι} {s : q.State} {i : ι} {tk : Tick} {l : Log} {id : DeliveryId}
    (hjob : q.view s id = q.view w.store id) (htask : tk.inflight.find? id = w.task i id)
    (hlog : l.of id = {}) :
    Same w ⟨s, Function.update w.ticks i tk, w.enqueued, w.log.append l⟩ id where
  enqueued := rfl
  job := hjob
  task j := by
    rw [task_update]
    split
    case isTrue hj => rw [htask, hj]
    case isFalse => rfl
  log := by rw [Log.of_append, hlog, Log.append_empty]

variable {cfg : WebhookDispatchConfig} {d : WebhookDispatcher py}

omit [DecidableEq ι] in
/-- An enqueue of other deliveries. -/
theorem same_enqueue {w : World q ι} {rs : List DeliveryRecord} {s : q.State} {id : DeliveryId}
    (hs : q.enqueueMany w.store rs = some s) (hid : ∀ r ∈ rs, r.deliveryId ≠ id) :
    Same w { w with store := s, enqueued := w.enqueued.insertMany rs } id where
  enqueued := by
    have hnone : rs.find? (fun r => r.deliveryId = id) = none := by
      simpa [List.find?_eq_none] using hid
    rw [Table.find?_insertMany, hnone, Option.or_none]
  job := q.view_enqueue_other _ _ _ _ hs hid
  task _ := rfl
  log := rfl

/-- A claim that does not return `id`. -/
theorem same_claim {w : World q ι} {i : ι} {now : Datetime} {pick : List DeliveryId}
    {rs : List DeliveryRecord} {s : q.State} {id : DeliveryId}
    (hs : q.claimBatch w.store now cfg.leaseTtlS cfg.batchSize pick = some (rs, s))
    (htask : w.task i id = none) (hid : ∀ r ∈ rs, r.deliveryId ≠ id) :
    Same w ⟨s, Function.update w.ticks i (.dispatching (waitingTasks rs)), w.enqueued,
      w.log.append { claimed := rs }⟩ id := by
  refine same_act ((q.view_claim _ _ _ _ _ _ _ hs).2.2 id hid) ?_ (claimed_of_not_mem hid)
  have hnone : rs.find? (fun r => r.deliveryId = id) = none := by
    simpa [List.find?_eq_none] using hid
  rw [htask, Tick.inflight, find?_waitingTasks, hnone, Option.map_none]

/-- A step of the dispatch of another delivery. -/
theorem same_task {w : World q ι} {i : ι} {tasks : Table Task.id}
    {id id' : DeliveryId} {t : Task} {a : TaskAction} {call : Option Call} {phase : Option Phase}
    {s : q.State} (htick : w.ticks i = .dispatching tasks) (ht : tasks.find? id' = some t)
    (hs : execute q w.store id' call = some s) (hne : id ≠ id') :
    Same w ⟨s, Function.update w.ticks i (.dispatching (setTask tasks id' phase)), w.enqueued,
      w.log.append (a.log t.record)⟩ id := by
  refine same_act ?_ ?_ ?_
  · cases call with
    | none =>
      cases hs
      rfl
    | some call => exact q.view_complete_other _ _ _ _ _ _ hs hne
  · rw [Tick.inflight, find?_setTask ht, if_neg hne, World.task, htick, Tick.inflight]
  · apply log_of_other
    have hkey : t.record.deliveryId = id' := show t.id = id' from Table.find?_key ht
    exact hkey ▸ hne.symm

/-- A delivery that a step leaves as it is lives on. -/
theorem Same.stays {w w' : World q ι} {id : DeliveryId} (h : Same w w' id) {x : Life ι}
    (hx : Lives w id x) {l : Label ι} (hl : l.dispatches ≠ some id) :
    ∃ x', Lives w' id x' ∧ Life.Step q cfg d id x l x' :=
  ⟨x, h.lives hx, .stay x l hl⟩

/-! ### Every step -/

theorem fresh_spec {known : Table DeliveryRecord.deliveryId} {rs : List DeliveryRecord}
    (h : fresh known rs = true) : (rs.map (·.deliveryId)).Nodup ∧
      ∀ r ∈ rs, r.status = .pending ∧ known.find? r.deliveryId = none := by
  simpa [fresh] using h

/-- A step at a delivery that is not known yet. -/
theorem unborn_step {w w' : World q ι} {l : Label ι} (h : step q cfg d w l = some w')
    {id : DeliveryId} (hu : Unborn w id) :
    Unborn w' id ∨ ∃ r c, r.deliveryId = id ∧ Lives w' id (Life.birth r c) := by
  cases l with
  | enqueue rs =>
    obtain ⟨hfresh, h⟩ := Option.ite_none_right_eq_some.mp h
    obtain ⟨s, hs, rfl⟩ := Option.map_eq_some_iff.mp h
    obtain ⟨hn, hrs⟩ := fresh_spec hfresh
    by_cases hid : ∃ r ∈ rs, r.deliveryId = id
    · obtain ⟨r, hr, rfl⟩ := hid
      obtain ⟨hpending, -⟩ := hrs r hr
      obtain ⟨c, -, hview⟩ := q.view_enqueue_new _ _ _ _ hs hn hr hpending hu.job
      refine Or.inr ⟨r, c, rfl, ?_, hview, hu.task, hu.log⟩
      rw [Table.find?_insertMany, hu.enqueued, Table.find?_rows hn hr, Option.none_or]
      rfl
    · have hother : ∀ r ∈ rs, r.deliveryId ≠ id := fun r hr he => hid ⟨r, hr, he⟩
      exact Or.inl ((same_enqueue hs hother).unborn hu)
  | act i now a =>
    left
    obtain ⟨⟨s, tk, lg⟩, hstep, rfl⟩ := Option.map_eq_some_iff.mp h
    have htask := hu.task i
    rw [World.task] at htask
    have hmoves := tick_moves hstep
    generalize htick : w.ticks i = tick at hmoves htask
    cases hmoves with
    | reclaim =>
      refine (same_act ?_ (by rw [World.task, htick]; rfl) (Log.of_empty id)).unborn hu
      rcases q.view_reclaim w.store now id with hview | ⟨j, -, -, hview, -⟩
      · exact hview
      · rw [hu.job] at hview
        cases hview
    | reclaimRaised =>
      exact (same_act rfl (by rw [World.task, htick]; rfl) (Log.of_empty id)).unborn hu
    | claim pick rs s' hclaim =>
      refine (same_claim hclaim (hu.task i) ?_).unborn hu
      rintro r hr rfl
      obtain ⟨j, -, hview, -⟩ := (q.view_claim _ _ _ _ _ _ _ hclaim).2.1 r hr
      rw [hu.job] at hview
      cases hview
    | claimRaised pick =>
      exact (same_act rfl (by rw [World.task, htick]; rfl) (Log.of_empty id)).unborn hu
    | task tasks id' a t call phase s' ht hdispatch hcall =>
      refine (same_task htick ht hcall ?_).unborn hu
      rintro rfl
      rw [Tick.inflight, ht] at htask
      cases htask
    | finish tasks hempty =>
      refine (same_act rfl ?_ (Log.of_empty id)).unborn hu
      rw [hu.task i]
      rfl

/-- **Simulation.** A step of the world is a step of the life of each delivery. -/
theorem life_step {w w' : World q ι} {l : Label ι} (h : step q cfg d w l = some w')
    {id : DeliveryId} {x : Life ι} (hx : Lives w id x) :
    ∃ x', Lives w' id x' ∧ Life.Step q cfg d id x l x' := by
  cases l with
  | enqueue rs =>
    obtain ⟨hfresh, h⟩ := Option.ite_none_right_eq_some.mp h
    obtain ⟨s, hs, rfl⟩ := Option.map_eq_some_iff.mp h
    obtain ⟨-, hrs⟩ := fresh_spec hfresh
    have hother : ∀ r ∈ rs, r.deliveryId ≠ id := by
      rintro r hr rfl
      have hnone := (hrs r hr).2
      rw [hx.enqueued] at hnone
      cases hnone
    exact (same_enqueue hs hother).stays hx (by simp [Label.dispatches])
  | act i now a =>
    obtain ⟨⟨s, tk, lg⟩, hstep, rfl⟩ := Option.map_eq_some_iff.mp h
    have htask := hx.task i
    rw [World.task] at htask
    have hmoves := tick_moves hstep
    generalize htick : w.ticks i = tick at hmoves htask
    cases hmoves with
    | reclaim =>
      have hidle : x.task i = none := htask.symm
      rcases q.view_reclaim w.store now id with hview | ⟨j, e, st, hj, hfl, he, hexp, hst, hview⟩
      · exact (same_act hview (by rw [World.task, htick]; rfl) (Log.of_empty id)).stays hx
          (by simp [Label.dispatches])
      · rw [hx.job] at hj
        cases hj
        refine ⟨_, ?_, .reclaim x i now e st hidle hfl he hexp hst⟩
        refine ⟨hx.enqueued, hview, fun j => ?_, ?_⟩
        · rw [task_update]
          split
          case isTrue hj =>
            rw [hj, hidle]
            rfl
          case isFalse => exact hx.task j
        · rw [Log.append_empty]
          exact hx.log
    | reclaimRaised =>
      exact (same_act rfl (by rw [World.task, htick]; rfl) (Log.of_empty id)).stays hx
        (by simp [Label.dispatches])
    | claim pick rs s' hclaim =>
      have hidle : x.task i = none := htask.symm
      by_cases hid : ∃ r ∈ rs, r.deliveryId = id
      · obtain ⟨r, hr, rfl⟩ := hid
        obtain ⟨hn, hin, -⟩ := q.view_claim _ _ _ _ _ _ _ hclaim
        obtain ⟨j, e, hj, hclaimable, hattempts, hcore, hview⟩ := hin r hr
        rw [hx.job] at hj
        cases hj
        refine ⟨_, ?_, .claim x i now e pick r hidle hclaimable hattempts hcore⟩
        refine ⟨hx.enqueued, hview, fun k => ?_, ?_⟩
        · simp only [task_update, Function.update_apply, Tick.inflight, find?_waitingTasks]
          split
          · rw [Table.find?_rows hn hr]
            rfl
          · exact hx.task k
        · rw [Log.of_append, hx.log, claimed_of_mem hn hr]
      · have hother : ∀ r ∈ rs, r.deliveryId ≠ id := fun r hr he => hid ⟨r, hr, he⟩
        exact (same_claim hclaim ((hx.task i).trans hidle) hother).stays hx
          (by simp [Label.dispatches])
    | claimRaised pick =>
      exact (same_act rfl (by rw [World.task, htick]; rfl) (Log.of_empty id)).stays hx
        (by simp [Label.dispatches])
    | task tasks id' a t call phase s' ht hdispatch hcall =>
      by_cases hne : id = id'
      · subst hne
        have hkey : t.record.deliveryId = id := show t.id = id from Table.find?_key ht
        rw [Tick.inflight, ht] at htask
        refine ⟨_, ?_, .dispatch x i now a t call phase htask.symm hdispatch⟩
        refine ⟨hx.enqueued, ?_, fun k => ?_, ?_⟩
        · cases call with
          | none =>
            cases hcall
            exact hx.job
          | some call =>
            obtain ⟨c, attempt⟩ := call
            exact q.view_complete w.store id c attempt x.job _ hx.job hcall
        · simp only [task_update, Function.update_apply, Tick.inflight, find?_setTask ht, if_true]
          split
          · rfl
          · exact hx.task k
        · rw [Log.of_append, hx.log, ← hkey, log_of_self]
      · exact (same_task htick ht hcall hne).stays hx fun he => hne (Option.some_inj.mp he).symm
    | finish tasks hempty =>
      have hnone : w.task i id = none := by
        rw [World.task, htick, Tick.inflight, Table.find?, hempty, List.find?_nil]
      refine (same_act rfl ?_ (Log.of_empty id)).stays hx (by simp [Label.dispatches])
      rw [hnone]
      rfl

/-! ## Runs -/

omit [DecidableEq ι] in
theorem unborn_init (q : LeaseQueue) (id : DeliveryId) : Unborn (init q ι) id :=
  ⟨rfl, q.view_empty id, fun _ => rfl, rfl⟩

variable {I : Life ι → Prop} {P : Life ι → Label ι → Prop} {id : DeliveryId}

/-- **Invariant rule.** `P` is a condition on the steps of the run. -/
theorem life_invariant (hbirth : ∀ r c, r.deliveryId = id → I (Life.birth r c))
    (hstep : ∀ x l x', I x → P x l → Life.Step q cfg d id x l x' → I x') {as : List (Label ι)}
    {w : World q ι}
    (hP : Run.Along (step q cfg d) (fun w l => ∀ x, Lives w id x → P x l) (init q ι) as)
    (hr : Run.run (step q cfg d) (init q ι) as = some w) :
    Unborn w id ∨ ∃ x, Lives w id x ∧ I x := by
  refine Run.run_preserves (I := fun w => Unborn w id ∨ ∃ x, Lives w id x ∧ I x) ?_ hP
    (Or.inl (unborn_init q id)) hr
  rintro u l v (hu | ⟨x, hx, hI⟩) hPu huv
  · rcases unborn_step huv hu with hv | ⟨r, c, hrid, hv⟩
    · exact Or.inl hv
    · exact Or.inr ⟨_, hv, hbirth r c hrid⟩
  · obtain ⟨x', hx', hs⟩ := life_step huv hx
    exact Or.inr ⟨x', hx', hstep x l x' hI (hPu x hx) hs⟩

/-- **Relation rule**, from any state in which the delivery lives. -/
theorem life_relates {R : Life ι → Life ι → Prop} (hrefl : ∀ x, R x x)
    (htrans : ∀ x y z, R x y → R y z → R x z)
    (hstep : ∀ x l x', I x → P x l → Life.Step q cfg d id x l x' → I x' ∧ R x x')
    {as : List (Label ι)} {w w' : World q ι} {x : Life ι}
    (hP : Run.Along (step q cfg d) (fun w l => ∀ x, Lives w id x → P x l) w as)
    (hx : Lives w id x) (hI : I x) (hr : Run.run (step q cfg d) w as = some w') :
    ∃ x', Lives w' id x' ∧ I x' ∧ R x x' := by
  refine Run.run_preserves (I := fun w => ∃ y, Lives w id y ∧ I y ∧ R x y) ?_ hP
    ⟨x, hx, hI, hrefl x⟩ hr
  rintro u l v ⟨y, hy, hIy, hR⟩ hPu huv
  obtain ⟨z, hz, hs⟩ := life_step huv hy
  obtain ⟨hIz, hRz⟩ := hstep y l z hIy (hPu y hy) hs
  exact ⟨z, hz, hIz, htrans x y z hR hRz⟩

end WebhookEngine.Engine
