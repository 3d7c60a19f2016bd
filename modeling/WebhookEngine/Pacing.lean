import Mathlib.Data.List.Range
import WebhookEngine.Engine

/-!
# The attempts counter of a delivery

As long as no reclaim frees a delivery that is still waiting or being sent, and
every dispatch that ends without a terminal status leaves the counter one higher,
a delivery has one dispatch at a time, and its dispatches are handed the counters
`a`, `a + 1`, `a + 2`, … from the `a` it was enqueued with.

* `Paced`: the invariant, about the life of one delivery;
* `paced_step`: an orderly step keeps it.
-/

namespace WebhookEngine.Pacing

open Lib Dispatcher Stores.Queue Engine

variable {py : Python} {ι : Type} {q : LeaseQueue} {cfg : WebhookDispatchConfig}
  {d : WebhookDispatcher py} {id : DeliveryId}

/-- `n` is the counter the next dispatch is to be handed. `more c n` says that a
delivery with columns `c` may be dispatched again after attempt number `n`. -/
def Due (more : DeliveryRecord → Nat → Prop) (x : Life ι) (n : Nat) : Prop :=
  n = x.enqueued.attempts + x.log.dispatched.length ∧
    (x.log.dispatched = [] ∨ more x.job.core n)

/-- `r` is the record of the last dispatch. -/
def Last (x : Life ι) (r : DeliveryRecord) : Prop :=
  r ∈ x.log.dispatched ∧ x.enqueued.attempts + x.log.dispatched.length = r.attempts + 1

/-- The current dispatch fits the counter. -/
def Current (more : DeliveryRecord → Nat → Prop) (x : Life ι) (t : Task) : Prop :=
  match t.phase with
  | .waiting => x.job.attempts = t.record.attempts ∧ Due more x t.record.attempts
  | .burying _ => Last x t.record
  | _ => x.job.attempts = t.record.attempts ∧ Last x t.record

/-- The dispatches so far: consecutive counters, and each but the first one allowed. -/
structure Logged (more : DeliveryRecord → Nat → Prop) (x : Life ι) : Prop where
  numbered : x.log.dispatched.map (·.attempts) =
    List.range' x.enqueued.attempts x.log.dispatched.length
  cores : ∀ r ∈ x.log.dispatched, core r = x.job.core
  allowed : ∀ r ∈ x.log.dispatched, r.attempts = x.enqueued.attempts ∨ more x.job.core r.attempts

/-- One dispatch at a time. -/
structure Paced (more : DeliveryRecord → Nat → Prop) (x : Life ι) : Prop extends Logged more x where
  unique : ∀ i j t u, x.task i = some t → x.task j = some u → i = j
  held : ∀ i t, x.task i = some t →
    x.job.status = .inFlight ∧ core t.record = x.job.core ∧ Current more x t
  free : (∀ i, x.task i = none) → x.job.status.terminal = false → Due more x x.job.attempts

/-- A dispatch of `r` that ends with this store call leaves the counter one
higher or the delivery terminal. -/
def EndsWell (counter : Counter) (more : DeliveryRecord → Nat → Prop) (r : DeliveryRecord) :
    Option Call → Prop
  | none => False
  | some (.retry _, _) => more (core r) (r.attempts + 1)
  | some (.append, _) => counter .append r.attempts (r.attempts + 1) = r.attempts + 1 ∧
      more (core r) (r.attempts + 1)
  | some _ => True

/-- The condition on a step, as far as it concerns the delivery `id`. -/
def Orderly (q : LeaseQueue) (cfg : WebhookDispatchConfig) (d : WebhookDispatcher py)
    (more : DeliveryRecord → Nat → Prop) (id : DeliveryId) (x : Life ι) : Label ι → Prop
  | .act i now (.reclaim true) => x.task i = none →
    (∃ e, x.job.lease = some e ∧ q.expired e now) → ∀ j, x.task j = none
  | .act i now (.task id' a) => id' = id → ∀ t call, x.task i = some t →
    dispatchStep cfg d t.record now t.phase a = some (call, none) →
      EndsWell q.counter more t.record call
  | _ => True

theorem paced_birth (more : DeliveryRecord → Nat → Prop) (r c : DeliveryRecord) :
    Paced more (Life.birth r c : Life ι) where
  numbered := rfl
  cores _ h := by cases h
  allowed _ h := by cases h
  unique _ _ _ _ h := by cases h
  held _ _ h := by cases h
  free _ _ := ⟨rfl, Or.inl rfl⟩

variable {more : DeliveryRecord → Nat → Prop}

/-- The log counts the dispatches of a delivery whose columns stay. -/
theorem Logged.congr {x y : Life ι} (hx : Logged more x) (henqueued : y.enqueued = x.enqueued)
    (hcore : y.job.core = x.job.core) (hlog : y.log.dispatched = x.log.dispatched) :
    Logged more y where
  numbered := by rw [hlog, henqueued, hx.numbered]
  cores := by rw [hlog, hcore]; exact hx.cores
  allowed := by rw [hlog, henqueued, hcore]; exact hx.allowed

/-- One more dispatch, of a record that was due. -/
theorem Logged.snoc {x y : Life ι} (hx : Logged more x) {r : DeliveryRecord}
    (henqueued : y.enqueued = x.enqueued) (hcore : y.job.core = x.job.core)
    (hlog : y.log.dispatched = x.log.dispatched ++ [r]) (hr : core r = x.job.core)
    (hdue : Due more x r.attempts) : Logged more y where
  numbered := by
    rw [hlog, henqueued, List.map_append, hx.numbered, List.length_append, List.map_singleton,
      List.length_singleton, List.range'_concat, Nat.one_mul, hdue.1]
  cores := by
    rw [hlog, hcore]
    intro r' hr'
    rcases List.mem_append.mp hr' with hr' | hr'
    · exact hx.cores r' hr'
    · rw [List.mem_singleton.mp hr']
      exact hr
  allowed := by
    rw [hlog, henqueued, hcore]
    intro r' hr'
    rcases List.mem_append.mp hr' with hr' | hr'
    · exact hx.allowed r' hr'
    · rw [List.mem_singleton.mp hr']
      refine hdue.2.imp (fun hnil => ?_) id
      rw [hdue.1, hnil, List.length_nil, Nat.add_zero]

theorem paced_reclaim {x : Life ι} (hx : Paced more x) {st : DeliveryStatus}
    (hnone : ∀ i, x.task i = none) (hflight : x.job.status = .inFlight) :
    Paced more { x with job := { x.job with status := st, lease := none } } where
  toLogged := hx.toLogged.congr rfl rfl rfl
  unique := hx.unique
  held i t ht := by
    rw [hnone i] at ht
    cases ht
  free _ _ := hx.free hnone (by rw [hflight]; rfl)

/-- Only the start of a dispatch is logged as one. -/
theorem dispatched_log (l l' : Log) (h : l'.dispatched = []) :
    (l.append l').dispatched = l.dispatched := by
  rw [Log.append, h, List.append_nil]

/-- While engine `i` dispatches the delivery, no other engine does. -/
theorem Paced.others {x : Life ι} (hx : Paced more x) {i : ι} {t : Task}
    (htask : x.task i = some t) : ∀ j, j ≠ i → x.task j = none := by
  intro j hj
  cases hu : x.task j with
  | none => rfl
  | some u => exact absurd (hx.unique j i u t hu htask) hj

/-- A delivery that can be claimed is not being dispatched. -/
theorem Paced.idle_of_claimable {x : Life ι} (hx : Paced more x)
    (hclaimable : x.job.status.claimable = true) (j : ι) : x.task j = none := by
  cases hj : x.task j with
  | none => rfl
  | some t =>
    rw [(hx.held j t hj).1] at hclaimable
    cases hclaimable

variable [DecidableEq ι]

/-- A dispatch that only engine `i` has after a step, in the phase `phase`. -/
theorem Paced.only {x : Life ι} {i : ι} (hothers : ∀ j, j ≠ i → x.task j = none)
    {task : Option Task} {j : ι} {u : Task} (hu : Function.update x.task i task j = some u) :
    j = i ∧ task = some u := by
  rw [Function.update_apply] at hu
  split at hu
  case isTrue hj => exact ⟨hj, hu⟩
  case isFalse hj =>
    rw [hothers j hj] at hu
    cases hu

/-- **Frame.** A step of the only engine that dispatches the delivery: what is left to
show is about that engine's dispatch. -/
theorem paced_of_task {x y : Life ι} {i : ι} {task : Option Task} (hlogged : Logged more y)
    (hothers : ∀ j, j ≠ i → x.task j = none) (htask : y.task = Function.update x.task i task)
    (hheld : ∀ u, task = some u →
      y.job.status = .inFlight ∧ core u.record = y.job.core ∧ Current more y u)
    (hfree : task = none → y.job.status.terminal = false → Due more y y.job.attempts) :
    Paced more y where
  toLogged := hlogged
  unique j k t u ht hu := by
    rw [htask] at ht hu
    exact (Paced.only hothers ht).1.trans (Paced.only hothers hu).1.symm
  held j u hu := by
    rw [htask] at hu
    exact hheld u (Paced.only hothers hu).2
  free hnone hterminal := by
    have hi := hnone i
    rw [htask, Function.update_self] at hi
    exact hfree hi hterminal

/-- A step after which engine `i` dispatches `u`. -/
theorem paced_continue {x y : Life ι} {i : ι} {u : Task} (hlogged : Logged more y)
    (hothers : ∀ j, j ≠ i → x.task j = none) (htask : y.task = Function.update x.task i (some u))
    (hflight : y.job.status = .inFlight) (hcore : core u.record = y.job.core)
    (hcurrent : Current more y u) : Paced more y := by
  refine paced_of_task hlogged hothers htask ?_ fun hnone => by cases hnone
  intro v hv
  cases hv
  exact ⟨hflight, hcore, hcurrent⟩

/-- A step with which the dispatch ends. -/
theorem paced_end {x y : Life ι} {i : ι} (hlogged : Logged more y)
    (hothers : ∀ j, j ≠ i → x.task j = none) (htask : y.task = Function.update x.task i none)
    (hfree : y.job.status.terminal = false → Due more y y.job.attempts) : Paced more y :=
  paced_of_task hlogged hothers htask (fun _ hu => by cases hu) fun _ => hfree

theorem paced_claim {x : Life ι} (hx : Paced more x) {i : ι} {e : Datetime} {r : DeliveryRecord}
    (hclaimable : x.job.status.claimable = true) (hattempts : r.attempts = x.job.attempts)
    (hcore : core r = x.job.core) :
    Paced more
      { x with
        job := { x.job with status := .inFlight, lease := some e }
        task := Function.update x.task i (some ⟨r, .waiting⟩)
        log := x.log.append { claimed := [r] } } := by
  have hnone := hx.idle_of_claimable hclaimable
  have hterminal : x.job.status.terminal = false := by
    cases hst : x.job.status <;> simp_all [DeliveryStatus.claimable, DeliveryStatus.terminal]
  have hlog : (x.log.append { claimed := [r] }).dispatched = x.log.dispatched :=
    dispatched_log x.log _ rfl
  refine paced_continue (hx.toLogged.congr rfl rfl hlog) (fun j _ => hnone j) rfl rfl hcore
    ⟨hattempts.symm, ?_⟩
  simpa only [Due, hlog, hattempts] using hx.free hnone hterminal

omit [DecidableEq ι] in
/-- The end of a dispatch. -/
theorem due_of_endsWell {x : Life ι} {r : DeliveryRecord} {c : Completion} {a : AttemptRecord}
    {job : Job} (hjob : job = c.settle q.counter a.attempt x.job)
    (hattempts : x.job.attempts = r.attempts) (hreport : a.attempt = r.attempts + 1)
    (hcore : core r = x.job.core)
    (hlast : Last x r) (hends : EndsWell q.counter more r (some (c, a)))
    (hterminal : job.status.terminal = false) :
    job.attempts = x.enqueued.attempts + x.log.dispatched.length ∧
      more x.job.core job.attempts := by
  subst hjob
  rw [settle_attempts, hlast.2, hattempts, hreport, ← hcore]
  cases c with
  | sent => cases hterminal
  | dead => cases hterminal
  | retry t =>
    rw [q.counter_retry]
    exact ⟨rfl, hends⟩
  | append =>
    rw [hends.1]
    exact ⟨rfl, hends.2⟩

/-- A step with which the dispatch asks the store for a last change. -/
theorem paced_settle {x : Life ι} (hx : Paced more x) {i : ι} {t : Task} (htask : x.task i = some t)
    {c : Completion} {a : AttemptRecord} {l : Log} (hl : l.dispatched = [])
    (hattempts : x.job.attempts = t.record.attempts) (hreport : a.attempt = t.record.attempts + 1)
    (hlast : Last x t.record) (hends : EndsWell q.counter more t.record (some (c, a))) :
    Paced more
      { x with
        job := settleJob q.counter (some (c, a)) x.job
        task := Function.update x.task i none
        log := x.log.append l } := by
  have hlog := dispatched_log x.log l hl
  refine paced_end (hx.toLogged.congr rfl (settle_core ..) hlog) (hx.others htask) rfl ?_
  intro hterminal
  obtain ⟨hnext, hmore⟩ := due_of_endsWell rfl hattempts hreport (hx.held i t htask).2.1 hlast
    hends hterminal
  refine ⟨?_, Or.inr ?_⟩
  · rw [hlog]
    exact hnext
  · rwa [settleJob, settle_core]

/-- **Step lemma.** -/
theorem paced_step {x y : Life ι} {l : Label ι} (hx : Paced more x)
    (hl : Orderly q cfg d more id x l) (h : Life.Step q cfg d id x l y) : Paced more y := by
  cases h with
  | stay => exact hx
  | reclaim i now e st hidle hflight hlease hexpired hst =>
    exact paced_reclaim hx (hl hidle ⟨e, hlease, hexpired⟩) hflight
  | claim i now e pick r hidle hclaimable hattempts hcore =>
    exact paced_claim hx hclaimable hattempts hcore
  | dispatch i now a t call phase htask hstep =>
    obtain ⟨hflight, hcore, hcurrent⟩ := hx.held i t htask
    have hends := hl rfl t call htask
    have hothers := hx.others htask
    have hmoves := dispatch_moves hstep
    obtain ⟨r, ph⟩ := t
    simp only at hmoves hstep hcurrent hcore hends
    cases hmoves with
    | start ans hnow =>
      obtain ⟨hattempts, hdue⟩ := hcurrent
      refine paced_continue (hx.toLogged.snoc rfl rfl rfl hcore hdue) hothers rfl hflight hcore
        ⟨hattempts, ?_⟩
      have hnext : r.attempts = x.enqueued.attempts + x.log.dispatched.length := hdue.1
      refine ⟨List.mem_append_right _ (List.mem_singleton_self r), ?_⟩
      simp only [Log.append, TaskAction.log, List.length_append, List.length_singleton]
      omega
    | post ans hpost =>
      have hlog := dispatched_log x.log (TaskAction.post.log r) rfl
      refine paced_continue (hx.toLogged.congr rfl rfl hlog) hothers rfl hflight hcore ?_
      simpa only [Current, Last, settleJob, hlog] using hcurrent
    | settled phase ans call hphase hsend =>
      obtain ⟨c, attempt⟩ := call
      have hsending : x.job.attempts = r.attempts ∧ Last x r := by
        rcases hphase with rfl | rfl <;> exact hcurrent
      exact paced_settle hx htask rfl hsending.1 (send_transition hsend).attempt hsending.2
        (hends hstep)
    | raised phase ans ok hphase hraised =>
      have hlog := dispatched_log x.log ((TaskAction.settle ok).log r) rfl
      refine paced_continue (hx.toLogged.congr rfl rfl hlog) hothers rfl hflight hcore ?_
      rcases hphase with rfl | rfl <;> simpa only [Current, Last, settleJob, hlog] using hcurrent
    | exhausted error hlimit =>
      have hlog := dispatched_log x.log ((TaskAction.append error true).log r) rfl
      refine paced_continue (hx.toLogged.congr rfl (settle_core ..) hlog) hothers rfl hflight
        (hcore.trans (settle_core ..).symm) ?_
      simpa only [Current, Last, hlog] using hcurrent.2
    | left error hlimit =>
      exact paced_settle hx htask rfl hcurrent.1 rfl hcurrent.2 (hends hstep)
    | appendRaised error => exact (hends hstep).elim
    | buried attempt =>
      have hlog := dispatched_log x.log ((TaskAction.bury true).log r) rfl
      exact paced_end (hx.toLogged.congr rfl (settle_core ..) hlog) hothers rfl
        fun hterminal => by cases hterminal
    | buryRaised attempt => exact (hends hstep).elim

/-! ## Bounds -/

omit [DecidableEq ι] in
/-- The counter handed to a dispatch is at least the one the delivery came with. -/
theorem Logged.le_attempts {x : Life ι} (hx : Logged more x) {r : DeliveryRecord}
    (hr : r ∈ x.log.dispatched) : x.enqueued.attempts ≤ r.attempts ∧
      r.attempts < x.enqueued.attempts + x.log.dispatched.length := by
  have hmem : r.attempts ∈ x.log.dispatched.map (·.attempts) := List.mem_map_of_mem hr
  rw [hx.numbered, List.mem_range'_1] at hmem
  exact hmem

omit [DecidableEq ι] in
/-- If no dispatch follows the attempt `bound`, there are at most that many. -/
theorem Logged.length_le {x : Life ι} (hx : Logged more x) (bound : Nat)
    (hbound : ∀ n, more x.job.core n → n < bound) :
    x.log.dispatched.length ≤ max 1 (bound - x.enqueued.attempts) := by
  by_contra hlt
  have hmem : x.enqueued.attempts + (x.log.dispatched.length - 1) ∈
      x.log.dispatched.map (·.attempts) := by
    rw [hx.numbered, List.mem_range'_1]
    omega
  obtain ⟨r, hr, he⟩ := List.mem_map.mp hmem
  rcases hx.allowed r hr with hfirst | hmore
  · omega
  · have hb := hbound r.attempts hmore
    omega

/-! ## Terminal deliveries -/

/-- What is terminal in `x` is left alone up to `y`. -/
def Kept (x y : Life ι) : Prop :=
  x.job.status.terminal = true → y.job.status = x.job.status ∧
    y.log.dispatched = x.log.dispatched ∧ y.log.claimed = x.log.claimed

omit [DecidableEq ι] in
theorem Kept.refl (x : Life ι) : Kept x x := fun _ => ⟨rfl, rfl, rfl⟩

omit [DecidableEq ι] in
theorem Kept.trans {x y z : Life ι} (hxy : Kept x y) (hyz : Kept y z) : Kept x z := by
  intro ht
  obtain ⟨hs, hd, hc⟩ := hxy ht
  obtain ⟨hs', hd', hc'⟩ := hyz (hs ▸ ht)
  exact ⟨hs'.trans hs, hd'.trans hd, hc'.trans hc⟩

theorem kept_step {x y : Life ι} {l : Label ι} (hx : Paced more x)
    (h : Life.Step q cfg d id x l y) : Kept x y := by
  intro ht
  cases h with
  | stay => exact ⟨rfl, rfl, rfl⟩
  | reclaim i now e st hidle hflight hlease hexpired hst =>
    rw [hflight] at ht
    cases ht
  | claim i now e pick r hidle hclaimable hattempts hcore =>
    rw [DeliveryStatus.not_claimable_of_terminal ht] at hclaimable
    cases hclaimable
  | dispatch i now a t call phase htask hstep =>
    rw [(hx.held i t htask).1] at ht
    cases ht

end WebhookEngine.Pacing
