import WebhookEngine.Dispatcher
import WebhookEngine.Lib.Asyncio
import WebhookEngine.Lib.Run

/-!
# One semaphore per host

`HostSemaphorePool` of `host_semaphores.py`. Any number of tasks are in `acquire` at once; each
statement of `_get` on the pool or on the guard is a step of its own, so that more can come
between two of them than the awaits of the source let in.

* `step_cases`: what one step does;
* `sound_step`: what holds of every task at its place in `acquire`;
* `one_semaphore_per_host`: the tasks of one host share one semaphore, whenever they come.
-/

namespace WebhookEngine.HostSemaphores

open Lib Asyncio Run

abbrev HostName := String

/-- A semaphore object, by the order of creation. -/
abbrev SemId := Nat

/-- Where a task is in `acquire(host)`. -/
inductive Stage where
  | outside
  /-- `async with self._guard`, after `existing` was `None`. -/
  | missed (host : HostName)
  | guarded (host : HostName)
  /-- Under the guard, `sem is None`. -/
  | creating (host : HostName)
  | returning (host : HostName) (sem : SemId)
  /-- `async with sem`. -/
  | obtained (host : HostName) (sem : SemId)
  | inside (host : HostName) (sem : SemId)
  deriving DecidableEq, Repr

variable (py : Python) (perHost : Nat) {τ : Type*} [DecidableEq τ]

/-- `host.lower()`. -/
def lower (host : HostName) : HostName := String.ofList (py.lower host.toList)

/-- The pool, its guard, the semaphores that were created, and the tasks. -/
structure HostSemaphorePool (τ : Type*) where
  pool : Dict HostName SemId
  guard : Lock τ
  sems : List (Semaphore τ)
  stage : τ → Stage

def HostSemaphorePool.init : HostSemaphorePool τ := ⟨.empty, ⟨none⟩, [], fun _ => .outside⟩

/-- The task goes on. -/
def HostSemaphorePool.move (s : HostSemaphorePool τ) (t : τ) (stage : Stage) :
    HostSemaphorePool τ :=
  { s with stage := Function.update s.stage t stage }

@[simp] theorem stage_move (s : HostSemaphorePool τ) (t : τ) (stage : Stage) :
    (s.move t stage).stage t = stage := by
  change Function.update s.stage t stage t = stage
  rw [Function.update_self]

inductive Label (τ : Type*) where
  | enter (t : τ) (host : HostName)
  | lock (t : τ)
  | lookup (t : τ)
  | store (t : τ)
  | unlock (t : τ)
  | acquire (t : τ)
  /-- The body ends or raises. -/
  | leave (t : τ)
  /-- The task is cancelled where it waits. -/
  | cancel (t : τ)

def step (s : HostSemaphorePool τ) : Label τ → Option (HostSemaphorePool τ)
  | .enter t host =>
    match s.stage t with
    | .outside =>
      match s.pool.find? (lower py host) with
      | some existing => some (s.move t (.obtained host existing.2))
      | none => some (s.move t (.missed host))
    | _ => none
  | .lock t =>
    match s.stage t with
    | .missed host => (s.guard.acquire t).map fun guard =>
      { s.move t (.guarded host) with guard := guard }
    | _ => none
  | .lookup t =>
    match s.stage t with
    | .guarded host =>
      match s.pool.find? (lower py host) with
      | some existing => some (s.move t (.returning host existing.2))
      | none => some (s.move t (.creating host))
    | _ => none
  | .store t =>
    match s.stage t with
    | .creating host =>
      some
        { s.move t (.returning host s.sems.length) with
          sems := s.sems ++ [Semaphore.new perHost]
          pool := s.pool.put (lower py host, s.sems.length) }
    | _ => none
  | .unlock t =>
    match s.stage t with
    | .returning host sem => some { s.move t (.obtained host sem) with guard := Lock.release }
    | _ => none
  | .acquire t =>
    match s.stage t with
    | .obtained host sem =>
      s.sems[sem]?.bind fun o => (o.acquire t).map fun o' =>
        { s.move t (.inside host sem) with sems := s.sems.set sem o' }
    | _ => none
  | .leave t =>
    match s.stage t with
    | .inside _ sem => s.sems[sem]?.map fun o =>
      { s.move t .outside with sems := s.sems.set sem (o.release t) }
    | _ => none
  | .cancel t =>
    match s.stage t with
    | .missed _ => some (s.move t .outside)
    | .obtained _ _ => some (s.move t .outside)
    | _ => none

/-! ## What a step does -/

def Label.task : Label τ → τ
  | .enter t _ | .lock t | .lookup t | .store t | .unlock t | .acquire t | .leave t | .cancel t => t

/-- The steps, each with what it has found. -/
inductive Moved (s : HostSemaphorePool τ) : Label τ → HostSemaphorePool τ → Prop
  | found {t : τ} {host : HostName} {sem : SemId} (hstage : s.stage t = .outside)
      (hpool : s.pool.find? (lower py host) = some (lower py host, sem)) :
      Moved s (.enter t host) (s.move t (.obtained host sem))
  | missed {t : τ} {host : HostName} (hstage : s.stage t = .outside) :
      Moved s (.enter t host) (s.move t (.missed host))
  | locked {t : τ} {host : HostName} (hstage : s.stage t = .missed host)
      (hguard : s.guard.holder = none) :
      Moved s (.lock t) { s.move t (.guarded host) with guard := ⟨some t⟩ }
  | foundAgain {t : τ} {host : HostName} {sem : SemId} (hstage : s.stage t = .guarded host)
      (hpool : s.pool.find? (lower py host) = some (lower py host, sem)) :
      Moved s (.lookup t) (s.move t (.returning host sem))
  | missedAgain {t : τ} {host : HostName} (hstage : s.stage t = .guarded host)
      (hpool : s.pool.find? (lower py host) = none) :
      Moved s (.lookup t) (s.move t (.creating host))
  | stored {t : τ} {host : HostName} (hstage : s.stage t = .creating host) :
      Moved s (.store t)
        { s.move t (.returning host s.sems.length) with
          sems := s.sems ++ [Semaphore.new perHost]
          pool := s.pool.put (lower py host, s.sems.length) }
  | unlocked {t : τ} {host : HostName} {sem : SemId} (hstage : s.stage t = .returning host sem) :
      Moved s (.unlock t) { s.move t (.obtained host sem) with guard := Lock.release }
  | acquired {t : τ} {host : HostName} {sem : SemId} {o o' : Semaphore τ}
      (hstage : s.stage t = .obtained host sem) (hsem : s.sems[sem]? = some o)
      (hacquire : o.acquire t = some o') :
      Moved s (.acquire t) { s.move t (.inside host sem) with sems := s.sems.set sem o' }
  | left {t : τ} {host : HostName} {sem : SemId} {o : Semaphore τ}
      (hstage : s.stage t = .inside host sem) (hsem : s.sems[sem]? = some o) :
      Moved s (.leave t) { s.move t .outside with sems := s.sems.set sem (o.release t) }
  | cancelled {t : τ} : Moved s (.cancel t) (s.move t .outside)

variable {py perHost} {s s' : HostSemaphorePool τ} {t t' : τ}

/-- An entry is under its host. -/
theorem find?_pool {pool : Dict HostName SemId} {host : HostName} {e : HostName × SemId}
    (h : pool.find? host = some e) : pool.find? host = some (host, e.2) := by
  obtain ⟨host', sem⟩ := e
  have hkey : host' = host := Table.find?_key h
  rw [h, hkey]

theorem step_cases {a : Label τ} (h : step py perHost s a = some s') : Moved py perHost s a s' := by
  cases a with
  | enter t host =>
    simp only [step] at h
    split at h
    next hstage =>
      split at h
      next hpool =>
        cases h
        exact .found hstage (find?_pool hpool)
      · cases h
        exact .missed hstage
    · cases h
  | lock t =>
    simp only [step] at h
    split at h
    next host hstage =>
      obtain ⟨guard, hguard, rfl⟩ := Option.map_eq_some_iff.mp h
      obtain ⟨hfree, rfl⟩ := Lock.acquire_eq_some.mp hguard
      exact .locked hstage hfree
    · cases h
  | lookup t =>
    simp only [step] at h
    split at h
    next hstage =>
      split at h
      next hpool =>
        cases h
        exact .foundAgain hstage (find?_pool hpool)
      next hpool =>
        cases h
        exact .missedAgain hstage hpool
    · cases h
  | store t =>
    simp only [step] at h
    split at h
    next hstage =>
      cases h
      exact .stored hstage
    · cases h
  | unlock t =>
    simp only [step] at h
    split at h
    next hstage =>
      cases h
      exact .unlocked hstage
    · cases h
  | acquire t =>
    simp only [step] at h
    split at h
    next hstage =>
      obtain ⟨o, hsem, h⟩ := Option.bind_eq_some_iff.mp h
      obtain ⟨o', hacquire, rfl⟩ := Option.map_eq_some_iff.mp h
      exact .acquired hstage hsem hacquire
    · cases h
  | leave t =>
    simp only [step] at h
    split at h
    next hstage =>
      obtain ⟨o, hsem, rfl⟩ := Option.map_eq_some_iff.mp h
      exact .left hstage hsem
    · cases h
  | cancel t =>
    simp only [step] at h
    split at h
    · cases h
      exact .cancelled
    · cases h
      exact .cancelled
    · cases h

/-! ## The invariant -/

/-- The pool has this semaphore for the host. -/
def Entry (py : Python) (s : HostSemaphorePool τ) (host : HostName) (sem : SemId) : Prop :=
  s.pool.find? (lower py host) = some (lower py host, sem)

/-- What holds of a task at its stage. -/
def At (py : Python) (s : HostSemaphorePool τ) (t : τ) : Stage → Prop
  | .outside => True
  | .missed _ => True
  | .guarded _ => s.guard.holder = some t
  | .creating host => s.guard.holder = some t ∧ s.pool.find? (lower py host) = none
  | .returning host sem => s.guard.holder = some t ∧ Entry py s host sem
  | .obtained host sem => Entry py s host sem
  | .inside host sem => Entry py s host sem ∧ ∃ o, s.sems[sem]? = some o ∧ t ∈ o.holders

structure Sound (py : Python) (perHost : Nat) (s : HostSemaphorePool τ) : Prop where
  tasks : ∀ t, At py s t (s.stage t)
  sems : ∀ o ∈ s.sems, o.value = perHost

omit [DecidableEq τ] in
theorem sound_init : Sound py perHost (HostSemaphorePool.init : HostSemaphorePool τ) where
  tasks _ := trivial
  sems _ ho := absurd ho List.not_mem_nil

/-- What a step of another task leaves to this one. -/
structure Keeps (s s' : HostSemaphorePool τ) (t : τ) : Prop where
  stage : s'.stage t = s.stage t
  guard : s.guard.holder = some t → s'.guard.holder = some t
  absent : s.guard.holder = some t → ∀ host, s.pool.find? host = none →
    s'.pool.find? host = none
  pool : ∀ host e, s.pool.find? host = some e → s'.pool.find? host = some e
  sems : ∀ (i : SemId) (o : Semaphore τ), s.sems[i]? = some o → t ∈ o.holders →
    ∃ o' : Semaphore τ, s'.sems[i]? = some o' ∧ t ∈ o'.holders

omit [DecidableEq τ] in
theorem at_of_keeps (h : Keeps s s' t) (hat : At py s t (s.stage t)) :
    At py s' t (s'.stage t) := by
  rw [h.stage]
  cases hstage : s.stage t with
  | outside => trivial
  | missed host => trivial
  | guarded host =>
    rw [hstage] at hat
    exact h.guard hat
  | creating host =>
    rw [hstage] at hat
    exact ⟨h.guard hat.1, h.absent hat.1 _ hat.2⟩
  | returning host sem =>
    rw [hstage] at hat
    exact ⟨h.guard hat.1, h.pool _ _ hat.2⟩
  | obtained host sem =>
    rw [hstage] at hat
    exact h.pool _ _ hat
  | inside host sem =>
    rw [hstage] at hat
    obtain ⟨hentry, o, ho, hmem⟩ := hat
    exact ⟨h.pool _ _ hentry, h.sems sem o ho hmem⟩

/-- The pool before and after a step: no entry is replaced. -/
theorem pool_moved (hs : Sound py perHost s) {a : Label τ} (h : Moved py perHost s a s')
    (host : HostName) (e : HostName × SemId) (he : s.pool.find? host = some e) :
    s'.pool.find? host = some e := by
  cases h with
  | @stored t host' hstage =>
    have hat := hs.tasks t
    rw [hstage] at hat
    have hne : lower py host' ≠ host := by
      rintro rfl
      rw [hat.2] at he
      cases he
    change (s.pool.put (lower py host', s.sems.length)).find? host = some e
    rw [Table.find?_put, if_neg hne, he]
  | found | missed | locked | foundAgain | missedAgain | unlocked | acquired | left | cancelled =>
    exact he

theorem keeps_move (s : HostSemaphorePool τ) (stage : Stage) (hne : t' ≠ t) :
    Keeps s (s.move t stage) t' where
  stage := Function.update_of_ne hne _ _
  guard h := h
  absent _ _ h := h
  pool _ _ h := h
  sems _ o h hmem := ⟨o, h, hmem⟩

omit [DecidableEq τ] in
/-- A semaphore object that is replaced by one with the same other holders. -/
theorem sems_set {sems : List (Semaphore τ)} {sem : SemId} {o o' : Semaphore τ}
    (ho : sems[sem]? = some o) (hkeep : t' ∈ o.holders → t' ∈ o'.holders) (i : SemId)
    (x : Semaphore τ) (hx : sems[i]? = some x) (hmem : t' ∈ x.holders) :
    ∃ y : Semaphore τ, (sems.set sem o')[i]? = some y ∧ t' ∈ y.holders := by
  by_cases hi : sem = i
  · subst hi
    rw [ho] at hx
    cases hx
    have hlt : sem < sems.length := (List.getElem?_eq_some_iff.mp ho).1
    exact ⟨o', by rw [List.getElem?_set_self hlt], hkeep hmem⟩
  · exact ⟨x, by rw [List.getElem?_set_ne hi, hx], hmem⟩

theorem keeps_moved (hs : Sound py perHost s) {a : Label τ} (h : Moved py perHost s a s')
    (hne : t' ≠ a.task) : Keeps s s' t' := by
  cases h with
  | found | missed | foundAgain | missedAgain | cancelled => exact keeps_move s _ hne
  | locked hstage hguard =>
    refine { keeps_move s _ hne with guard := fun h => ?_ }
    rw [hguard] at h
    cases h
  | @stored t host hstage =>
    have hat := hs.tasks t
    rw [hstage] at hat
    refine { keeps_move s _ hne with
      absent := fun h => ?_
      pool := pool_moved hs (.stored hstage)
      sems := fun i o ho hmem => ⟨o, ?_, hmem⟩ }
    · rw [hat.1] at h
      exact absurd (Option.some_inj.mp h).symm hne
    · exact List.getElem?_append_left (List.getElem?_eq_some_iff.mp ho).1 ▸ ho
  | @unlocked t host sem hstage =>
    have hat := hs.tasks t
    rw [hstage] at hat
    refine { keeps_move s _ hne with guard := fun h => ?_ }
    rw [hat.1] at h
    exact absurd (Option.some_inj.mp h).symm hne
  | acquired hstage hsem hacquire =>
    refine { keeps_move s _ hne with sems := sems_set hsem fun hmem => ?_ }
    rw [(Semaphore.acquire_eq_some hacquire).2]
    exact List.mem_cons_of_mem _ hmem
  | left hstage hsem =>
    exact { keeps_move s _ hne with sems := sems_set hsem (Semaphore.mem_release hne) }

/-- The task that moved is where it belongs. -/
theorem at_moved (hs : Sound py perHost s) {a : Label τ} (h : Moved py perHost s a s') :
    At py s' a.task (s'.stage a.task) := by
  have hat := hs.tasks a.task
  cases h with
  | found _ hpool =>
    rw [Label.task, stage_move]
    exact hpool
  | missed =>
    rw [Label.task, stage_move]
    trivial
  | locked =>
    rw [Label.task, stage_move]
    exact rfl
  | foundAgain hstage hpool =>
    rw [Label.task, hstage] at hat
    rw [Label.task, stage_move]
    exact ⟨hat, hpool⟩
  | missedAgain hstage hpool =>
    rw [Label.task, hstage] at hat
    rw [Label.task, stage_move]
    exact ⟨hat, hpool⟩
  | stored hstage =>
    rw [Label.task, hstage] at hat
    rw [Label.task, stage_move]
    refine ⟨hat.1, ?_⟩
    rw [Entry, Table.find?_put, if_pos rfl]
  | unlocked hstage =>
    rw [Label.task, hstage] at hat
    rw [Label.task, stage_move]
    exact hat.2
  | @acquired t host sem o o' hstage hsem hacquire =>
    rw [Label.task, hstage] at hat
    rw [Label.task, stage_move]
    have hlt : sem < s.sems.length := (List.getElem?_eq_some_iff.mp hsem).1
    refine ⟨hat, o', List.getElem?_set_self hlt, ?_⟩
    rw [(Semaphore.acquire_eq_some hacquire).2]
    exact List.mem_cons_self
  | left =>
    rw [Label.task, stage_move]
    trivial
  | cancelled =>
    rw [Label.task, stage_move]
    trivial

theorem sems_moved (hs : Sound py perHost s) {a : Label τ} (h : Moved py perHost s a s') :
    ∀ o ∈ s'.sems, o.value = perHost := by
  intro x hx
  cases h with
  | found | missed | locked | foundAgain | missedAgain | unlocked | cancelled =>
    exact hs.sems x hx
  | stored hstage =>
    rcases List.mem_append.mp hx with hx | hx
    · exact hs.sems x hx
    · rw [List.mem_singleton.mp hx]
      rfl
  | acquired hstage hsem hacquire =>
    rcases List.mem_or_eq_of_mem_set hx with hx | rfl
    · exact hs.sems x hx
    · rw [(Semaphore.acquire_eq_some hacquire).1]
      exact hs.sems _ (List.mem_of_getElem? hsem)
  | @left t host sem o hstage hsem =>
    rcases List.mem_or_eq_of_mem_set hx with hx | rfl
    · exact hs.sems x hx
    · exact hs.sems o (List.mem_of_getElem? hsem)

/-- Every step keeps the invariant, and no entry of the pool is replaced. -/
theorem sound_step {a : Label τ} (hs : Sound py perHost s)
    (h : step py perHost s a = some s') : Sound py perHost s' ∧
      ∀ host e, s.pool.find? host = some e → s'.pool.find? host = some e := by
  have hmoved := step_cases h
  refine ⟨⟨fun t => ?_, sems_moved hs hmoved⟩, pool_moved hs hmoved⟩
  by_cases ht : t = a.task
  · rw [ht]
    exact at_moved hs hmoved
  · exact at_of_keeps (keeps_moved hs hmoved ht) (hs.tasks t)

theorem sound_run {as : List (Label τ)} (hs : Sound py perHost s)
    (hr : run (step py perHost) s as = some s') : Sound py perHost s' :=
  run_invariant (fun _ _ _ hs h => (sound_step hs h).1) hs hr

theorem pool_run {as : List (Label τ)} (hs : Sound py perHost s)
    (hr : run (step py perHost) s as = some s') (host : HostName) (e : HostName × SemId)
    (he : s.pool.find? host = some e) : s'.pool.find? host = some e := by
  have hkeep := run_relates (P := fun _ _ => True)
    (R := fun u v : HostSemaphorePool τ =>
      ∀ host e, u.pool.find? host = some e → v.pool.find? host = some e)
    (fun _ _ _ h => h) (fun _ _ _ huv hvw host e h => hvw host e (huv host e h))
    (fun _ _ _ hs _ h => sound_step hs h) (along_of_forall (fun _ _ _ => trivial) s) hs hr
  exact hkeep host e he

/-! ## The result -/

/-- The semaphore that a task was given for the host it named. -/
def Stage.given : Stage → Option (HostName × SemId)
  | .returning host sem | .obtained host sem | .inside host sem => some (host, sem)
  | _ => none

omit [DecidableEq τ] in
theorem entry_of_given {host : HostName} {sem : SemId} (hs : Sound py perHost s)
    (h : (s.stage t).given = some (host, sem)) : Entry py s host sem := by
  have hat := hs.tasks t
  cases hstage : s.stage t with
  | returning host' sem' =>
    rw [hstage] at hat h
    cases h
    exact hat.2
  | obtained host' sem' =>
    rw [hstage] at hat h
    cases h
    exact hat
  | inside host' sem' =>
    rw [hstage] at hat h
    cases h
    exact hat.1
  | outside | missed | guarded | creating =>
    rw [hstage] at h
    cases h

/-- The task is in the body, and its host is this one up to lower-casing. -/
def Inside (py : Python) (s : HostSemaphorePool τ) (host : HostName) (t : τ) : Prop :=
  ∃ host' sem, s.stage t = .inside host' sem ∧ lower py host' = lower py host

omit [DecidableEq τ] in
theorem length_inside_le (hs : Sound py perHost s) (host : HostName) {ts : List τ}
    (hn : ts.Nodup) (hts : ∀ t ∈ ts, Inside py s host t) : ts.length ≤ perHost := by
  cases ts with
  | nil => exact Nat.zero_le _
  | cons t rest =>
    obtain ⟨host₀, sem, hstage, hlower⟩ := hts t List.mem_cons_self
    have hat := hs.tasks t
    rw [hstage] at hat
    obtain ⟨hentry, o, ho, -⟩ := hat
    -- every task inside holds the semaphore of the pool's one entry for the host
    have hholds : ∀ t' ∈ t :: rest, t' ∈ o.holders := by
      intro t' ht'
      obtain ⟨host', sem', hstage', hlower'⟩ := hts t' ht'
      have hat' := hs.tasks t'
      rw [hstage'] at hat'
      obtain ⟨hentry', o', ho', hmem⟩ := hat'
      rw [Entry, hlower'] at hentry'
      rw [Entry, hlower, hentry'] at hentry
      cases hentry
      rw [ho] at ho'
      cases ho'
      exact hmem
    rw [← hs.sems o (List.mem_of_getElem? ho)]
    exact o.length_le hn hholds

variable (py perHost) in
/-- At any two moments of a run, `u` and then `v`: one host, one semaphore; entries stay; and no
more tasks than `per_host_concurrency` are inside for a host. -/
theorem one_semaphore_per_host (as bs : List (Label τ)) (u v : HostSemaphorePool τ)
    (hu : run (step py perHost) HostSemaphorePool.init as = some u)
    (hv : run (step py perHost) u bs = some v) :
    (∀ t t' host host' sem sem', (u.stage t).given = some (host, sem) →
      (v.stage t').given = some (host', sem') → lower py host = lower py host' → sem = sem') ∧
    (∀ host e, u.pool.find? host = some e → v.pool.find? host = some e) ∧
    ∀ host (ts : List τ), ts.Nodup → (∀ t ∈ ts, Inside py v host t) → ts.length ≤ perHost := by
  have hsu := sound_run sound_init hu
  have hsv := sound_run hsu hv
  refine ⟨fun t t' host host' sem sem' hgiven hgiven' hlower => ?_, pool_run hsu hv,
    fun host ts => length_inside_le hsv host⟩
  have hentry := pool_run hsu hv _ _ (entry_of_given hsu hgiven)
  have hentry' : v.pool.find? (lower py host') = some (lower py host', sem') :=
    entry_of_given hsv hgiven'
  rw [hlower, hentry'] at hentry
  cases hentry
  rfl

/-- Two tasks that both find no entry at first, for a host written in two ways. -/
def race : List (Label Nat) :=
  [.enter 0 "Example.com", .enter 1 "example.com", .lock 1, .lookup 1, .store 1, .unlock 1,
    .lock 0, .lookup 0, .unlock 0, .acquire 0]

/-- They share the semaphore that one of them creates. -/
theorem one_semaphore_race : ∃ v : HostSemaphorePool Nat,
    run (step Dispatcher.examplePython 1) HostSemaphorePool.init race = some v ∧
    (v.stage 0).given = some ("Example.com", 0) ∧ (v.stage 1).given = some ("example.com", 0) ∧
    ∀ sem sem', (v.stage 0).given = some ("Example.com", sem) →
      (v.stage 1).given = some ("example.com", sem') → sem = sem' := by
  refine ⟨_, rfl, by decide, by decide, fun sem sem' h h' => ?_⟩
  have hshared := one_semaphore_per_host Dispatcher.examplePython 1 race [] _ _ rfl rfl
  exact hshared.1 0 1 _ _ sem sem' h h' (by decide)

end WebhookEngine.HostSemaphores
