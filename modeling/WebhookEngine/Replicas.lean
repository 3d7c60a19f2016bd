import Mathlib.Data.Fintype.Basic
import WebhookEngine.Pacing
import WebhookEngine.Stores.Shipped

/-!
# Do replicas deliver twice?

Any number of engines over one of the shipped stores, without crashes, failing
store calls or raising dispatches.

* `posts_nodup`: as long as no `reclaim_stale` runs while a delivery whose lease has
  expired is still waiting for the gate or being sent, no attempt is posted twice;
* `queued_record_posted_twice`: a lease runs while its record waits behind the
  gate, so sends that are each shorter than the lease are not enough.
-/

namespace WebhookEngine.Replicas

open Lib Dispatcher Stores Stores.Queue Engine Pacing

variable {py : Python} {ι : Type} {q : LeaseQueue} {cfg : WebhookDispatchConfig}
  {d : WebhookDispatcher py} {id : DeliveryId}

/-! ## Conditions on a run -/

/-- The answers of the `send` a task is in. -/
def answers : Phase → Option Answers
  | .sending ans | .posted ans => some ans
  | _ => none

/-- The `send` the task is in ends with an exception of its own. -/
def raising (d : WebhookDispatcher py) (t : Task) : Bool :=
  (answers t.phase).any fun ans => (send d t.record ans).transition.isNone

/-- No store call fails and no dispatch raises. -/
def faultless (d : WebhookDispatcher py) (w : World q ι) : Label ι → Bool
  | .act _ _ (.reclaim ok) => ok
  | .act _ _ (.claim _ ok) => ok
  | .act i _ (.task id (.settle ok)) => ok && !(w.task i id).any (raising d)
  | _ => true

/-- Whatever a dispatch does inside `send`, it does within the lease time of the start. -/
def sendsInTime (cfg : WebhookDispatchConfig) (w : World q ι) : Label ι → Bool
  | .act i now (.task id _) => (w.task i id).all fun t =>
    (answers t.phase).all fun ans => decide (now < ans.now + cfg.leaseTtlS)
  | _ => true

/-- The clock readings of a run, in the order of its steps. -/
def instants (as : List (Label ι)) : List Datetime :=
  as.filterMap fun
    | .enqueue _ => none
    | .act _ now _ => some now

/-- A reclaim finds no delivery that is still waiting or being sent with its lease expired. -/
def LeasesLast (w : World q ι) : Label ι → Prop
  | .act _ now (.reclaim _) => ∀ i id t j e, w.task i id = some t → q.view w.store id = some j →
    j.lease = some e → ¬ q.expired e now
  | _ => True

/-! ## The invariant -/

/-- Every attempt is posted at most once, and only after its dispatch has started. -/
structure PostedOnce (x : Life ι) : Prop where
  nodup : (x.log.posted.map (·.attempts)).Nodup
  dispatched : ∀ r ∈ x.log.posted, r ∈ x.log.dispatched
  pending : ∀ i t ans, x.task i = some t → t.phase = .sending ans →
    t.record ∈ x.log.dispatched ∧ t.record.attempts ∉ x.log.posted.map (·.attempts)
  calm : ∀ i t, x.task i = some t → t.phase = .waiting ∨ ∃ ans, answers t.phase = some ans

/-- What a faultless run in which leases last does at one delivery. -/
def Undisturbed (q : LeaseQueue) (d : WebhookDispatcher py) (id : DeliveryId) (x : Life ι) :
    Label ι → Prop
  | .act _ now (.reclaim true) =>
    (∃ e, x.job.lease = some e ∧ q.expired e now) → ∀ i, x.task i = none
  | .act i _ (.task id' (.settle ok)) => id' = id → ok = true ∧ ∀ t, x.task i = some t →
    raising d t = false
  | _ => True

theorem postedOnce_birth (r c : DeliveryRecord) : PostedOnce (Life.birth r c : Life ι) where
  nodup := List.nodup_nil
  dispatched _ h := by cases h
  pending _ _ _ h := by cases h
  calm _ _ h := by cases h

/-- In a calm life a dispatch that ends has asked the store for a transition. -/
theorem orderly_of_undisturbed {x : Life ι} {l : Label ι} (hx : PostedOnce x)
    (hl : Undisturbed q d id x l) : Orderly q cfg d (fun _ _ => True) id x l := by
  match l with
  | .enqueue rs => trivial
  | .act i now (.reclaim true) => exact fun _ => hl
  | .act i now (.reclaim false) => trivial
  | .act i now (.claim pick ok) => trivial
  | .act i now .finish => trivial
  | .act i now (.task id' a) =>
    intro _ t call ht hstep
    have hcalm := hx.calm i t ht
    have hmoves := dispatch_moves hstep
    generalize hphase : t.phase = phase at hmoves hcalm
    cases hmoves with
    | settled phase ans call hans hsend =>
      obtain ⟨c, a⟩ := call
      cases c with
      | append => exact absurd rfl (send_transition hsend).status
      | _ => trivial
    | left error hlimit => rcases hcalm with h | ⟨ans, h⟩ <;> cases h
    | appendRaised error => rcases hcalm with h | ⟨ans, h⟩ <;> cases h
    | buried attempt => rcases hcalm with h | ⟨ans, h⟩ <;> cases h
    | buryRaised attempt => rcases hcalm with h | ⟨ans, h⟩ <;> cases h

variable [DecidableEq ι]

/-- A step of the only engine that dispatches the delivery. -/
theorem postedOnce_of_task {x y : Life ι} {i : ι} {task : Option Task}
    (hnodup : (y.log.posted.map (·.attempts)).Nodup)
    (hdispatched : ∀ r ∈ y.log.posted, r ∈ y.log.dispatched)
    (hothers : ∀ j, j ≠ i → x.task j = none) (htask : y.task = Function.update x.task i task)
    (hpending : ∀ t ans, task = some t → t.phase = .sending ans →
      t.record ∈ y.log.dispatched ∧ t.record.attempts ∉ y.log.posted.map (·.attempts))
    (hcalm : ∀ t, task = some t → t.phase = .waiting ∨ ∃ ans, answers t.phase = some ans) :
    PostedOnce y where
  nodup := hnodup
  dispatched := hdispatched
  pending j t ans ht := by
    rw [htask] at ht
    exact hpending t ans (Paced.only hothers ht).2
  calm j t ht := by
    rw [htask] at ht
    exact hcalm t (Paced.only hothers ht).2

/-- Such a step that posts nothing. -/
theorem postedOnce_of_quiet {x y : Life ι} {i : ι} {task : Option Task} (hx : PostedOnce x)
    (hposted : y.log.posted = x.log.posted)
    (hdispatched : ∀ r ∈ x.log.dispatched, r ∈ y.log.dispatched)
    (hothers : ∀ j, j ≠ i → x.task j = none) (htask : y.task = Function.update x.task i task)
    (hpending : ∀ t ans, task = some t → t.phase = .sending ans →
      t.record ∈ y.log.dispatched ∧ t.record.attempts ∉ x.log.posted.map (·.attempts))
    (hcalm : ∀ t, task = some t → t.phase = .waiting ∨ ∃ ans, answers t.phase = some ans) :
    PostedOnce y := by
  refine postedOnce_of_task ?_ ?_ hothers htask ?_ hcalm
  · rw [hposted]
    exact hx.nodup
  · intro r hr
    rw [hposted] at hr
    exact hdispatched r (hx.dispatched r hr)
  · rw [hposted]
    exact hpending

theorem postedOnce_step {x y : Life ι} {l : Label ι} {more : DeliveryRecord → Nat → Prop}
    (hpaced : Paced more x) (hx : PostedOnce x) (hl : Undisturbed q d id x l)
    (h : Life.Step q cfg d id x l y) : PostedOnce y := by
  cases h with
  | stay => exact hx
  | reclaim i now e st hidle hflight hlease hexpired hst =>
    exact ⟨hx.nodup, hx.dispatched, hx.pending, hx.calm⟩
  | claim i now e pick r hidle hclaimable hattempts hcore =>
    have hnone := hpaced.idle_of_claimable hclaimable
    refine postedOnce_of_quiet (i := i) hx (List.append_nil _)
      (fun r hr => List.mem_append_left _ hr) (fun j _ => hnone j) rfl ?_ ?_
    · intro t ans ht hphase
      cases ht
      cases hphase
    · intro t ht
      cases ht
      exact Or.inl rfl
  | dispatch i now a t call phase htask hstep =>
    have hothers := hpaced.others htask
    obtain ⟨-, -, hcurrent⟩ := hpaced.held i t htask
    have hcalm := hx.calm i t htask
    have hpending := hx.pending i t
    have hmoves := dispatch_moves hstep
    obtain ⟨r, ph⟩ := t
    simp only at hmoves hcurrent hcalm hpending
    cases hmoves with
    | start ans hnow =>
      refine postedOnce_of_quiet (i := i) hx (List.append_nil _)
        (fun r hr => List.mem_append_left _ hr) hothers rfl ?_ ?_
      · intro t ans' ht _
        cases ht
        refine ⟨List.mem_append_right _ (List.mem_singleton_self r), fun hmem => ?_⟩
        obtain ⟨r', hr', he⟩ := List.mem_map.mp hmem
        have hlt := (hpaced.toLogged.le_attempts (hx.dispatched r' hr')).2
        have hdue : r.attempts = x.enqueued.attempts + x.log.dispatched.length := hcurrent.2.1
        have hsame : r'.attempts = r.attempts := he
        omega
      · intro t ht
        cases ht
        exact Or.inr ⟨ans, rfl⟩
    | post ans hpost =>
      obtain ⟨hmem, hnew⟩ := hpending ans htask rfl
      refine postedOnce_of_task (i := i) ?_ ?_ hothers rfl ?_ ?_
      · simp only [Log.append, TaskAction.log, List.map_append, List.map_singleton]
        exact List.Nodup.append hx.nodup (List.nodup_singleton _)
          (List.disjoint_singleton.mpr hnew)
      · intro r' hr'
        simp only [Log.append, TaskAction.log, List.append_nil] at hr' ⊢
        rcases List.mem_append.mp hr' with hr' | hr'
        · exact hx.dispatched r' hr'
        · rw [List.mem_singleton.mp hr']
          exact hmem
      · intro t ans' ht hphase
        cases ht
        cases hphase
      · intro t ht
        cases ht
        exact Or.inr ⟨ans, rfl⟩
    | settled phase ans call hans hsend =>
      exact postedOnce_of_quiet (i := i) hx (List.append_nil _)
        (fun r hr => List.mem_append_left _ hr) hothers rfl (fun t _ ht => by cases ht)
        fun t ht => by cases ht
    | raised phase ans ok hans hraised =>
      obtain ⟨rfl, hnot⟩ := hl rfl
      have hraising := hnot _ htask
      rcases hans with rfl | rfl <;>
        simp [raising, answers, hraised rfl] at hraising
    | exhausted error hlimit => rcases hcalm with h | ⟨ans, h⟩ <;> cases h
    | left error hlimit => rcases hcalm with h | ⟨ans, h⟩ <;> cases h
    | appendRaised error => rcases hcalm with h | ⟨ans, h⟩ <;> cases h
    | buried attempt => rcases hcalm with h | ⟨ans, h⟩ <;> cases h
    | buryRaised attempt => rcases hcalm with h | ⟨ans, h⟩ <;> cases h

/-! ## Runs -/

omit [DecidableEq ι] in
theorem undisturbed_of_leasesLast {w : World q ι} {l : Label ι} (hfault : faultless d w l = true)
    (hleases : LeasesLast w l) {x : Life ι} (hx : Lives w id x) : Undisturbed q d id x l := by
  match l with
  | .enqueue rs => trivial
  | .act i now (.reclaim false) => trivial
  | .act i now (.claim pick ok) => trivial
  | .act i now .finish => trivial
  | .act i now (.reclaim true) =>
    rintro ⟨e, hlease, hexpired⟩ j
    cases hj : x.task j with
    | none => rfl
    | some t => exact absurd hexpired (hleases j id t x.job e ((hx.task j).trans hj) hx.job hlease)
  | .act i now (.task id' a) =>
    cases a with
    | settle ok =>
      rintro rfl
      simp only [faultless, Bool.and_eq_true, Bool.not_eq_true', hx.task i] at hfault
      refine ⟨hfault.1, fun t ht => ?_⟩
      simpa only [ht, Option.any_some] using hfault.2
    | _ => trivial

/-- Deliveries that repeat no attempt each, together repeat no pair. -/
theorem nodup_pairs {rs : List DeliveryRecord}
    (h : ∀ id, ((rs.filter (·.deliveryId = id)).map (·.attempts)).Nodup) :
    (rs.map fun r => (r.deliveryId, r.attempts + 1)).Nodup := by
  induction rs with
  | nil => exact List.nodup_nil
  | cons r rs ih =>
    rw [List.map_cons, List.nodup_cons]
    constructor
    · intro hmem
      obtain ⟨r', hr', he⟩ := List.mem_map.mp hmem
      simp only [Prod.mk.injEq, Nat.add_right_cancel_iff] at he
      have hself := h r.deliveryId
      rw [List.filter_cons_of_pos (by simp), List.map_cons, List.nodup_cons] at hself
      exact hself.1 (List.mem_map.mpr ⟨r', List.mem_filter.mpr ⟨hr', by simp [he.1]⟩, he.2⟩)
    · apply ih
      intro id
      have htail := h id
      rw [List.filter_cons] at htail
      split at htail
      · rw [List.map_cons, List.nodup_cons] at htail
        exact htail.2
      · exact htail

/-- No attempt is posted twice in a run without faults in which every reclaim finds
the leases of the waiting and running dispatches still valid. -/
theorem posts_nodup (b : Shipped) (cfg : WebhookDispatchConfig) (d : WebhookDispatcher py)
    (as : List (Label ι)) (w : World b.queue ι)
    (hr : Run.run (step b.queue cfg d) (init b.queue ι) as = some w)
    (hfault : Run.Along (step b.queue cfg d) (fun w l => faultless d w l = true)
      (init b.queue ι) as)
    (hleases : Run.Along (step b.queue cfg d) LeasesLast (init b.queue ι) as) :
    (w.log.posted.map fun r => (r.deliveryId, r.attempts + 1)).Nodup := by
  apply nodup_pairs
  intro id
  have hP := Run.along_imp (Q := fun w l => ∀ x, Lives w id x → Undisturbed b.queue d id x l)
    (fun w l h x hx => undisturbed_of_leasesLast h.1 h.2 hx) (Run.along_and hfault hleases)
  have hlife := life_invariant (I := fun x => Paced (fun _ _ => True) x ∧ PostedOnce x)
    (fun r c _ => ⟨paced_birth _ r c, postedOnce_birth r c⟩)
    (fun x l y hx hl hs => ⟨paced_step hx.1 (orderly_of_undisturbed hx.2 hl) hs,
      postedOnce_step hx.1 hx.2 hl hs⟩) hP hr
  rcases hlife with hu | ⟨x, hx, -, hposted⟩
  · have hnone : w.log.posted.filter (·.deliveryId = id) = [] := congrArg Log.posted hu.log
    rw [hnone]
    exact List.nodup_nil
  · have hlog : w.log.posted.filter (·.deliveryId = id) = x.log.posted := congrArg Log.posted hx.log
    rw [hlog]
    exact hposted.nodup

/-- Only dispatches that have not ended matter. -/
instance decidableLeasesLast [Fintype ι] [∀ e now, Decidable (q.expired e now)] (w : World q ι) :
    ∀ l, Decidable (LeasesLast w l)
  | .enqueue _ | .act _ _ (.claim ..) | .act _ _ (.task ..) | .act _ _ .finish =>
    inferInstanceAs (Decidable True)
  | .act _ now (.reclaim _) =>
    decidable_of_iff (∀ i, ∀ t ∈ (w.ticks i).inflight.rows,
        ((q.view w.store (Task.id t)).bind (·.lease)).all (fun e => ¬ q.expired e now) = true) <| by
      constructor
      · intro h i id t j e ht hj he
        obtain ⟨hmem, rfl⟩ := Table.find?_eq_some.mp ht
        have hall := h i t hmem
        rw [hj, Option.bind_some, he, Option.all_some] at hall
        exact of_decide_eq_true hall
      · intro h i t ht
        have hlives := h i (Task.id t) t
        cases hj : q.view w.store (Task.id t) with
        | none => rfl
        | some j =>
          rw [Option.bind_some]
          cases he : j.lease with
          | none => rfl
          | some e => exact decide_eq_true (hlives j e (Table.find?_of_mem ht) hj he)

instance (e now : Datetime) : Decidable (Shipped.postgres.queue.expired e now) :=
  inferInstanceAs (Decidable (e < now))

def oneAtATime : WebhookDispatchConfig := { batchSize := 2, workerConcurrency := 1 }

/-- Two engines and two records. The second one reclaims at 10, when the first one is sending `d1`
while `d2` waits for the gate. `d1` is answered with 503, and sent again by the second engine. -/
def sentByTwo : List (Label Bool) :=
  [.enqueue [exampleRecord "d1" "https://example.com/hook",
      exampleRecord "d2" "https://example.com/hook"],
    .act false 0 (.reclaim true), .act false 0 (.claim ["d1", "d2"] true),
    .act false 0 (.task "d1" (.start { exampleAnswers 0 none with
      post := .response { status := 503, headers := [], bodySnippet := "", durationMs := 1 } })),
    .act true 10 (.reclaim true), .act true 10 (.claim [] true), .act true 10 .finish,
    .act false 12 (.task "d1" .post), .act false 12 (.task "d1" (.settle true)),
    .act false 12 (.task "d2" (.start (exampleAnswers 12 none))),
    .act true 20 (.reclaim true), .act true 20 (.claim ["d1"] true),
    .act true 20 (.task "d1" (.start (exampleAnswers 20 none))),
    .act false 21 (.task "d2" .post), .act true 22 (.task "d1" .post),
    .act false 21 (.task "d2" (.settle true)), .act true 22 (.task "d1" (.settle true)),
    .act true 22 .finish, .act false 22 .finish]

theorem posts_nodup_two_engines : ∃ w, Run.run
      (step Shipped.postgres.queue oneAtATime exampleDispatcher) (init Shipped.postgres.queue Bool)
      sentByTwo = some w ∧
    (w.log.posted.map fun r => (r.deliveryId, r.attempts + 1)) = [("d1", 1), ("d2", 1), ("d1", 2)] ∧
    (w.log.posted.map fun r => (r.deliveryId, r.attempts + 1)).Nodup := by
  obtain ⟨w, hw, hposted⟩ := (Option.any_eq_true ..).mp (by decide +kernel :
    (Run.run (step Shipped.postgres.queue oneAtATime exampleDispatcher)
      (init Shipped.postgres.queue Bool) sentByTwo).any (fun w => decide
        ((w.log.posted.map fun r => (r.deliveryId, r.attempts + 1)) =
          [("d1", 1), ("d2", 1), ("d1", 2)])) = true)
  exact ⟨w, hw, of_decide_eq_true hposted, posts_nodup .postgres oneAtATime exampleDispatcher _ w hw
    (by decide +kernel) (by decide +kernel)⟩

/-! ## A lease that runs behind the gate -/

/-- Every send is shorter than the lease, so no attempt is posted twice. -/
def ShortSendsSuffice (b : Shipped) (cfg : WebhookDispatchConfig) (d : WebhookDispatcher py) :
    Prop :=
  ∀ (as : List (Label Nat)) (w : World b.queue Nat),
    Run.run (step b.queue cfg d) (init b.queue Nat) as = some w →
    (instants as).Pairwise (· ≤ ·) →
    Run.Along (step b.queue cfg d) (fun w l => faultless d w l = true) (init b.queue Nat) as →
    Run.Along (step b.queue cfg d) (fun w l => sendsInTime cfg w l = true) (init b.queue Nat) as →
    (w.log.posted.map fun r => (r.deliveryId, r.attempts + 1)).Nodup

/-- Two records are claimed at 0 and sent one after the other, 20 seconds each. At
31 a second engine reclaims the one that is being sent, claims it, and sends it. -/
def sentOneByOne : List (Label Nat) :=
  [.enqueue [exampleRecord "d1" "https://example.com/hook",
      exampleRecord "d2" "https://example.com/hook"],
    .act 0 0 (.reclaim true), .act 0 0 (.claim ["d1", "d2"] true),
    .act 0 0 (.task "d1" (.start (exampleAnswers 0 none))),
    .act 0 20 (.task "d1" .post), .act 0 20 (.task "d1" (.settle true)),
    .act 0 20 (.task "d2" (.start (exampleAnswers 20 none))),
    .act 1 31 (.reclaim true), .act 1 31 (.claim ["d2"] true),
    .act 1 31 (.task "d2" (.start (exampleAnswers 31 none))),
    .act 1 35 (.task "d2" .post), .act 0 40 (.task "d2" .post),
    .act 0 40 (.task "d2" (.settle true))]

def postedBy (b : Shipped) (as : List (Label Nat)) : Option (List (DeliveryId × Nat)) :=
  (Run.run (step b.queue oneAtATime exampleDispatcher) (init b.queue Nat) as).map fun w =>
    w.log.posted.map fun r => (r.deliveryId, r.attempts + 1)

/-- A run without faults and with short sends. -/
def shortRun (b : Shipped) (as : List (Label Nat)) : Prop :=
  Run.Along (step b.queue oneAtATime exampleDispatcher) (fun w l =>
    faultless exampleDispatcher w l = true ∧ sendsInTime oneAtATime w l = true)
    (init b.queue Nat) as

theorem not_shortSendsSuffice (b : Shipped) (posted : List (DeliveryId × Nat))
    (hposted : postedBy b sentOneByOne = some posted) (htwice : ¬ posted.Nodup)
    (hshort : shortRun b sentOneByOne) : ¬ ShortSendsSuffice b oneAtATime exampleDispatcher := by
  intro h
  obtain ⟨w, hw, rfl⟩ := Option.map_eq_some_iff.mp hposted
  exact htwice (h sentOneByOne w hw (by decide +kernel)
    (Run.along_imp (fun _ _ hl => hl.1) hshort) (Run.along_imp (fun _ _ hl => hl.2) hshort))

/-- Short sends do not suffice, in the memory store nor in Postgres. -/
theorem queued_record_posted_twice :
    ¬ ShortSendsSuffice .memory oneAtATime exampleDispatcher ∧
    ¬ ShortSendsSuffice .postgres oneAtATime exampleDispatcher := by
  constructor
  · refine not_shortSendsSuffice .memory [("d1", 1), ("d2", 1), ("d2", 1)] ?_ (by decide) ?_
    · decide +kernel
    · unfold shortRun
      decide +kernel
  · refine not_shortSendsSuffice .postgres [("d1", 1), ("d2", 1), ("d2", 1)] ?_ (by decide) ?_
    · decide +kernel
    · unfold shortRun
      decide +kernel

end WebhookEngine.Replicas
