import WebhookEngine.Lib.Run
import WebhookEngine.Stores.Memory
import WebhookEngine.Stores.Mongo
import WebhookEngine.Stores.Pg

/-!
# Are SENT and DEAD_LETTERED final?

Any number of workers over one store. A completion is issued only for an id
that a claim returned to that worker, but the worker may have lost the lease
since. The statements of the completions match on the id alone, so:

* `late_retry_revives`: a late `schedule_retry` takes a SENT delivery back to
  FAILED_RETRY, in every store;
* `final_iff_orderly`: the terminal states are final and the counters monotone
  exactly in the runs in which no completion contradicts a terminal status and
  none that assigns the counter reports a number below it.
-/

namespace WebhookEngine.Stores.Terminal

open Lib WebhookEngine.Stores.Queue

inductive Label where
  | enqueue (records : List DeliveryRecord)
  | claim (worker : Nat) (now : Datetime) (leaseTtlS batchSize : Nat) (pick : List DeliveryId)
  | reclaim (now : Datetime)
  | complete (worker : Nat) (id : DeliveryId) (c : Completion) (attempt : AttemptRecord)

/-- The store, and for each claim so far the worker and an id it returned. -/
structure World (q : RowQueue) where
  store : q.State
  returned : List (Nat × DeliveryId)

variable {q : RowQueue}

def init (q : RowQueue) : World q := ⟨q.empty, []⟩

def step (q : RowQueue) (w : World q) : Label → Option (World q)
  | .enqueue rs => (q.enqueueMany w.store rs).map fun s => { w with store := s }
  | .claim k now ttl n pick =>
    (q.claimBatch w.store now ttl n pick).map fun x =>
      ⟨x.2, x.1.map (fun r => (k, r.deliveryId)) ++ w.returned⟩
  | .reclaim now => some { w with store := (q.reclaimStale w.store now).2 }
  | .complete k id c a =>
    if (k, id) ∈ w.returned then
      (q.complete w.store id c a).map fun s => { w with store := s }
    else none

/-- How often a claim returned `id`. -/
def World.claims (w : World q) (id : DeliveryId) : Nat := (w.returned.filter (·.2 = id)).length

/-- From `w` to `w'` no delivery is lost, no counter lowered; a delivery that is
terminal in `w` keeps its status and is not claimed on the way. -/
def Final (w w' : World q) : Prop :=
  ∀ id j, q.view w.store id = some j → ∃ j', q.view w'.store id = some j' ∧
    j.attempts ≤ j'.attempts ∧
    (j.status.terminal = true → j'.status = j.status ∧ w'.claims id = w.claims id)

theorem Final.refl (w : World q) : Final w w :=
  fun _ j hj => ⟨j, hj, le_refl _, fun _ => ⟨rfl, rfl⟩⟩

theorem Final.trans {u v w : World q} (huv : Final u v) (hvw : Final v w) : Final u w := by
  intro id j hj
  obtain ⟨j₁, hj₁, hle₁, ht₁⟩ := huv id j hj
  obtain ⟨j₂, hj₂, hle₂, ht₂⟩ := hvw id j₁ hj₁
  refine ⟨j₂, hj₂, hle₁.trans hle₂, fun ht => ?_⟩
  obtain ⟨hs₁, hc₁⟩ := ht₁ ht
  obtain ⟨hs₂, hc₂⟩ := ht₂ (hs₁ ▸ ht)
  exact ⟨hs₂.trans hs₁, hc₂.trans hc₁⟩

/-- The completion of attempt `n` fits the delivery it is for: it does not
contradict a terminal status, and does not assign a counter below the stored. -/
def Fits (assigns : Completion → Bool) (j : Job) (c : Completion) (n : Nat) : Prop :=
  (j.status = .sent → c = .sent ∨ c = .append) ∧
    (j.status = .deadLettered → c = .dead ∨ c = .append) ∧ (assigns c = true → j.attempts ≤ n)

def Orderly (w : World q) : Label → Prop
  | .complete _ id c a => ∀ j, q.view w.store id = some j → Fits q.assigns j c a.attempt
  | _ => True

/-! ## One step -/

theorem fits_iff (j : Job) (c : Completion) (n : Nat) :
    Fits q.assigns j c n ↔ j.attempts ≤ (c.settle q.counter n j).attempts ∧
      (j.status.terminal = true → (c.settle q.counter n j).status = j.status) := by
  rw [settle_attempts, q.counts.le_iff, settle_status]
  obtain ⟨st, _, _, _⟩ := j
  cases st <;> cases c <;> simp [Fits, DeliveryStatus.terminal, Completion.status]

theorem claims_append (l : List (Nat × DeliveryId)) (s s' : q.State)
    (held : List (Nat × DeliveryId)) (id : DeliveryId) (h : ∀ x ∈ l, x.2 ≠ id) :
    World.claims (⟨s, l ++ held⟩ : World q) id = World.claims (⟨s', held⟩ : World q) id := by
  have hnil : l.filter (·.2 = id) = [] := by
    simpa [List.filter_eq_nil_iff] using h
  rw [World.claims, List.filter_append, hnil, List.nil_append]
  rfl

theorem final_enqueue {w w' : World q} {rs : List DeliveryRecord}
    (h : step q w (.enqueue rs) = some w') : Final w w' := by
  obtain ⟨s', hs, rfl⟩ := Option.map_eq_some_iff.mp h
  intro id j hj
  refine ⟨j, ?_, le_refl _, fun _ => ⟨rfl, rfl⟩⟩
  rw [q.view_enqueue _ _ _ _ hs, hj, Option.some_or]

theorem final_claim {w w' : World q} {k : Nat} {now : Datetime} {ttl n : Nat}
    {pick : List DeliveryId} (h : step q w (.claim k now ttl n pick) = some w') : Final w w' := by
  obtain ⟨⟨rs, s'⟩, hc, rfl⟩ := Option.map_eq_some_iff.mp h
  intro id j hj
  obtain ⟨j', hj', ha, -, hs⟩ := q.claim_present hc hj
  refine ⟨j', hj', ha.ge, fun ht => ?_⟩
  have hnot := DeliveryStatus.not_claimable_of_terminal ht
  have hstatus : j'.status = j.status := by
    rcases hs with hs | ⟨hclaim, -⟩
    · exact hs
    · rw [hnot] at hclaim
      cases hclaim
  refine ⟨hstatus, claims_append _ _ _ _ _ ?_⟩
  intro x hx
  obtain ⟨r, hr, rfl⟩ := List.mem_map.mp hx
  rintro rfl
  obtain ⟨j₀, -, hj₀, hclaim, -⟩ := (q.view_claim _ _ _ _ _ _ _ hc).2.1 r hr
  rw [hj] at hj₀
  cases hj₀
  rw [hnot] at hclaim
  cases hclaim

theorem final_reclaim (w : World q) (now : Datetime) :
    Final w { w with store := (q.reclaimStale w.store now).2 } := by
  intro id j hj
  obtain ⟨j', hj', ha, -, hs⟩ := q.reclaim_present w.store now hj
  refine ⟨j', hj', ha.ge, fun ht => ⟨?_, rfl⟩⟩
  rcases hs with hs | ⟨hfl, -⟩
  · exact hs
  · rw [hfl] at ht
    cases ht

/-- **Step lemma.** A step keeps what is final if and only if it is orderly. -/
theorem final_step {w w' : World q} {a : Label} (h : step q w a = some w') :
    Final w w' ↔ Orderly w a := by
  cases a with
  | enqueue rs => exact iff_of_true (final_enqueue h) trivial
  | claim k now ttl n pick => exact iff_of_true (final_claim h) trivial
  | reclaim now =>
    cases h
    exact iff_of_true (final_reclaim w now) trivial
  | complete k id c a =>
    obtain ⟨-, h⟩ := Option.ite_none_right_eq_some.mp h
    obtain ⟨s', hc, rfl⟩ := Option.map_eq_some_iff.mp h
    have hself : ∀ j, q.view w.store id = some j →
        q.view s' id = some (c.settle q.counter a.attempt j) :=
      fun j hj => q.view_complete w.store id c a j s' hj hc
    constructor
    · intro hF j hj
      obtain ⟨j', hj', hle, ht⟩ := hF id j hj
      rw [hself j hj] at hj'
      cases hj'
      exact (fits_iff j c a.attempt).mpr ⟨hle, fun hterm => (ht hterm).1⟩
    · intro hO id' j hj
      by_cases he : id' = id
      · subst he
        obtain ⟨hle, ht⟩ := (fits_iff j c a.attempt).mp (hO j hj)
        exact ⟨_, hself j hj, hle, fun hterm => ⟨ht hterm, rfl⟩⟩
      · have hother := q.view_complete_other w.store id c a s' id' hc he
        exact ⟨j, hother.trans hj, le_refl _, fun _ => ⟨rfl, rfl⟩⟩

/-! ## Runs -/

/-- **Terminal states are final** between any two states of a run, and counters
monotone, if and only if every completion of the run fits the delivery it meets. -/
theorem final_iff_orderly (q : RowQueue) (as : List Label) (w : World q)
    (h : Run.run (step q) (init q) as = some w) :
    Run.Between (step q) Final (init q) as ↔ Run.Along (step q) Orderly (init q) as :=
  Run.between_iff_along Final.refl (fun _ _ _ => Final.trans) (fun _ _ _ => final_step) h

/-! ## The three stores -/

/-- The stores that keep one row per delivery. -/
inductive Backend where
  | memory
  | postgres
  | mongo (attemptsLimit : Nat)

def Backend.queue : Backend → RowQueue
  | .memory => Memory.memoryQueue
  | .postgres => Pg.pgQueue
  | .mongo attemptsLimit => Mongo.mongoQueue attemptsLimit

/-- The completions that write `attempts = attempt.attempt`. -/
def Backend.writesAttempts : Backend → Completion → Bool
  | .memory, _ => false
  | .postgres, _ => true
  | .mongo _, c => c ≠ .append

/-- A completion fits the row it hits. -/
def RowFits (b : Backend) (w : World b.queue) : Label → Prop
  | .complete _ id c a => ∀ j, b.queue.view w.store id = some j →
    (j.status = .sent → c = .sent ∨ c = .append) ∧
      (j.status = .deadLettered → c = .dead ∨ c = .append) ∧
      (b.writesAttempts c = true → j.attempts ≤ a.attempt)
  | _ => True

theorem rowFits_eq (b : Backend) : RowFits b = Orderly (q := b.queue) := by
  funext w a
  cases a <;> cases b <;> rfl

/-- In every run over the Memory, Postgres or Mongo store: SENT and DEAD_LETTERED
are final and counters never decrease if and only if every completion fits. -/
theorem terminal_final_iff_rowFits (b : Backend) (as : List Label) (w : World b.queue)
    (h : Run.run (step b.queue) (init b.queue) as = some w) :
    Run.Between (step b.queue) Final (init b.queue) as ↔
      Run.Along (step b.queue) (RowFits b) (init b.queue) as := by
  rw [rowFits_eq]
  exact final_iff_orderly b.queue as w h

def statusAfter (b : Backend) (as : List Label) (id : DeliveryId) : Option DeliveryStatus :=
  (Run.run (step b.queue) (init b.queue) as).bind fun w =>
    (b.queue.view w.store id).map (·.status)

theorem not_final_of_statusAfter (b : Backend) (as bs : List Label) (id : DeliveryId)
    (st st' : DeliveryStatus) (hs : statusAfter b as id = some st)
    (hs' : statusAfter b (as ++ bs) id = some st') (ht : st.terminal = true) (hne : st' ≠ st) :
    ¬ Run.Between (step b.queue) Final (init b.queue) (as ++ bs) := by
  intro hF
  obtain ⟨u, hu, hs⟩ := Option.bind_eq_some_iff.mp hs
  obtain ⟨j, hj, rfl⟩ := Option.map_eq_some_iff.mp hs
  obtain ⟨v, hv, hs'⟩ := Option.bind_eq_some_iff.mp hs'
  obtain ⟨j', hj', rfl⟩ := Option.map_eq_some_iff.mp hs'
  obtain ⟨u', hu', hrest⟩ := Run.run_append_some.mp hv
  rw [hu] at hu'
  cases hu'
  obtain ⟨j'', hj'', -, hfinal⟩ := hF as bs [] u v (by rw [List.append_nil]) hu hrest id j hj
  rw [hj'] at hj''
  cases hj''
  exact hne (hfinal ht).1

def exampleAttempt (n : Nat) (at_ : Datetime) (code : Option Int) : AttemptRecord where
  attempt := n
  attemptedAt := at_
  httpCode := code
  durationMs := 0
  error := none
  responseSnippet := ""

/-- Worker 0 claims a delivery and stalls; its lease is reclaimed, worker 1 claims
the delivery and it is sent. -/
def sentByTheSecondHolder : List Label :=
  [.enqueue [exampleRecord "d" "https://example.com/hook"],
    .claim 0 0 30 50 ["d"], .reclaim 31, .claim 1 31 30 50 ["d"],
    .complete 1 "d" .sent (exampleAttempt 1 32 (some 200))]

theorem terminal_final_iff_second_holder :
    Run.Between (step Backend.postgres.queue) Final (init Backend.postgres.queue)
      sentByTheSecondHolder ↔
    Run.Along (step Backend.postgres.queue) (RowFits .postgres) (init Backend.postgres.queue)
      sentByTheSecondHolder := by
  obtain ⟨w, hw⟩ := Option.isSome_iff_exists.mp (by decide +kernel :
    (Run.run (step Backend.postgres.queue) (init Backend.postgres.queue)
      sentByTheSecondHolder).isSome = true)
  exact terminal_final_iff_rowFits .postgres sentByTheSecondHolder w hw

/-- Worker 0 wakes up and reports its own attempt as failed. -/
def lateRetry : Label := .complete 0 "d" (.retry 45) (exampleAttempt 1 40 (some 503))

/-- The late report takes the delivery out of SENT, in each of the stores. -/
theorem late_retry_revives :
    (¬ Run.Between (step Backend.memory.queue) Final (init Backend.memory.queue)
      (sentByTheSecondHolder ++ [lateRetry])) ∧
    (¬ Run.Between (step Backend.postgres.queue) Final (init Backend.postgres.queue)
      (sentByTheSecondHolder ++ [lateRetry])) ∧
    ¬ Run.Between (step (Backend.mongo 20).queue) Final (init (Backend.mongo 20).queue)
      (sentByTheSecondHolder ++ [lateRetry]) :=
  ⟨not_final_of_statusAfter .memory sentByTheSecondHolder [lateRetry] "d" .sent .failedRetry
      (by decide +kernel) (by decide +kernel) rfl (by decide),
    not_final_of_statusAfter .postgres sentByTheSecondHolder [lateRetry] "d" .sent .failedRetry
      (by decide +kernel) (by decide +kernel) rfl (by decide),
    not_final_of_statusAfter (.mongo 20) sentByTheSecondHolder [lateRetry] "d" .sent .failedRetry
      (by decide +kernel) (by decide +kernel) rfl (by decide)⟩

end WebhookEngine.Stores.Terminal
