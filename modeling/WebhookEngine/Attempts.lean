import WebhookEngine.Pacing
import WebhookEngine.Stores.Shipped

/-!
# Attempts of one engine over Postgres

One engine, tick after tick, over the Postgres store; any answers of the receivers,
store calls that raise without effect, except those `_quarantine` makes.

* `attempts_consecutive`: the dispatches of a delivery are handed the counters 0, 1,
  2, …, a dispatch that takes it to SENT or DEAD_LETTERED is the last, and there are
  at most `max 1 M U`, for the retry limit `M` and the quarantine's limit `U`.
-/

namespace WebhookEngine.Attempts

open Lib Dispatcher Stores Stores.Queue Engine Pacing

variable {py : Python} {cfg : WebhookDispatchConfig} {d : WebhookDispatcher py} {id : DeliveryId}

/-- `max_attempts` of the effective retry config. -/
def maxAttempts (d : WebhookDispatcher py) (r : DeliveryRecord) : Nat :=
  ((d.profiles.of r).map fun profile => (retryConfig d profile).maxAttempts).getD 0

/-- The larger of the two limits. -/
def limit (cfg : WebhookDispatchConfig) (d : WebhookDispatcher py) (r : DeliveryRecord) : Nat :=
  max (maxAttempts d r) cfg.maxUnhandledAttempts

/-- The store calls of `_quarantine` do not raise. -/
def salvages : Label Unit → Bool
  | .act _ _ (.task _ (.append _ ok)) => ok
  | .act _ _ (.task _ (.bury ok)) => ok
  | _ => true

/-- A dispatch after attempt `n` is below one of the limits. -/
abbrev below (cfg : WebhookDispatchConfig) (d : WebhookDispatcher py) (r : DeliveryRecord)
    (n : Nat) : Prop := n < limit cfg d r

theorem limit_core (cfg : WebhookDispatchConfig) (d : WebhookDispatcher py) (r : DeliveryRecord) :
    limit cfg d (core r) = limit cfg d r := rfl

theorem lt_limit_of_retry {r : DeliveryRecord} {t : Datetime} {a : AttemptRecord}
    (h : Reports d r (.retry t) a) : r.attempts + 1 < limit cfg d r := by
  obtain ⟨profile, hprofile, hlt⟩ := h.retry t rfl
  refine lt_max_of_lt_left ?_
  rwa [maxAttempts, hprofile, Option.map_some, Option.getD_some]

/-- Every step of such a run is orderly. -/
theorem orderly_of_salvages {x : Life Unit} {l : Label Unit} (hl : salvages l = true) :
    Orderly Pg.pgQueue.toLeaseQueue cfg d (below cfg d) id x l := by
  match l with
  | .enqueue rs => trivial
  | .act i now (.reclaim true) => exact fun hidle _ _ => hidle
  | .act i now (.reclaim false) => trivial
  | .act i now (.claim pick ok) => trivial
  | .act i now .finish => trivial
  | .act i now (.task id' a) =>
    intro _ t call _ hstep
    have hmoves := dispatch_moves hstep
    generalize t.phase = phase at hmoves
    cases hmoves with
    | settled phase ans call hans hsend =>
      obtain ⟨c, attempt⟩ := call
      have hreports := send_transition hsend
      cases c with
      | append => exact absurd rfl hreports.status
      | retry fireAt => exact lt_limit_of_retry hreports
      | sent => trivial
      | dead => trivial
    | left error hlimit => exact ⟨rfl, lt_max_of_lt_right hlimit⟩
    | appendRaised error => cases hl
    | buried attempt => trivial
    | buryRaised attempt => cases hl

/-- The step takes a transition to SENT or DEAD_LETTERED to the store. -/
def Concludes {ι : Type} {q : LeaseQueue} (cfg : WebhookDispatchConfig) (d : WebhookDispatcher py)
    (u : World q ι) (i : ι) (now : Datetime) (id : DeliveryId) (a : TaskAction) : Prop :=
  ∃ t c attempt phase, u.task i id = some t ∧
    dispatchStep cfg d t.record now t.phase a = some (some (c, attempt), phase) ∧
    (c = .sent ∨ c = .dead)

/-- The dispatches of a delivery, first to last. -/
def dispatches {ι : Type} {q : LeaseQueue} (w : World q ι) (id : DeliveryId) :
    List DeliveryRecord := w.log.dispatched.filter (·.deliveryId = id)

abbrev pg : LeaseQueue := Pg.pgQueue.toLeaseQueue

/-- The invariant holds of every delivery in every run. -/
theorem paced_run {as : List (Label Unit)} {w : World pg Unit}
    (hr : Run.run (step pg cfg d) (init pg Unit) as = some w)
    (hs : ∀ l ∈ as, salvages l = true) (id : DeliveryId) :
    Unborn w id ∨ ∃ x, Lives w id x ∧ Paced (below cfg d) x :=
  life_invariant (P := fun _ l => salvages l = true) (fun r c _ => paced_birth _ r c)
    (fun _ _ _ hx hl h => paced_step hx (orderly_of_salvages hl) h)
    (Run.along_of_forall (fun _ l hl _ _ => hs l hl) _) hr

theorem dispatches_of_unborn {w : World pg Unit} (h : Unborn w id) : dispatches w id = [] :=
  congrArg Log.dispatched h.log

theorem dispatches_of_lives {w : World pg Unit} {x : Life Unit} (h : Lives w id x) :
    dispatches w id = x.log.dispatched :=
  congrArg Log.dispatched h.log

/-- The counters are consecutive and bounded. -/
theorem numbered_run {as : List (Label Unit)} {w : World pg Unit}
    (hr : Run.run (step pg cfg d) (init pg Unit) as = some w)
    (hs : ∀ l ∈ as, salvages l = true) {r₀ : DeliveryRecord}
    (h₀ : w.enqueued.find? id = some r₀) (hzero : r₀.attempts = 0) :
    (dispatches w id).map (·.attempts) = List.range (dispatches w id).length ∧
      ∀ r ∈ dispatches w id, (dispatches w id).length ≤ max 1 (limit cfg d r) := by
  rcases paced_run hr hs id with hu | ⟨x, hx, hpaced⟩
  · rw [dispatches_of_unborn hu]
    exact ⟨rfl, fun r hr => by cases hr⟩
  · have hfirst : x.enqueued.attempts = 0 := by
      have he := hx.enqueued
      rw [h₀] at he
      cases he
      exact hzero
    rw [dispatches_of_lives hx]
    constructor
    · rw [hpaced.numbered, hfirst, List.range_eq_range']
    · intro r hr
      have hlen := hpaced.length_le (limit cfg d r) fun n hn => by
        rwa [below, ← hpaced.cores r hr, limit_core] at hn
      rwa [hfirst, Nat.sub_zero] at hlen

/-- A dispatch that concludes is the last one. -/
theorem last_run {bs cs : List (Label Unit)} {u v w : World pg Unit} {i : Unit} {now : Datetime}
    {a : TaskAction} (hu : Run.run (step pg cfg d) (init pg Unit) bs = some u)
    (hv : step pg cfg d u (.act i now (.task id a)) = some v)
    (hw : Run.run (step pg cfg d) v cs = some w)
    (hs : ∀ l ∈ bs ++ .act i now (.task id a) :: cs, salvages l = true)
    (hc : Concludes cfg d u i now id a) : dispatches w id = dispatches v id := by
  obtain ⟨t, c, attempt, phase, ht, hstep, hfinal⟩ := hc
  have hbs : ∀ l ∈ bs, salvages l = true := fun l hl => hs l (List.mem_append_left _ hl)
  have hl := hs _ (List.mem_append_right bs (List.mem_cons_self ..))
  have hcs : ∀ l ∈ cs, salvages l = true := fun l hl =>
    hs l (List.mem_append_right bs (List.mem_cons_of_mem _ hl))
  rcases paced_run hu hbs id with hunborn | ⟨x, hx, hpaced⟩
  · rw [hunborn.task i] at ht
    cases ht
  obtain ⟨y, hy, hxy⟩ := life_step hv hx
  have hpaced' := paced_step hpaced (orderly_of_salvages hl) hxy
  have hterminal : y.job.status.terminal = true := by
    cases hxy with
    | stay _ hother => exact absurd rfl hother
    | dispatch i now a t' call phase' htask hstep' =>
      rw [hx.task i, htask] at ht
      cases ht
      rw [hstep] at hstep'
      cases hstep'
      rcases hfinal with rfl | rfl <;> rfl
  obtain ⟨z, hz, -, hkept⟩ := life_relates (I := Paced (below cfg d))
    (P := fun _ l => salvages l = true) Kept.refl (fun _ _ _ => Kept.trans)
    (fun _ _ _ hI hl h => ⟨paced_step hI (orderly_of_salvages hl) h, kept_step hI h⟩)
    (Run.along_of_forall (fun _ l hl _ _ => hcs l hl) _) hy hpaced' hw
  rw [dispatches_of_lives hz, dispatches_of_lives hy, (hkept hterminal).2.1]

/-- Every run of one engine over Postgres whose quarantine calls succeed: a delivery
enqueued with `attempts = 0` is dispatched with the counters 0, 1, 2, … in this order, at most
`max 1 M U` times, and not again after a transition to SENT or DEAD_LETTERED. -/
theorem attempts_consecutive (cfg : WebhookDispatchConfig) (d : WebhookDispatcher py)
    (as : List (Label Unit)) (w : World pg Unit)
    (hr : Run.run (step pg cfg d) (init pg Unit) as = some w)
    (hs : ∀ l ∈ as, salvages l = true) (id : DeliveryId) (r₀ : DeliveryRecord)
    (h₀ : w.enqueued.find? id = some r₀) (hzero : r₀.attempts = 0) :
    (dispatches w id).map (·.attempts) = List.range (dispatches w id).length ∧
      (∀ r ∈ dispatches w id, (dispatches w id).length ≤
        max 1 (max (maxAttempts d r) cfg.maxUnhandledAttempts)) ∧
      ∀ bs cs u v i now a, as = bs ++ .act i now (.task id a) :: cs →
        Run.run (step pg cfg d) (init pg Unit) bs = some u →
        step pg cfg d u (.act i now (.task id a)) = some v →
        Concludes cfg d u i now id a → dispatches w id = dispatches v id := by
  obtain ⟨hnumbered, hbound⟩ := numbered_run hr hs h₀ hzero
  refine ⟨hnumbered, hbound, ?_⟩
  rintro bs cs u v i now a rfl hu hv hc
  obtain ⟨u', hu', hrest⟩ := Run.run_append_some.mp hr
  rw [hu] at hu'
  cases hu'
  obtain ⟨v', hv', hw⟩ := Run.run_cons_some.mp hrest
  rw [hv] at hv'
  cases hv'
  exact last_run hu hv hw hs hc

/-- The first `mark_sent` raises; the lease runs out, and the second dispatch gets through. -/
def sentAtTheSecondTry : List (Label Unit) :=
  [.enqueue [exampleRecord "d" "https://example.com/hook"],
    .act () 0 (.reclaim true), .act () 0 (.claim ["d"] true),
    .act () 0 (.task "d" (.start (exampleAnswers 0 none))), .act () 1 (.task "d" .post),
    .act () 1 (.task "d" (.settle false)), .act () 1 (.task "d" (.append "OSError" true)),
    .act () 1 .finish,
    .act () 40 (.reclaim true), .act () 40 (.claim ["d"] true),
    .act () 40 (.task "d" (.start (exampleAnswers 40 none))), .act () 41 (.task "d" .post),
    .act () 41 (.task "d" (.settle true)), .act () 41 .finish]

theorem attempts_consecutive_two_tries : ∃ w r₀,
    Run.run (step pg {} exampleDispatcher) (init pg Unit) sentAtTheSecondTry = some w ∧
    w.enqueued.find? "d" = some r₀ ∧
    (dispatches w "d").map (·.attempts) = List.range (dispatches w "d").length ∧
    (dispatches w "d").length = 2 := by
  obtain ⟨w, hw⟩ := Option.isSome_iff_exists.mp (by decide +kernel :
    (Run.run (step pg {} exampleDispatcher) (init pg Unit) sentAtTheSecondTry).isSome = true)
  have hlog : (Run.run (step pg {} exampleDispatcher) (init pg Unit) sentAtTheSecondTry).map
      (fun w => (w.enqueued.find? "d", (dispatches w "d").length)) =
        some (some (exampleRecord "d" "https://example.com/hook"), 2) := by decide +kernel
  rw [hw, Option.map_some, Option.some_inj, Prod.mk.injEq] at hlog
  exact ⟨w, _, hw, hlog.1, (attempts_consecutive {} exampleDispatcher sentAtTheSecondTry w hw
    (by decide) "d" _ hlog.1 rfl).1, hlog.2⟩

end WebhookEngine.Attempts
