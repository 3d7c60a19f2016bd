import WebhookEngine.Pacing
import WebhookEngine.Stores.Shipped

/-!
# Does the quarantine end?

One engine, tick after tick, over a shipped store whose calls succeed, and a delivery
whose every dispatch raises. `_quarantine` compares the counter it was handed with
`max_unhandled_attempts`, and relies on `append_attempt` to count.

* `quarantine_ends`: over Postgres, and over any store when the first dispatch already
  reaches the limit, the delivery is dead-lettered by the last allowed dispatch;
* `quarantine_never_ends`: over the other stores and below the limit, it never is;
* `quarantine_circulates`: and is dispatched more often than the limit.
-/

namespace WebhookEngine.Quarantine

open Lib Dispatcher Stores Stores.Queue Engine Pacing

variable {py : Python} {q : LeaseQueue} {cfg : WebhookDispatchConfig} {d : WebhookDispatcher py}
  {id : DeliveryId}

/-! ## Conditions on a run -/

/-- The store's own calls succeed. -/
def storeSucceeds : Label Unit → Bool
  | .act _ _ (.reclaim ok) => ok
  | .act _ _ (.claim _ ok) => ok
  | .act _ _ (.task _ (.append _ ok)) => ok
  | .act _ _ (.task _ (.bury ok)) => ok
  | _ => true

/-- A `send` of the delivery raises. -/
def raisesFor (d : WebhookDispatcher py) (id : DeliveryId) (w : World q Unit) :
    Label Unit → Bool
  | .act i _ (.task id' (.start ans)) => decide (id' ≠ id) ||
    (w.task i id).all fun t => (send d t.record ans).transition.isNone
  | _ => true

/-- The same, about the delivery's life. -/
def Raises (d : WebhookDispatcher py) (id : DeliveryId) (x : Life Unit) (l : Label Unit) : Prop :=
  storeSucceeds l = true ∧ ∀ i now ans, l = .act i now (.task id (.start ans)) →
    ∀ t, x.task i = some t → (send d t.record ans).transition = none

theorem raises_of_raisesFor {w : World q Unit} {l : Label Unit} (hs : storeSucceeds l = true)
    (hr : raisesFor d id w l = true) {x : Life Unit} (hx : Lives w id x) : Raises d id x l := by
  refine ⟨hs, ?_⟩
  rintro i now ans rfl t ht
  simpa [raisesFor, hx.task i, ht] using hr

/-! ## The invariant -/

/-- No dispatch of the delivery ends with a transition of `send`. -/
structure Doomed (d : WebhookDispatcher py) (x : Life Unit) : Prop where
  raises : ∀ i t ans, x.task i = some t → t.phase = .sending ans ∨ t.phase = .posted ans →
    (send d t.record ans).transition = none
  unsent : x.job.status ≠ .sent

theorem doomed_birth (d : WebhookDispatcher py) (r c : DeliveryRecord) :
    Doomed d (Life.birth r c) where
  raises _ _ _ h := by cases h
  unsent h := by cases h

theorem doomed_of_task {y : Life Unit} {task : Option Task} (htask : ∀ j, y.task j = task)
    (hraises : ∀ t ans, task = some t → t.phase = .sending ans ∨ t.phase = .posted ans →
      (send d t.record ans).transition = none) (hunsent : y.job.status ≠ .sent) : Doomed d y where
  raises j t ans ht := by
    rw [htask j] at ht
    exact hraises t ans ht
  unsent := hunsent

theorem doomed_step {x y : Life Unit} {l : Label Unit} (hx : Doomed d x) (hl : Raises d id x l)
    (h : Life.Step q cfg d id x l y) : Doomed d y := by
  cases h with
  | stay => exact hx
  | reclaim i now e st hidle hflight hlease hexpired hst =>
    refine ⟨hx.raises, ?_⟩
    rintro rfl
    cases hst
  | claim i now e pick r hidle hclaimable hattempts hcore =>
    refine doomed_of_task (fun _ => rfl) ?_ fun h => by cases h
    rintro t ans ⟨⟩ (h | h) <;> cases h
  | dispatch i now a t call phase htask hstep =>
    have hraises := hx.raises i t
    have hstart := hl.2 i now
    have hmoves := dispatch_moves hstep
    obtain ⟨r, ph⟩ := t
    simp only at hmoves hraises
    cases hmoves with
    | start ans hnow =>
      refine doomed_of_task (fun _ => rfl) ?_ hx.unsent
      rintro t ans' ⟨⟩ (h | h) <;> cases h
      exact hstart ans rfl ⟨r, .waiting⟩ htask
    | post ans hpost =>
      refine doomed_of_task (fun _ => rfl) ?_ hx.unsent
      rintro t ans' ⟨⟩ (h | h) <;> cases h
      exact hraises ans htask (Or.inl rfl)
    | settled phase ans call hans hsend =>
      rw [hraises ans htask hans] at hsend
      cases hsend
    | raised phase ans ok hans hraised =>
      refine doomed_of_task (fun _ => rfl) ?_ hx.unsent
      rintro t ans' ⟨⟩ (h | h) <;> cases h
    | exhausted error hlimit =>
      refine doomed_of_task (fun _ => rfl) ?_ hx.unsent
      rintro t ans' ⟨⟩ (h | h) <;> cases h
    | left error hlimit => exact doomed_of_task (fun _ => rfl) (fun _ _ ht => by cases ht) hx.unsent
    | appendRaised error => cases hl.1
    | buried attempt =>
      exact doomed_of_task (fun _ => rfl) (fun _ _ ht => by cases ht) fun h => by cases h
    | buryRaised attempt => cases hl.1

/-- The quarantine dead-letters after attempt `max_unhandled_attempts`. -/
abbrev within (cfg : WebhookDispatchConfig) (_ : DeliveryRecord) (n : Nat) : Prop :=
  n < cfg.maxUnhandledAttempts

/-- The store counts attempts, or the first dispatch reaches the limit. -/
def Counted (b : Shipped) (cfg : WebhookDispatchConfig) (r₀ : DeliveryRecord) : Prop :=
  b = .postgres ∨ cfg.maxUnhandledAttempts ≤ r₀.attempts + 1

theorem orderly_of_counted {b : Shipped} {x : Life Unit} {l : Label Unit}
    (hpaced : Paced (within cfg) x) (hx : Doomed d x) (hc : Counted b cfg x.enqueued)
    (hl : Raises d id x l) : Orderly b.queue cfg d (within cfg) id x l := by
  match l with
  | .enqueue rs => trivial
  | .act i now (.reclaim true) => exact fun hidle _ _ => hidle
  | .act i now (.reclaim false) => trivial
  | .act i now (.claim pick ok) => trivial
  | .act i now .finish => trivial
  | .act i now (.task id' a) =>
    intro _ t call ht hstep
    have hcurrent := (hpaced.held i t ht).2.2
    have hraises := hx.raises i t
    have hmoves := dispatch_moves hstep
    obtain ⟨r, ph⟩ := t
    simp only at hmoves hraises
    cases hmoves with
    | settled phase ans call hans hsend =>
      rw [hraises ans ht hans] at hsend
      cases hsend
    | left error hlimit =>
      refine ⟨?_, hlimit⟩
      rcases hc with rfl | hfirst
      · exact postgres_counter .append _ _
      · have hle := (hpaced.toLogged.le_attempts hcurrent.2.1).1
        simp only at hle
        omega
    | appendRaised error => cases hl.1
    | buried attempt => trivial
    | buryRaised attempt => cases hl.1

/-! ## Runs -/

/-- What the invariants say of a delivery the store counts for. -/
def Bounded (b : Shipped) (cfg : WebhookDispatchConfig) (d : WebhookDispatcher py)
    (x : Life Unit) : Prop :=
  Counted b cfg x.enqueued → Paced (within cfg) x ∧ Doomed d x

theorem bounded_step {b : Shipped} {x y : Life Unit} {l : Label Unit} (hx : Bounded b cfg d x)
    (hl : Raises d id x l) (h : Life.Step b.queue cfg d id x l y) : Bounded b cfg d y := by
  have henqueued : y.enqueued = x.enqueued := by cases h <;> rfl
  intro hc
  rw [henqueued] at hc
  obtain ⟨hpaced, hdoomed⟩ := hx hc
  exact ⟨paced_step hpaced (orderly_of_counted hpaced hdoomed hc hl) h,
    doomed_step hdoomed hl h⟩

/-- `Kept`, for the deliveries the store counts for. -/
def KeptIfCounted (b : Shipped) (cfg : WebhookDispatchConfig) (x y : Life Unit) : Prop :=
  y.enqueued = x.enqueued ∧ (Counted b cfg x.enqueued → Kept x y)

theorem keptIfCounted_trans {b : Shipped} (x y z : Life Unit) (hxy : KeptIfCounted b cfg x y)
    (hyz : KeptIfCounted b cfg y z) : KeptIfCounted b cfg x z :=
  ⟨hyz.1.trans hxy.1, fun hc => (hxy.2 hc).trans (hyz.2 (hxy.1 ▸ hc))⟩

theorem keptIfCounted_step {b : Shipped} {x y : Life Unit} {l : Label Unit}
    (hx : Bounded b cfg d x) (h : Life.Step b.queue cfg d id x l y) : KeptIfCounted b cfg x y :=
  ⟨by cases h <;> rfl, fun hc => kept_step (hx hc).1 h⟩

variable {b : Shipped} {w : World b.queue Unit} {as : List (Label Unit)}

theorem along_raises (hs : ∀ l ∈ as, storeSucceeds l = true) {u : World b.queue Unit}
    (hraises : Run.Along (step b.queue cfg d) (fun w l => raisesFor d id w l = true) u as) :
    Run.Along (step b.queue cfg d) (fun w l => ∀ x, Lives w id x → Raises d id x l) u as :=
  Run.along_imp (fun _ _ h _ hx => raises_of_raisesFor h.1 h.2 hx)
    (Run.along_and (Run.along_of_forall (fun _ l hl => hs l hl) u) hraises)

/-- The dispatches of a delivery, first to last. -/
def dispatches {q : LeaseQueue} (w : World q Unit) (id : DeliveryId) : List DeliveryRecord :=
  (w.log.of id).dispatched

/-- The delivery has been dispatched at most `max_unhandled_attempts` times, and is
dead-lettered once the last of these dispatches has ended. -/
def Ended {q : LeaseQueue} (cfg : WebhookDispatchConfig) (w : World q Unit) (id : DeliveryId)
    (r₀ : DeliveryRecord) : Prop :=
  (dispatches w id).length ≤ cfg.maxUnhandledAttempts ∧
    (max 1 (cfg.maxUnhandledAttempts - r₀.attempts) ≤ (dispatches w id).length →
      w.task () id = none → ∃ j, q.view w.store id = some j ∧ j.status = .deadLettered)

theorem ended_of_bounded {x : Life Unit} (hx : Lives w id x) (hb : Bounded b cfg d x)
    (hc : Counted b cfg x.enqueued) (hU : 1 ≤ cfg.maxUnhandledAttempts) :
    Ended cfg w id x.enqueued := by
  obtain ⟨hpaced, hdoomed⟩ := hb hc
  have hlen := hpaced.length_le cfg.maxUnhandledAttempts fun _ h => h
  rw [Ended, dispatches, hx.log]
  refine ⟨by omega, fun hmax hnone => ⟨x.job, hx.job, ?_⟩⟩
  have hfree : ∀ i, x.task i = none := fun i => (hx.task i).symm.trans hnone
  have hterminal : x.job.status.terminal = true := by
    by_contra hnot
    rw [Bool.not_eq_true] at hnot
    obtain ⟨hdue, hmore⟩ := hpaced.free hfree hnot
    rcases hmore with hnil | hmore
    · rw [hnil, List.length_nil] at hmax
      omega
    · have hlt : x.job.attempts < cfg.maxUnhandledAttempts := hmore
      omega
  have hunsent := hdoomed.unsent
  cases hst : x.job.status <;> simp_all [DeliveryStatus.terminal]

/-- In every run, over Postgres or when the first dispatch reaches the limit: the
quarantine ends with a dead-letter after at most `max_unhandled_attempts` dispatches,
and from then on the delivery is not claimed. -/
theorem quarantine_ends (b : Shipped) (cfg : WebhookDispatchConfig) (d : WebhookDispatcher py)
    (hU : 1 ≤ cfg.maxUnhandledAttempts) (as : List (Label Unit)) (w : World b.queue Unit)
    (hr : Run.run (step b.queue cfg d) (init b.queue Unit) as = some w)
    (hs : ∀ l ∈ as, storeSucceeds l = true) (id : DeliveryId) (r₀ : DeliveryRecord)
    (h₀ : w.enqueued.find? id = some r₀)
    (hraises : Run.Along (step b.queue cfg d) (fun w l => raisesFor d id w l = true)
      (init b.queue Unit) as)
    (hc : b = .postgres ∨ cfg.maxUnhandledAttempts ≤ r₀.attempts + 1) :
    Ended cfg w id r₀ ∧ ∀ bs cs u, as = bs ++ cs →
      Run.run (step b.queue cfg d) (init b.queue Unit) bs = some u →
      (∃ j, b.queue.view u.store id = some j ∧ j.status = .deadLettered) →
      (∃ j, b.queue.view w.store id = some j ∧ j.status = .deadLettered) ∧
        (w.log.of id).claimed = (u.log.of id).claimed := by
  have hP := along_raises hs hraises
  have hbirth : ∀ r c, r.deliveryId = id → Bounded b cfg d (Life.birth r c) :=
    fun r c _ _ => ⟨paced_birth _ r c, doomed_birth d r c⟩
  have hlives : ∀ u bs cs, as = bs ++ cs →
      Run.run (step b.queue cfg d) (init b.queue Unit) bs = some u →
      Unborn u id ∨ ∃ x, Lives u id x ∧ Bounded b cfg d x := by
    rintro u bs cs rfl hu
    exact life_invariant hbirth (fun _ _ _ => bounded_step) (Run.along_left hP) hu
  have henqueued : ∀ x, Lives w id x → x.enqueued = r₀ := by
    intro x hx
    have he := hx.enqueued
    rw [h₀] at he
    exact (Option.some_inj.mp he).symm
  constructor
  · rcases hlives w as [] (List.append_nil as).symm hr with hu | ⟨x, hx, hbounded⟩
    · rw [hu.enqueued] at h₀
      cases h₀
    · obtain rfl := henqueued x hx
      exact ended_of_bounded hx hbounded hc hU
  · rintro bs cs u rfl hu ⟨j, hj, hdead⟩
    obtain ⟨u', hu', hw⟩ := Run.run_append_some.mp hr
    rw [hu] at hu'
    cases hu'
    rcases hlives u bs cs rfl hu with hunborn | ⟨x, hx, hbounded⟩
    · rw [hunborn.job] at hj
      cases hj
    · rw [hx.job] at hj
      cases hj
      obtain ⟨y, hy, -, hsame, hkept⟩ := life_relates (R := KeptIfCounted b cfg)
        (fun _ => ⟨rfl, fun _ => Kept.refl _⟩) keptIfCounted_trans
        (fun _ _ _ hI hl h => ⟨bounded_step hI hl h, keptIfCounted_step hI h⟩)
        (Run.along_append hP hu) hx hbounded hw
      obtain ⟨hstatus, -, hclaimed⟩ := hkept (by rwa [← hsame, henqueued y hy])
        (by rw [hdead]; rfl)
      exact ⟨⟨y.job, hy.job, hstatus.trans hdead⟩, by rw [hy.log, hx.log, hclaimed]⟩

def unknownProfile : DeliveryRecord :=
  { exampleRecord "d" "https://example.com/hook" with profile := "custom" }

/-- One tick in which the dispatch of `unknownProfile` raises and is quarantined. -/
def raisingTick (now : Datetime) : List (Label Unit) :=
  [.act () now (.reclaim true), .act () now (.claim ["d"] true),
    .act () now (.task "d" (.start (exampleAnswers now none))),
    .act () now (.task "d" (.settle true)),
    .act () now (.task "d" (.append "UnknownProfile" true))]

def buryingTick (now : Datetime) : List (Label Unit) :=
  raisingTick now ++ [.act () now (.task "d" (.bury true)), .act () now .finish]

def twoAttempts : WebhookDispatchConfig := { maxUnhandledAttempts := 2 }

def raisedTwice : List (Label Unit) :=
  .enqueue [unknownProfile] :: raisingTick 0 ++ .act () 0 .finish :: buryingTick 40

theorem quarantine_ends_unknown_profile : ∃ w,
    Run.run (step Shipped.postgres.queue twoAttempts exampleDispatcher)
      (init Shipped.postgres.queue Unit) raisedTwice = some w ∧
    Ended twoAttempts w "d" unknownProfile ∧ (dispatches w "d").length = 2 := by
  obtain ⟨w, hw⟩ := Option.isSome_iff_exists.mp (by decide +kernel :
    (Run.run (step Shipped.postgres.queue twoAttempts exampleDispatcher)
      (init Shipped.postgres.queue Unit) raisedTwice).isSome = true)
  have hlog : (Run.run (step Shipped.postgres.queue twoAttempts exampleDispatcher)
      (init Shipped.postgres.queue Unit) raisedTwice).map
      (fun w => (w.enqueued.find? "d", (dispatches w "d").length)) =
        some (some unknownProfile, 2) := by decide +kernel
  rw [hw, Option.map_some, Option.some_inj, Prod.mk.injEq] at hlog
  refine ⟨w, hw, ?_, hlog.2⟩
  exact (quarantine_ends .postgres twoAttempts exampleDispatcher (by decide) raisedTwice w hw
    (by decide) "d" unknownProfile hlog.1 (by decide +kernel) (Or.inl rfl)).1

/-! ## Stores that do not count -/

/-- The counter of a delivery never moves, and its end never comes. -/
structure Circling (x : Life Unit) : Prop where
  attempts : x.job.attempts = x.enqueued.attempts
  going : x.job.status.terminal = false
  tasks : ∀ i t, x.task i = some t →
    t.record.attempts = x.enqueued.attempts ∧ ∀ a, t.phase ≠ .burying a

theorem circling_birth (r c : DeliveryRecord) : Circling (Life.birth r c) where
  attempts := rfl
  going := rfl
  tasks _ _ h := by cases h

theorem circling_of_task {y : Life Unit} {task : Option Task} (htask : ∀ j, y.task j = task)
    (hattempts : y.job.attempts = y.enqueued.attempts) (hgoing : y.job.status.terminal = false)
    (htasks : ∀ t, task = some t →
      t.record.attempts = y.enqueued.attempts ∧ ∀ a, t.phase ≠ .burying a) : Circling y where
  attempts := hattempts
  going := hgoing
  tasks j t ht := htasks t ((htask j).symm.trans ht)

theorem circling_step (hb : b ≠ .postgres) {x y : Life Unit} {l : Label Unit}
    (hU : x.enqueued.attempts + 1 < cfg.maxUnhandledAttempts) (hx : Circling x)
    (hdoomed : Doomed d x) (h : Life.Step b.queue cfg d id x l y) : Circling y := by
  cases h with
  | stay => exact hx
  | reclaim i now e st hidle hflight hlease hexpired hst =>
    refine ⟨hx.attempts, ?_, hx.tasks⟩
    cases st <;> simp_all [DeliveryStatus.claimable, DeliveryStatus.terminal]
  | claim i now e pick r hidle hclaimable hattempts hcore =>
    refine circling_of_task (fun _ => rfl) hx.attempts rfl ?_
    rintro t ⟨⟩
    exact ⟨hattempts.trans hx.attempts, fun a ha => by cases ha⟩
  | dispatch i now a t call phase htask hstep =>
    obtain ⟨hrecord, hphase⟩ := hx.tasks i t htask
    have hraises := hdoomed.raises i t
    have hmoves := dispatch_moves hstep
    obtain ⟨r, ph⟩ := t
    simp only at hmoves hraises hrecord hphase
    cases hmoves with
    | start ans hnow =>
      refine circling_of_task (fun _ => rfl) hx.attempts hx.going ?_
      rintro t ⟨⟩
      exact ⟨hrecord, fun a ha => by cases ha⟩
    | post ans hpost =>
      refine circling_of_task (fun _ => rfl) hx.attempts hx.going ?_
      rintro t ⟨⟩
      exact ⟨hrecord, fun a ha => by cases ha⟩
    | settled phase ans call hans hsend =>
      rw [hraises ans htask hans] at hsend
      cases hsend
    | raised phase ans ok hans hraised =>
      refine circling_of_task (fun _ => rfl) hx.attempts hx.going ?_
      rintro t ⟨⟩
      exact ⟨hrecord, fun a ha => by cases ha⟩
    | exhausted error hlimit => omega
    | left error hlimit =>
      refine circling_of_task (fun _ => rfl) ?_ hx.going fun t ht => by cases ht
      exact (append_keeps_counter hb _ _).trans hx.attempts
    | appendRaised error =>
      exact circling_of_task (fun _ => rfl) hx.attempts hx.going fun t ht => by cases ht
    | buried attempt => exact absurd rfl (hphase attempt)
    | buryRaised attempt => exact absurd rfl (hphase attempt)

/-- Over any other store, and with more than one attempt to go, the delivery is
never dead-lettered. -/
theorem quarantine_never_ends (hb : b ≠ .postgres)
    (hr : Run.run (step b.queue cfg d) (init b.queue Unit) as = some w)
    (hs : ∀ l ∈ as, storeSucceeds l = true) {r₀ : DeliveryRecord}
    (h₀ : w.enqueued.find? id = some r₀)
    (hraises : Run.Along (step b.queue cfg d) (fun w l => raisesFor d id w l = true)
      (init b.queue Unit) as) (hU : r₀.attempts + 1 < cfg.maxUnhandledAttempts) :
    ∃ j, b.queue.view w.store id = some j ∧ j.status.terminal = false := by
  have hlife := life_invariant
    (I := fun x => x.enqueued.attempts + 1 < cfg.maxUnhandledAttempts → Circling x ∧ Doomed d x)
    (fun r c (_ : r.deliveryId = id) _ => ⟨circling_birth r c, doomed_birth d r c⟩)
    (fun x l y hI hl h hlt => by
      have henqueued : y.enqueued = x.enqueued := by cases h <;> rfl
      rw [henqueued] at hlt
      obtain ⟨hcircling, hdoomed⟩ := hI hlt
      exact ⟨circling_step hb hlt hcircling hdoomed h, doomed_step hdoomed hl h⟩)
    (along_raises hs hraises) hr
  rcases hlife with hu | ⟨x, hx, hI⟩
  · rw [hu.enqueued] at h₀
    cases h₀
  · have he := hx.enqueued
    rw [h₀, Option.some_inj] at he
    rw [he] at hU
    exact ⟨x.job, hx.job, (hI hU).1.going⟩

/-- The quarantine ends, over this store. -/
def QuarantineEnds (b : Shipped) (cfg : WebhookDispatchConfig) (d : WebhookDispatcher py) : Prop :=
  ∀ (as : List (Label Unit)) (w : World b.queue Unit) (id : DeliveryId) (r₀ : DeliveryRecord),
    Run.run (step b.queue cfg d) (init b.queue Unit) as = some w →
    (∀ l ∈ as, storeSucceeds l = true) → w.enqueued.find? id = some r₀ →
    Run.Along (step b.queue cfg d) (fun w l => raisesFor d id w l = true) (init b.queue Unit) as →
    Ended cfg w id r₀

/-- Three dispatches, with `max_unhandled_attempts = 2`. -/
def raisedThreeTimes : List (Label Unit) :=
  .enqueue [unknownProfile] :: raisingTick 0 ++ .act () 0 .finish :: raisingTick 40 ++
    .act () 40 .finish :: raisingTick 80

def seen (b : Shipped) : Option (Option DeliveryRecord × Nat) :=
  (Run.run (step b.queue twoAttempts exampleDispatcher) (init b.queue Unit) raisedThreeTimes).map
    fun w => (w.enqueued.find? "d", (dispatches w "d").length)

theorem not_quarantineEnds (b : Shipped) (hseen : seen b = some (some unknownProfile, 3))
    (hraises : Run.Along (step b.queue twoAttempts exampleDispatcher)
      (fun w l => raisesFor exampleDispatcher "d" w l = true) (init b.queue Unit)
      raisedThreeTimes) : ¬ QuarantineEnds b twoAttempts exampleDispatcher := by
  intro h
  obtain ⟨w, hw, he⟩ := Option.map_eq_some_iff.mp hseen
  rw [Prod.mk.injEq] at he
  have hended := (h raisedThreeTimes w "d" unknownProfile hw (by decide) he.1 hraises).1
  rw [he.2] at hended
  exact absurd hended (by decide)

theorem quarantine_circulates :
    ¬ QuarantineEnds .memory twoAttempts exampleDispatcher ∧
    ¬ QuarantineEnds (.redis 20) twoAttempts exampleDispatcher ∧
    ¬ QuarantineEnds (.mongo 20) twoAttempts exampleDispatcher :=
  ⟨not_quarantineEnds .memory (by decide +kernel) (by decide +kernel),
    not_quarantineEnds (.redis 20) (by decide +kernel) (by decide +kernel),
    not_quarantineEnds (.mongo 20) (by decide +kernel) (by decide +kernel)⟩

end WebhookEngine.Quarantine
