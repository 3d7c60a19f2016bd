import WebhookEngine.LostReplies
import WebhookEngine.Quarantine

/-!
# `WebhookDeliveryExhausted`

Engines with a bus whose `emit_post` does not raise. `_dead_letter_from_attempt` emits once
its `mark_dead` has returned; `_quarantine` calls `mark_dead` too, and emits nothing.

* `step_counts`: what a step adds to the events and to the dead-letterings of a delivery;
* `announced_iff`: the runs in which the two agree.
-/

namespace WebhookEngine.Exhausted

open Lib Lib.Run Dispatcher Stores.Queue Engine LostReplies

variable {py : Python} {q : LeaseQueue} {ι : Type}

/-- `WebhookDeliveryExhausted`, without its `EventMeta`. -/
structure WebhookDeliveryExhausted where
  deliveryId : DeliveryId
  subscriptionId : SubscriptionId
  ownerId : OwnerId
  sourceEvent : String
  attempts : Nat
  lastError : String
  deriving DecidableEq, Repr

def exhausted (r : DeliveryRecord) (attempt : AttemptRecord) : WebhookDeliveryExhausted where
  deliveryId := r.deliveryId
  subscriptionId := r.subscriptionId
  ownerId := r.ownerId
  sourceEvent := r.eventName
  attempts := attempt.attempt
  lastError := attempt.error.getD ""

/-- What a step of a dispatch emits, when its store call has returned. -/
def emits (r : DeliveryRecord) : TaskAction → Call → List WebhookDeliveryExhausted
  | .settle _, (.dead, attempt) => [exhausted r attempt]
  | _, _ => []

/-- The deliveries that a store call moves to DEAD_LETTERED. -/
def deadLetters (x : DeliveryRecord × Call) : List DeliveryId :=
  if x.2.1 = .dead then [x.1.deliveryId] else []

/-! ## The world -/

/-- The engines, the events, and the deliveries that were moved to DEAD_LETTERED. -/
structure World (q : LeaseQueue) (ι : Type) where
  engine : Engine.World q ι
  emitted : List WebhookDeliveryExhausted
  deadLettered : List DeliveryId

def init (q : LeaseQueue) (ι : Type) : World q ι := ⟨Engine.init q ι, [], []⟩

section
variable (cfg : WebhookDispatchConfig) (d : WebhookDispatcher py)

/-- The events of a step; a lost reply emits none. -/
def announced (w : Engine.World q ι) : LostReplies.Label ι → List WebhookDeliveryExhausted
  | .engine (.act i now (.task id a)) =>
    (called cfg d w i now id a).elim [] fun x => emits x.1 a x.2
  | _ => []

variable [DecidableEq ι]

variable (q) in
def step (w : World q ι) (l : LostReplies.Label ι) : Option (World q ι) :=
  (LostReplies.step q cfg d w.engine l).map fun v =>
    ⟨v, w.emitted ++ announced cfg d w.engine l,
      w.deadLettered ++ (effective cfg d w.engine l).elim [] deadLetters⟩

end

/-! ## Counting -/

/-- The events emitted for a delivery. -/
def emittedFor (w : World q ι) (id : DeliveryId) : Nat := w.emitted.countP (·.deliveryId = id)

/-- The times a delivery was moved to DEAD_LETTERED. -/
def movedFor (w : World q ι) (id : DeliveryId) : Nat := w.deadLettered.count id

/-- The step of a dispatch is the end of `send`, and returns. -/
def isSend : LostReplies.Label ι → Bool
  | .engine (.act _ _ (.task _ (.settle _))) => true
  | _ => false

/-- A `mark_dead` of `_quarantine` takes effect, or one that takes effect raises. -/
def Buries (cfg : WebhookDispatchConfig) (d : WebhookDispatcher py) (id : DeliveryId)
    (w : World q ι) (l : LostReplies.Label ι) : Prop :=
  isSend l = false ∧
    (effective cfg d w.engine l).any (fun x => x.2.1 = .dead ∧ x.1.deliveryId = id) = true

instance (cfg : WebhookDispatchConfig) (d : WebhookDispatcher py) (id : DeliveryId)
    (w : World q ι) (l : LostReplies.Label ι) : Decidable (Buries cfg d id w l) := by
  unfold Buries
  infer_instance

variable {cfg : WebhookDispatchConfig} {d : WebhookDispatcher py}

theorem count_deadLetters (x : Option (DeliveryRecord × Call)) (id : DeliveryId) :
    (x.elim [] deadLetters).count id =
      if x.any (fun x => x.2.1 = .dead ∧ x.1.deliveryId = id) then 1 else 0 := by
  cases x with
  | none => rfl
  | some x =>
    simp only [Option.elim_some, Option.any_some, deadLetters]
    by_cases hdead : x.2.1 = .dead
    · simp [hdead, List.count_singleton]
    · simp [hdead]

/-- At the end of `send` the events are those of its `mark_dead`. -/
theorem count_announced (cfg : WebhookDispatchConfig) (d : WebhookDispatcher py)
    (w : Engine.World q ι) {l : LostReplies.Label ι}
    (hl : isSend l = true) (id : DeliveryId) : (announced cfg d w l).countP (·.deliveryId = id) =
      ((effective cfg d w l).elim [] deadLetters).count id := by
  unfold isSend at hl
  split at hl
  next i now id' ok =>
    simp only [announced, effective]
    cases called cfg d w i now id' (.settle ok) with
    | none => rfl
    | some x =>
      obtain ⟨r, c, attempt⟩ := x
      cases c with
      | dead => simp [emits, deadLetters, exhausted, List.count_cons, List.countP_cons]
      | _ => rfl
  · cases hl

/-- No other step announces anything. -/
theorem announced_nil (w : Engine.World q ι) {l : LostReplies.Label ι} (hl : isSend l = false) :
    announced cfg d w l = [] := by
  unfold announced
  split
  next i now id a =>
    cases called cfg d w i now id a with
    | none => rfl
    | some x =>
      cases a with
      | settle ok => cases hl
      | _ => rfl
  · rfl

/-- What a step adds: the dead-letterings of a delivery are announced unless it buries. -/
structure Adds (cfg : WebhookDispatchConfig) (d : WebhookDispatcher py) (id : DeliveryId)
    (w : World q ι) (l : LostReplies.Label ι) (w' : World q ι) (e m : Nat) : Prop where
  emitted : emittedFor w' id = emittedFor w id + e
  moved : movedFor w' id = movedFor w id + m
  le : e ≤ m
  eq_iff : e = m ↔ ¬Buries cfg d id w l

variable [DecidableEq ι]

/-- **Step lemma.** -/
theorem step_counts {w w' : World q ι} {l : LostReplies.Label ι}
    (h : step q cfg d w l = some w') (id : DeliveryId) : ∃ e m, Adds cfg d id w l w' e m := by
  obtain ⟨v, -, rfl⟩ := Option.map_eq_some_iff.mp h
  cases hl : isSend l with
  | true =>
    have hsame := count_announced cfg d w.engine hl id
    refine ⟨_, _, List.countP_append, List.count_append, hsame.le, iff_of_true hsame ?_⟩
    intro hburies
    rw [Buries, hl] at hburies
    cases hburies.1
  | false =>
    refine ⟨0, _, ?_, List.count_append, Nat.zero_le _, ?_⟩
    · rw [emittedFor, announced_nil w.engine hl, List.append_nil]
      rfl
    · rw [count_deadLetters, Buries, and_iff_right hl]
      split
      case isTrue hburies => exact iff_of_false (by decide) fun hno => hno hburies
      case isFalse hno => exact iff_of_true rfl hno

/-- Events that are missing stay missing. -/
theorem step_keeps {w w' : World q ι} {l : LostReplies.Label ι} {id : DeliveryId}
    (hle : emittedFor w id ≤ movedFor w id) (h : step q cfg d w l = some w') :
    emittedFor w' id ≤ movedFor w' id ∧ (emittedFor w' id = movedFor w' id ↔
      emittedFor w id = movedFor w id ∧ ¬Buries cfg d id w l) := by
  obtain ⟨e, m, hadds⟩ := step_counts h id
  have hstep := hadds.le
  rw [hadds.emitted, hadds.moved, ← hadds.eq_iff]
  omega

/-- **Every dead-lettering is announced**, and none besides, if and only if no step buries the
delivery. -/
theorem announced_iff (q : LeaseQueue) (cfg : WebhookDispatchConfig) (d : WebhookDispatcher py)
    (ls : List (LostReplies.Label ι)) (w : World q ι)
    (h : run (step q cfg d) (init q ι) ls = some w) (id : DeliveryId) :
    emittedFor w id = movedFor w id ↔
      Along (step q cfg d) (fun u l => ¬Buries cfg d id u l) (init q ι) ls := by
  have hinit : emittedFor (init q ι) id ≤ movedFor (init q ι) id := Nat.le_refl 0
  have hlast := (last_iff_along (I := fun w => emittedFor w id ≤ movedFor w id)
    (fun u l v hu hv => step_keeps hu hv) hinit h).2
  exact hlast.trans (and_iff_right rfl)

abbrev pg : LeaseQueue := Stores.Shipped.postgres.queue

/-- A delivery whose address is blocked when it is sent. -/
def blockedAtSend : List (LostReplies.Label Unit) :=
  [.engine (.enqueue [exampleRecord "d" "https://example.com/hook"]),
    .engine (.act () 0 (.reclaim true)), .engine (.act () 0 (.claim ["d"] true)),
    .engine (.act () 0 (.task "d" (.start (exampleAnswers 0 (some "10.0.0.1"))))),
    .engine (.act () 0 (.task "d" (.settle true))), .engine (.act () 0 .finish)]

theorem announced_iff_blocked : ∃ w,
    run (step pg {} exampleDispatcher) (init pg Unit) blockedAtSend = some w ∧
    movedFor w "d" = 1 ∧ emittedFor w "d" = movedFor w "d" := by
  obtain ⟨w, hw, hmoved⟩ := (Option.any_eq_true ..).mp (by decide +kernel :
    (run (step pg {} exampleDispatcher) (init pg Unit) blockedAtSend).any (fun w =>
      decide (movedFor w "d" = 1)) = true)
  exact ⟨w, hw, of_decide_eq_true hmoved,
    (announced_iff pg {} exampleDispatcher blockedAtSend w hw "d").mpr (by decide +kernel)⟩

/-- A delivery with an unknown profile, quarantined until it is dead-lettered. -/
theorem buried_without_event : ∃ w, run (step pg Quarantine.twoAttempts exampleDispatcher)
    (init pg Unit) (Quarantine.raisedTwice.map .engine) = some w ∧
    movedFor w "d" = 1 ∧ emittedFor w "d" = 0 := by
  obtain ⟨w, hw, hcounts⟩ := (Option.any_eq_true ..).mp (by decide +kernel :
    (run (step pg Quarantine.twoAttempts exampleDispatcher) (init pg Unit)
      (Quarantine.raisedTwice.map .engine)).any (fun w =>
        decide (movedFor w "d" = 1 ∧ emittedFor w "d" = 0)) = true)
  exact ⟨w, hw, of_decide_eq_true hcounts⟩

end WebhookEngine.Exhausted
