import WebhookEngine.Ingest.Ingestor
import WebhookEngine.Ingest.Memory
import WebhookEngine.Stores.Shipped

/-!
# What DONE and a normal return mean

* `loop_step`: what the loop of a tick keeps of the events it has claimed;
* `done_fanned_out`: an event is DONE only if a fan-out of it has completed, with one
  stored record for each subscription whose target passes; and when a tick has returned,
  the events it claimed are DONE or FAILED, as many as it acked and failed.
-/

namespace WebhookEngine.Ingest.Outcome

open Lib Events Ingestor Stores.Queue

variable {py : Python} {δ : Type} {dumps : δ → Option Bytes} {E : EventQueue δ} {q : LeaseQueue}

def Closed (s : Shared py E q) (id : EventId) : Prop :=
  ∃ x, E.entry s.events id = some x ∧ x.status.closed = true

/-- A completed fan-out of the event the store keeps under the id. -/
def FannedOut (s : Shared py E q) (id : EventId) : Prop :=
  ∃ f ∈ s.fanOuts, ∃ x, E.entry s.events id = some x ∧ x.event = f.event

/-- Every event that is DONE has been fanned out. -/
def DoneFannedOut (s : Shared py E q) : Prop :=
  ∀ id x, E.entry s.events id = some x → x.status = .done → FannedOut s id

/-- The events of a tick: still to do, acked or closed. -/
structure Loop (s : Shared py E q) (t : Tick py δ) : Prop where
  claimed : ∀ e ∈ t.events, ∃ x, E.entry s.events e.eventId = some x ∧ x.event = e
  todo : ∀ e ∈ t.todo, e ∈ t.events
  acked : ∀ id ∈ t.acked, FannedOut s id
  covered : ∀ e ∈ t.events, e ∈ t.todo ∨ e.eventId ∈ t.acked ∨ Closed s e.eventId
  count : t.events.length = t.acked.length + t.failed + t.todo.length

/-- What is known past the loop. -/
structure Ended (s : Shared py E q) (t : Tick py δ) : Prop where
  ack : t.stage = .ack → t.todo = []
  returned : ∀ stats, t.stage = .returned stats → (∀ e ∈ t.events, Closed s e.eventId) ∧
    stats.claimed = t.events.length ∧ stats.claimed = t.acked.length + stats.failed

/-! ## What later steps leave -/

/-- The entries of `s'` follow those of `s`, and no completed fan-out is forgotten. -/
structure Later (s s' : Shared py E q) : Prop where
  kept : ∀ id x, E.entry s.events id = some x → ∃ x', E.entry s'.events id = some x' ∧
    x'.event = x.event ∧ (x.status.closed = true → x'.status.closed = true)
  fanOuts : s.fanOuts ⊆ s'.fanOuts

theorem Closed.later {s s' : Shared py E q} (h : Later s s') {id : EventId} (hc : Closed s id) :
    Closed s' id := by
  obtain ⟨x, hx, hclosed⟩ := hc
  obtain ⟨x', hx', -, hstays⟩ := h.kept id x hx
  exact ⟨x', hx', hstays hclosed⟩

theorem FannedOut.later {s s' : Shared py E q} (h : Later s s') {id : EventId}
    (hf : FannedOut s id) : FannedOut s' id := by
  obtain ⟨f, hmem, x, hx, he⟩ := hf
  obtain ⟨x', hx', he', -⟩ := h.kept id x hx
  exact ⟨f, h.fanOuts hmem, x', hx', he'.trans he⟩

theorem Loop.later {s s' : Shared py E q} (h : Later s s') {t : Tick py δ} (ht : Loop s t) :
    Loop s' t where
  claimed e he := by
    obtain ⟨x, hx, rfl⟩ := ht.claimed e he
    obtain ⟨x', hx', hevent, -⟩ := h.kept x.event.eventId x hx
    exact ⟨x', hx', hevent⟩
  todo := ht.todo
  acked id hid := (ht.acked id hid).later h
  covered e he := (ht.covered e he).imp_right fun hrest => hrest.imp_right (Closed.later h)
  count := ht.count

theorem Ended.later {s s' : Shared py E q} (h : Later s s') {t : Tick py δ} (ht : Ended s t) :
    Ended s' t where
  ack := ht.ack
  returned stats hstage :=
    ⟨fun e he => ((ht.returned stats hstage).1 e he).later h, (ht.returned stats hstage).2⟩

/-! ## Steps of the loop -/

theorem Loop.proceed {s : Shared py E q} {t : Tick py δ} (h : Loop s t) : Loop s t.proceed :=
  ⟨h.claimed, h.todo, h.acked, h.covered, h.count⟩

/-- Past the loop without an `ack`, nothing is left to close. -/
theorem ended_proceed {s : Shared py E q} {t : Tick py δ} (h : Loop s t) : Ended s t.proceed := by
  constructor
  · intro hstage
    simp only [Tick.proceed] at hstage ⊢
    cases htodo : t.todo with
    | nil => rfl
    | cons e todo =>
      rw [htodo] at hstage
      cases hstage
  · intro stats hstage
    simp only [Tick.proceed] at hstage ⊢
    cases htodo : t.todo with
    | cons e todo =>
      rw [htodo] at hstage
      cases hstage
    | nil =>
      by_cases hacked : t.acked = []
      · rw [htodo, if_pos hacked] at hstage
        cases hstage
        have hcount := h.count
        rw [htodo, List.length_nil, Nat.add_zero] at hcount
        refine ⟨fun e he => ?_, rfl, hcount⟩
        rcases h.covered e he with hin | hin | hclosed
        · rw [htodo] at hin
          cases hin
        · rw [hacked] at hin
          cases hin
        · exact hclosed
      · simp only [htodo, if_neg hacked] at hstage
        cases hstage

theorem tail_of_head? {α : Type} {l : List α} {a : α} (h : l.head? = some a) : l = a :: l.tail :=
  (List.cons_head?_tail h).symm

/-- The current event has been fanned out. -/
theorem Loop.succeed {s : Shared py E q} {t : Tick py δ} (h : Loop s t) {f : FanOut py δ}
    (hhead : t.todo.head? = some f.event) (hf : f ∈ s.fanOuts) :
    Loop s (t.succeed f) ∧ Ended s (t.succeed f) := by
  have htodo := tail_of_head? hhead
  have hmem : f.event ∈ t.todo := List.mem_of_head? hhead
  have hfanned : FannedOut s f.event.eventId := by
    obtain ⟨x, hx, he⟩ := h.claimed f.event (h.todo f.event hmem)
    exact ⟨f, hf, x, hx, he⟩
  suffices hloop : Loop s { t with
      todo := t.todo.tail
      acked := t.acked ++ [f.event.eventId]
      fannedOut := t.fannedOut + f.records.length } from ⟨hloop.proceed, ended_proceed hloop⟩
  refine ⟨h.claimed, fun e he => h.todo e (List.mem_of_mem_tail he), fun id hid => ?_,
    fun e he => ?_, ?_⟩
  · rcases List.mem_append.mp hid with hid | hid
    · exact h.acked id hid
    · cases List.mem_singleton.mp hid
      exact hfanned
  · rcases h.covered e he with hin | hin | hclosed
    · rw [htodo] at hin
      rcases List.mem_cons.mp hin with rfl | hin
      · exact Or.inr (Or.inl (List.mem_append_right _ (List.mem_singleton_self _)))
      · exact Or.inl hin
    · exact Or.inr (Or.inl (List.mem_append_left _ hin))
    · exact Or.inr (Or.inr hclosed)
  · have hcount := h.count
    rw [htodo, List.length_cons] at hcount
    simp only [List.length_append, List.length_singleton]
    omega

/-- The current event has been parked. -/
theorem Loop.fail {s : Shared py E q} {t : Tick py δ} (h : Loop s t) {event : IncomingEvent δ}
    (hhead : t.todo.head? = some event) (hclosed : Closed s event.eventId) :
    Loop s t.fail ∧ Ended s t.fail := by
  have htodo := tail_of_head? hhead
  suffices hloop : Loop s { t with todo := t.todo.tail, failed := t.failed + 1 } from
    ⟨hloop.proceed, ended_proceed hloop⟩
  refine ⟨h.claimed, fun e he => h.todo e (List.mem_of_mem_tail he), h.acked, fun e he => ?_, ?_⟩
  · rcases h.covered e he with hin | hin | hclosed
    · rw [htodo] at hin
      rcases List.mem_cons.mp hin with rfl | hin
      · exact Or.inr (Or.inr hclosed)
      · exact Or.inl hin
    · exact Or.inr (Or.inl hin)
    · exact Or.inr (Or.inr hclosed)
  · have hcount := h.count
    rw [htodo, List.length_cons] at hcount
    simp only
    omega

theorem later_of_moves {s s' : Shared py E q} {t t' : Tick py δ} {stage : Stage py δ} {r : Reply}
    (h : TickMoves dumps E q s t stage r s' t') : Later s s' := by
  refine ⟨fun id => (events_follow h id).kept, ?_⟩
  cases h with
  | skipped => exact List.subset_append_left ..
  | enqueued => exact List.subset_append_left ..
  | _ => exact List.Subset.refl _

/-- **One step of the loop**, of the tick that gets the reply. -/
theorem loop_step {s s' : Shared py E q} {t t' : Tick py δ} {r : Reply} (ht : Loop s t)
    (hended : Ended s t) (hqueued : ∀ f, t.stage = .enqueue f → t.todo.head? = some f.event)
    (h : TickMoves dumps E q s t t.stage r s' t') : Loop s' t' ∧ Ended s' t' := by
  have hlater := later_of_moves h
  have hloop := ht.later hlater
  have hrunning : ∀ stage : Stage py δ, stage ≠ .ack → (∀ stats, stage ≠ .returned stats) →
      Loop s' { t with stage := stage } ∧ Ended s' { t with stage := stage } :=
    fun stage hack hreturned =>
      ⟨⟨hloop.claimed, hloop.todo, hloop.acked, hloop.covered, hloop.count⟩,
        fun hstage => absurd hstage hack, fun stats hstage => absurd hstage (hreturned stats)⟩
  generalize hstage : t.stage = stage at h
  cases h with
  | reclaimed effect => exact hrunning .claim (fun h => by cases h) fun _ h => by cases h
  | claimed pick n es last events t'' hclaim ht'' =>
    have hentry := E.entry_claim _ _ _ _ _ _ _ _ hclaim
    have hmore : Loop { s with events := events } t'' := by
      subst ht''
      refine ⟨fun e he => ?_, fun e he => ?_, hloop.acked, fun e he => ?_, ?_⟩
      · rcases List.mem_append.mp he with he | he
        · exact hloop.claimed e he
        · refine ⟨⟨e, .claimed⟩, ?_, rfl⟩
          rw [hentry.2.2 e.eventId, if_pos (List.mem_map_of_mem he), hentry.2.1 e he]
          rfl
      · rcases List.mem_append.mp he with he | he
        · exact List.mem_append_left _ (ht.todo e he)
        · exact List.mem_append_right _ he
      · rcases List.mem_append.mp he with he | he
        · exact (hloop.covered e he).imp_left (List.mem_append_left _)
        · exact Or.inl (List.mem_append_right _ he)
      · have hcount := ht.count
        simp only [List.length_append]
        omega
    cases last with
    | true => exact ⟨hmore.proceed, ended_proceed hmore⟩
    | false =>
      refine ⟨hmore, fun h => ?_, fun stats h => ?_⟩
      · subst ht''
        cases hstage.symm.trans h
      · subst ht''
        cases hstage.symm.trans h
  | claimRaised pick events hevents =>
    exact hrunning .raised (fun h => by cases h) fun _ h => by cases h
  | skipped subs uuid error event htodo hfan =>
    exact hloop.succeed htodo (List.mem_append_right _ (List.mem_singleton_self _))
  | fanned subs uuid error event records htodo hfan hfresh =>
    exact hrunning (.enqueue _) (fun h => by cases h) fun _ h => by cases h
  | fanRaised r error hr =>
    exact hrunning (.markFailed error) (fun h => by cases h) fun _ h => by cases h
  | enqueued f deliveries henqueue =>
    exact hloop.succeed (hqueued f hstage) (List.mem_append_right _ (List.mem_singleton_self _))
  | enqueueRaised f stored error deliveries henqueue =>
    exact hrunning (.markFailed error) (fun h => by cases h) fun _ h => by cases h
  | marked error event events htodo hmark =>
    refine hloop.fail htodo ?_
    obtain ⟨x, hx, -⟩ := ht.claimed event (ht.todo event (List.mem_of_head? htodo))
    refine ⟨x.to .failed, ?_, rfl⟩
    rw [E.entry_markFailed _ _ _ _ hmark, if_pos rfl, hx]
    rfl
  | markRaised error effect event events htodo hmark =>
    exact hrunning .raised (fun h => by cases h) fun _ h => by cases h
  | acked events hack =>
    have htodo := hended.ack hstage
    refine ⟨⟨hloop.claimed, hloop.todo, hloop.acked, hloop.covered, hloop.count⟩,
      fun h => (by cases h), fun stats h => ?_⟩
    cases h
    have hcount := ht.count
    rw [htodo, List.length_nil, Nat.add_zero] at hcount
    refine ⟨fun e he => ?_, rfl, hcount⟩
    rcases hloop.covered e he with hin | hin | hclosed
    · rw [htodo] at hin
      cases hin
    · obtain ⟨x, hx, -⟩ := ht.claimed e he
      refine ⟨x.to .done, ?_, rfl⟩
      rw [E.entry_ack _ _ _ hack, if_pos hin, hx]
      rfl
    · exact hclosed
  | ackRaised ids => exact hrunning .raised (fun h => by cases h) fun _ h => by cases h
  | crash => exact hrunning .crashed (fun h => by cases h) fun _ h => by cases h

theorem doneFannedOut_step {s s' : Shared py E q} {t t' : Tick py δ} {r : Reply}
    (hs : DoneFannedOut s) (ht : Loop s t) (h : TickMoves dumps E q s t t.stage r s' t') :
    DoneFannedOut s' := by
  have hlater := later_of_moves h
  intro id x' hx' hdone
  rcases (events_follow h id).done x' hx' hdone with hx | ⟨hacked, -⟩
  · exact (hs id x' hx hdone).later hlater
  · exact (ht.acked id hacked).later hlater

/-! ## Runs -/

theorem later_append {s : Shared py E q} {now : Datetime} {event : IncomingEvent δ}
    {events : E.State} (h : E.append s.events now event = some events) :
    Later s { s with events := events } :=
  ⟨fun id => (E.follows_append h id).kept, List.Subset.refl _⟩

theorem doneFannedOut_append {s : Shared py E q} {now : Datetime} {event : IncomingEvent δ}
    {events : E.State} (hs : DoneFannedOut s)
    (h : E.append s.events now event = some events) :
    DoneFannedOut { s with events := events } := by
  intro id x' hx' hdone
  rcases (E.follows_append h id).done x' hx' hdone with hx | hx
  · exact (hs id x' hx hdone).later (later_append h)
  · exact hx.1.elim

variable {ι : Type} [DecidableEq ι]

/-- **In every run**, for every event store: the state of the loops, and of the events
that are DONE. -/
theorem outcome_run {as : List (Label py δ ι)} {w : World py E q ι}
    (h : Run.run (step dumps E q) (init E q) as = some w) :
    Holds (fun s => Accounted dumps s ∧ DoneFannedOut s)
      (fun s t => (∀ f, t.stage = .enqueue f → Queued dumps s t f) ∧ Loop s t ∧ Ended s t)
      Apart w := by
  have hinit : Accounted dumps (⟨E.empty, q.empty, [], []⟩ : Shared py E q) ∧
      DoneFannedOut (⟨E.empty, q.empty, [], []⟩ : Shared py E q) :=
    ⟨accounted_init, fun id x hx => by rw [E.entry_empty id] at hx; cases hx⟩
  refine holds_run (P := fun _ _ => True) (fun _ _ => apart_symm) hinit
    (fun s now event events hs happend => ?_) (fun s ingestor now _ => ?_)
    (fun w i r t t' s _ _ hs ht hmoves => ?_) (Run.along_of_forall (fun _ _ _ => trivial) _) h
  · have hlater := later_append happend
    refine ⟨⟨hs.1.append events, doneFannedOut_append hs.2 happend⟩, fun t ht => ?_⟩
    exact ⟨fun f hf => (ht.1 f hf).append events, ht.2.1.later hlater, ht.2.2.later hlater⟩
  · refine ⟨⟨fun f hf => (by cases hf), ?_, ?_⟩, fun u f g hf => (by cases hf)⟩
    · exact ⟨fun e he => (by cases he), fun e he => (by cases he), fun e he => (by cases he),
        fun e he => (by cases he), rfl⟩
    · exact ⟨fun h => (by cases h), fun stats h => (by cases h)⟩
  · obtain ⟨hs', ht', hothers⟩ := minted_step hs.1 ht.1 (delivers hmoves)
    have hlater := later_of_moves hmoves
    have hloop := loop_step ht.2.1 ht.2.2 (fun f hf => (ht.1 f hf).head) hmoves
    refine ⟨⟨hs', doneFannedOut_step hs.2 ht.2.1 hmoves⟩, ⟨ht', hloop⟩, fun j u _ _ hu hapart => ?_⟩
    obtain ⟨hqueued, hapart'⟩ := hothers u hu.1 hapart
    exact ⟨⟨hqueued, hu.2.1.later hlater, hu.2.2.later hlater⟩, hapart'⟩

/-- **What DONE and a normal return mean**, over the in-memory event store: an event is
DONE only if a fan-out of it has completed, which stored exactly one record, with the
event's fields, for each subscription it was given whose target passes; and the events a
tick had claimed when it returned are DONE or FAILED, as many as it acked and failed. -/
theorem done_fanned_out {as : List (Label py δ ι)} {w : World py (Memory.memoryEvents δ) q ι}
    (h : Run.run (step dumps (Memory.memoryEvents δ) q) (init _ q) as = some w) :
    (∀ id event, Memory.entry w.shared.events id = some ⟨event, .done⟩ →
      ∃ f ∈ w.shared.fanOuts, f.event = event ∧ Fanned dumps f ∧
        (f.records.map (·.deliveryId)).Nodup ∧ ∀ r ∈ f.records, Stored w.shared r) ∧
    ∀ i t stats, w.ticks i = some t → t.stage = .returned stats →
      (∀ e ∈ t.events, ∃ x, Memory.entry w.shared.events e.eventId = some x ∧
        x.status.closed = true) ∧
      stats.claimed = t.events.length ∧ stats.claimed = t.acked.length + stats.failed := by
  have hholds := outcome_run h
  constructor
  · intro id event hentry
    obtain ⟨f, hf, x, hx, he⟩ := hholds.shared.2 id ⟨event, .done⟩ hentry rfl
    obtain ⟨hfanned, hnodup, hstored⟩ := hholds.shared.1.stored f hf
    have hevent : x = ⟨event, .done⟩ := Option.some_inj.mp (hx.symm.trans hentry)
    subst hevent
    exact ⟨f, hf, he.symm, hfanned, hnodup, hstored⟩
  · intro i t stats ht hstage
    exact (hholds.tick i t ht).2.2.returned stats hstage

/-- Two subscriptions, the second with a target that is blocked. -/
def exampleSubscriptions : List SubscriptionSnapshot := [
  ⟨"sub_1", "tenant_a", "https://example.com/hook", "8.8.8.8"⟩,
  ⟨"sub_2", "tenant_a", "https://internal.example/hook", "10.0.0.1"⟩]

def exampleTick : List (Label Dispatcher.examplePython Unit Nat) := [
  .append 0 exampleEvent, .begin 0 exampleIngestor 5, .reply 0 (.reclaimed true),
  .reply 0 (.claimed []),
  .reply 0 (.subscriptions exampleSubscriptions (fun i => ["d_1", "d_2"].getD i "") ""),
  .reply 0 .enqueued, .reply 0 .acked]

theorem done_fanned_out_one_event : ∃ w : World Dispatcher.examplePython
    (Memory.memoryEvents Unit) Stores.Memory.memoryQueue.toLeaseQueue Nat,
    Run.run (step exampleDumps _ _) (init _ _) exampleTick = some w ∧
    ∃ f ∈ w.shared.fanOuts, f.event = exampleEvent ∧ Fanned exampleDumps f ∧
      (f.records.map (·.deliveryId)).Nodup ∧ ∀ r ∈ f.records, Stored w.shared r := by
  obtain ⟨w, hw, hdone⟩ := (Option.any_eq_true ..).mp (by decide +kernel :
    (Run.run (step exampleDumps _ _) (init (Memory.memoryEvents Unit)
      Stores.Memory.memoryQueue.toLeaseQueue) exampleTick).any (fun w =>
        decide (Memory.entry w.shared.events "evt_1" = some ⟨exampleEvent, .done⟩)) = true)
  exact ⟨w, hw, (done_fanned_out hw).1 "evt_1" exampleEvent (of_decide_eq_true hdone)⟩

end WebhookEngine.Ingest.Outcome
