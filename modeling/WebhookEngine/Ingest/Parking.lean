import WebhookEngine.Ingest.Outcome

/-!
# Which events are parked

Runs of `EventIngestor.tick` in which any call may raise. Beside the world goes why an event
is being parked: `_fan_out` has refused it, or one of its calls has raised. `tick` calls
`mark_failed` for both.

* `refused_of_fanOut`: an event that is refused has a payload without JSON, or a subscription
  whose URL does not parse;
* `step_parks`: what a step leaves of the parked events;
* `nothing_lost_iff`: the runs in which every event that is FAILED was refused.
-/

namespace WebhookEngine.Ingest.Parking

open Lib Lib.Run Events Ingestor Outcome Stores.Queue

variable {py : Python} {δ : Type} {dumps : δ → Option Bytes} {E : EventQueue δ} {q : LeaseQueue}

/-! ## Refusals -/

/-- No later tick could fan the event out to these subscriptions either. -/
def Refused (dumps : δ → Option Bytes) (f : FanOut py δ) : Prop :=
  f.subs ≠ [] ∧
    (dumps f.event.data = none ∨ ∃ sub ∈ f.subs, checkTarget f.ingestor.ssrf sub = none)

theorem checkTarget_of_targets {v : SsrfGuard.UrlSafetyValidator py}
    {subs : List SubscriptionSnapshot} (h : targets v subs = none) :
    ∃ sub ∈ subs, checkTarget v sub = none := by
  induction subs with
  | nil => cases h
  | cons sub subs ih =>
    cases hsub : checkTarget v sub with
    | none => exact ⟨sub, List.mem_cons_self .., hsub⟩
    | some ok =>
      rw [targets, hsub, Option.bind_some, Option.map_eq_none_iff] at h
      obtain ⟨sub', hsub', hnone⟩ := ih h
      exact ⟨sub', List.mem_cons_of_mem _ hsub', hnone⟩

theorem refused_of_fanOut {ingestor : EventIngestor py} {event : IncomingEvent δ}
    {now : Datetime} {subs : List SubscriptionSnapshot} {uuid : Nat → DeliveryId}
    (h : fanOut dumps ingestor.ssrf event now subs uuid = none) :
    Refused dumps ⟨ingestor, event, subs, []⟩ := by
  rw [fanOut] at h
  split at h
  case isTrue => cases h
  case isFalse hsubs =>
    refine ⟨hsubs, ?_⟩
    cases hdata : dumps event.data with
    | none => exact Or.inl rfl
    | some dataJson =>
      rw [hdata, Option.bind_some, Option.map_eq_none_iff] at h
      exact Or.inr (checkTarget_of_targets h)

/-! ## The world -/

/-- The world; for each tick the refusal of its current event, if that was refused; and for
each event the refusal for which it was parked last. -/
structure World (py : Python) (E : EventQueue δ) (q : LeaseQueue) (ι : Type) where
  base : Ingestor.World py E q ι
  refusal : ι → Option (FanOut py δ)
  parkedFor : EventId → Option (FanOut py δ)

/-- What `_fan_out` refuses when it has the subscriptions. -/
def refusalOf (dumps : δ → Option Bytes) (t : Tick py δ) : Reply → Option (FanOut py δ)
  | .subscriptions subs uuid _ => t.todo.head?.bind fun event =>
    if (fanOut dumps t.ingestor.ssrf event t.now subs uuid).isNone then
      some ⟨t.ingestor, event, subs, []⟩
    else none
  | _ => none

/-- A `mark_failed` that takes effect. -/
def marks : Reply → Bool
  | .marked => true
  | .markRaised effect => effect
  | _ => false

variable {ι : Type} [DecidableEq ι]

def init (E : EventQueue δ) (q : LeaseQueue) : World py E q ι :=
  ⟨Ingestor.init E q, fun _ => none, fun _ => none⟩

/-- The refusals after a step. -/
def refusals (dumps : δ → Option Bytes) (w : World py E q ι) :
    Label py δ ι → ι → Option (FanOut py δ)
  | .append .. => w.refusal
  | .begin i .. => Function.update w.refusal i none
  | .reply i r =>
    Function.update w.refusal i ((w.base.ticks i).bind fun t => refusalOf dumps t r)

/-- The event that a step parks, and its refusal. -/
def parked (w : World py E q ι) : Label py δ ι → Option (IncomingEvent δ × Option (FanOut py δ))
  | .reply i r =>
    if marks r then
      (w.base.ticks i).bind fun t => t.todo.head?.map fun event => (event, w.refusal i)
    else none
  | _ => none

/-- The refusals of the parked events after a step. -/
def parkings (w : World py E q ι) (l : Label py δ ι) : EventId → Option (FanOut py δ) :=
  (parked w l).elim w.parkedFor fun x => Function.update w.parkedFor x.1.eventId x.2

variable (dumps E q) in
def step (w : World py E q ι) (l : Label py δ ι) : Option (World py E q ι) :=
  (Ingestor.step dumps E q w.base l).map fun base => ⟨base, refusals dumps w l, parkings w l⟩

/-- The step parks an event that was not refused: `for_event` or `enqueue_many` has raised. -/
def ParksUnrefused (w : World py E q ι) (l : Label py δ ι) : Prop :=
  (parked w l).any (fun x => x.2.isNone) = true

instance (w : World py E q ι) (l : Label py δ ι) : Decidable (ParksUnrefused w l) := by
  unfold ParksUnrefused
  infer_instance

/-! ## The entries -/

/-- A `mark_failed` parks the current event. -/
theorem parks_of_marks {s s' : Shared py E q} {t t' : Tick py δ} {stage : Stage py δ} {r : Reply}
    (h : TickMoves dumps E q s t stage r s' t') (hr : marks r = true) :
    ∃ error event, t.todo.head? = some event ∧
      E.markFailed s.events event.eventId error = some s'.events := by
  cases h with
  | marked error event events htodo hmark => exact ⟨error, event, htodo, hmark⟩
  | markRaised error effect event events htodo hmark =>
    obtain rfl : effect = true := hr
    exact ⟨error, event, htodo, (hmark.resolve_left fun h => by cases h.1).2⟩
  | fanRaised r error hr' =>
    rcases hr' with rfl | ⟨subs, uuid, rfl⟩
    · cases hr
    · cases hr
  | _ => cases hr

/-- An entry that an update makes FAILED, unless it makes it so, was FAILED. -/
theorem failed_of_update {v : Option (Entry δ)} {c : Prop} [Decidable c]
    {status : EventIngestStatus} (hstatus : status ≠ .failed) {x : Entry δ}
    (hx : (if c then v.map (Entry.to status) else v) = some x) (hfailed : x.status = .failed) :
    v = some x := by
  split at hx
  · obtain ⟨x, -, rfl⟩ := Option.map_eq_some_iff.mp hx
    exact absurd hfailed hstatus
  · exact hx

theorem failed_of_reclaim {s : E.State} {now : Datetime} {id : EventId} {x : Entry δ}
    (hx : E.entry (E.reclaimStale s now).2 id = some x) (hfailed : x.status = .failed) :
    E.entry s id = some x := by
  rcases E.entry_reclaim s now id with hsame | ⟨e, -, hpending⟩
  · exact hsame ▸ hx
  · cases hpending.symm.trans hx
    cases hfailed

theorem failed_of_claim {s s' : E.State} {now : Datetime} {ttl n : Nat} {pick : List EventId}
    {es : List (IncomingEvent δ)} {last : Bool}
    (h : E.claimEvents s now ttl n pick = some (es, last, s')) {id : EventId} {x : Entry δ}
    (hx : E.entry s' id = some x) (hfailed : x.status = .failed) : E.entry s id = some x := by
  obtain ⟨-, -, hentry⟩ := E.entry_claim s now ttl n pick es last s' h
  rw [hentry id] at hx
  exact failed_of_update (fun h => by cases h) hx hfailed

/-- Nothing else does. -/
theorem failed_of_not_marks {s s' : Shared py E q} {t t' : Tick py δ} {stage : Stage py δ}
    {r : Reply} (h : TickMoves dumps E q s t stage r s' t') (hr : marks r = false) {id : EventId}
    {x : Entry δ} (hx : E.entry s'.events id = some x) (hfailed : x.status = .failed) :
    E.entry s.events id = some x := by
  cases h with
  | reclaimed effect =>
    cases effect with
    | true => exact failed_of_reclaim hx hfailed
    | false => exact hx
  | claimed pick n es last events t'' hclaim => exact failed_of_claim hclaim hx hfailed
  | claimRaised pick events hevents =>
    rcases hevents with rfl | ⟨n, pick, es, last, hclaim⟩
    · exact hx
    · exact failed_of_claim hclaim hx hfailed
  | marked error event events htodo hmark => cases hr
  | markRaised error effect event events htodo hmark =>
    obtain rfl : effect = false := hr
    obtain ⟨-, rfl⟩ := hmark.resolve_right fun h => by cases h.1
    exact hx
  | acked events hack =>
    have hentry := E.entry_ack s.events t.acked events hack id
    exact failed_of_update (fun h => by cases h) (hentry.symm.trans hx) hfailed
  | ackRaised ids events hack =>
    have hentry := E.entry_ack s.events (t.acked.filter (· ∈ ids)) events hack id
    exact failed_of_update (fun h => by cases h) (hentry.symm.trans hx) hfailed
  | skipped | fanned | fanRaised | enqueued | enqueueRaised | crash => exact hx

theorem failed_of_append {s s' : E.State} {now : Datetime} {e : IncomingEvent δ}
    (h : E.append s now e = some s') {id : EventId} {x : Entry δ} (hx : E.entry s' id = some x)
    (hfailed : x.status = .failed) : E.entry s id = some x := by
  obtain ⟨k, -, hentry⟩ := E.entry_append s now e s' h
  rw [hentry id] at hx
  cases hold : E.entry s id with
  | some y =>
    rw [hold, Option.some_or] at hx
    exact hx
  | none =>
    rw [hold, Option.none_or] at hx
    split at hx
    · cases hx
      cases hfailed
    · cases hx

/-! ## Steps -/

/-- What is known of the refusals, and of the events that are FAILED. -/
structure Invariant (dumps : δ → Option Bytes) (w : World py E q ι) : Prop where
  reached : ∃ as, run (Ingestor.step dumps E q) (Ingestor.init E q) as = some w.base
  refusal : ∀ i t f, w.base.ticks i = some t → w.refusal i = some f →
    t.todo.head? = some f.event ∧ Refused dumps f
  failed : ∀ id x, E.entry w.base.shared.events id = some x → x.status = .failed →
    ∃ f, w.parkedFor id = some f ∧ f.event = x.event ∧ Refused dumps f

/-- The store has the event that a tick is at. -/
theorem Invariant.current {w : World py E q ι} (hw : Invariant dumps w) {i : ι} {t : Tick py δ}
    {event : IncomingEvent δ} (ht : w.base.ticks i = some t) (htodo : t.todo.head? = some event) :
    ∃ x, E.entry w.base.shared.events event.eventId = some x ∧ x.event = event := by
  obtain ⟨as, has⟩ := hw.reached
  have hloop := ((outcome_run has).tick i t ht).2.1
  exact hloop.claimed event (hloop.todo event (List.mem_of_head? htodo))

/-- `_fan_out` refuses the current event, and the tick stays at it. -/
theorem refusalOf_spec {s s' : Shared py E q} {t t' : Tick py δ} {stage : Stage py δ} {r : Reply}
    {f : FanOut py δ} (h : TickMoves dumps E q s t stage r s' t')
    (hf : refusalOf dumps t r = some f) : t'.todo.head? = some f.event ∧ Refused dumps f := by
  cases h with
  | skipped subs uuid error event htodo hfan =>
    rw [refusalOf, htodo, Option.bind_some, hfan] at hf
    cases hf
  | fanned subs uuid error event records htodo hfan =>
    rw [refusalOf, htodo, Option.bind_some, hfan] at hf
    cases hf
  | fanRaised r error hr =>
    rcases hr with rfl | ⟨subs, uuid, rfl⟩
    · cases hf
    · obtain ⟨event, htodo, hf⟩ := Option.bind_eq_some_iff.mp hf
      obtain ⟨hnone, hf⟩ := Option.ite_none_right_eq_some.mp hf
      cases hf
      exact ⟨htodo, refused_of_fanOut (Option.isNone_iff_eq_none.mp hnone)⟩
  | _ => cases hf

omit [DecidableEq ι] in
theorem parked_of_marks {w : World py E q ι} {i : ι} {r : Reply} {t : Tick py δ}
    {event : IncomingEvent δ} (ht : w.base.ticks i = some t) (htodo : t.todo.head? = some event)
    (hr : marks r = true) : parked w (.reply i r) = some (event, w.refusal i) := by
  rw [parked, if_pos hr, ht, Option.bind_some, htodo, Option.map_some]

omit [DecidableEq ι] in
theorem parkings_of_not_marks (w : World py E q ι) {i : ι} {r : Reply} (hr : marks r = false) :
    parkings w (.reply i r) = w.parkedFor := by
  rw [parkings, parked, hr, if_neg Bool.false_ne_true, Option.elim_none]

theorem refusal_step {w : World py E q ι} {l : Label py δ ι} {base : Ingestor.World py E q ι}
    (hw : Invariant dumps w) (h : Ingestor.step dumps E q w.base l = some base) (i : ι)
    (t : Tick py δ) (f : FanOut py δ) (ht : base.ticks i = some t)
    (hf : refusals dumps w l i = some f) : t.todo.head? = some f.event ∧ Refused dumps f := by
  cases moves h with
  | append now event events happend => exact hw.refusal i t f ht hf
  | begin j ingestor now hnone =>
    rcases update_some ht with ⟨rfl, rfl⟩ | ⟨hij, ht⟩
    · cases (Function.update_self ..).symm.trans hf
    · exact hw.refusal i t f ht ((Function.update_of_ne hij ..).symm.trans hf)
  | reply j r u u' s hu hmoves =>
    rcases update_some ht with ⟨rfl, rfl⟩ | ⟨hij, ht⟩
    · have hself := (Function.update_self ..).symm.trans hf
      rw [hu, Option.bind_some] at hself
      exact refusalOf_spec hmoves hself
    · exact hw.refusal i t f ht ((Function.update_of_ne hij ..).symm.trans hf)

/-- A step that parks no event, or one that was refused. -/
theorem failed_step {w : World py E q ι} {l : Label py δ ι} {base : Ingestor.World py E q ι}
    (hw : Invariant dumps w) (hl : ¬ParksUnrefused w l)
    (h : Ingestor.step dumps E q w.base l = some base) (id : EventId) (x : Entry δ)
    (hx : E.entry base.shared.events id = some x) (hfailed : x.status = .failed) :
    ∃ f, parkings w l id = some f ∧ f.event = x.event ∧ Refused dumps f := by
  cases moves h with
  | append now event events happend =>
    exact hw.failed id x (failed_of_append happend hx hfailed) hfailed
  | begin i ingestor now hnone => exact hw.failed id x hx hfailed
  | reply i r t t' s ht hmoves =>
    cases hr : marks r with
    | false =>
      rw [parkings_of_not_marks w hr]
      exact hw.failed id x (failed_of_not_marks hmoves hr hx hfailed) hfailed
    | true =>
      obtain ⟨error, event, htodo, hevents⟩ := parks_of_marks hmoves hr
      have hparked := parked_of_marks ht htodo hr
      cases hwhy : w.refusal i with
      | none =>
        refine absurd ?_ hl
        rw [ParksUnrefused, hparked, Option.any_some, hwhy]
        rfl
      | some f =>
        obtain ⟨hhead, hrefused⟩ := hw.refusal i t f ht hwhy
        have hevent : f.event = event := Option.some_inj.mp (hhead.symm.trans htodo)
        rw [parkings, hparked, Option.elim_some, hwhy]
        have hentry := E.entry_markFailed w.base.shared.events event.eventId error _ hevents id
        have hx' := hentry.symm.trans hx
        split at hx'
        case isTrue hid =>
          subst hid
          obtain ⟨y, hy, rfl⟩ := Option.map_eq_some_iff.mp hx'
          obtain ⟨z, hz, hzevent⟩ := hw.current ht htodo
          cases hy.symm.trans hz
          exact ⟨f, Function.update_self .., hevent.trans hzevent.symm, hrefused⟩
        case isFalse hid =>
          rw [Function.update_of_ne hid]
          exact hw.failed id x hx' hfailed

/-- **Step lemma.** -/
theorem step_parks {w w' : World py E q ι} {l : Label py δ ι} (hw : Invariant dumps w)
    (hl : ¬ParksUnrefused w l) (h : step dumps E q w l = some w') : Invariant dumps w' := by
  obtain ⟨base, hbase, rfl⟩ := Option.map_eq_some_iff.mp h
  obtain ⟨as, has⟩ := hw.reached
  exact ⟨⟨as ++ [l], run_append_some.mpr ⟨w.base, has, run_cons_some.mpr ⟨base, hbase, rfl⟩⟩⟩,
    refusal_step hw hbase, failed_step hw hl hbase⟩

/-- An event that is parked and was not refused is FAILED for no reason. -/
theorem unrefused_step {w w' : World py E q ι} {l : Label py δ ι} (hw : Invariant dumps w)
    (hl : ParksUnrefused w l) (h : step dumps E q w l = some w') :
    ∃ id x, E.entry w'.base.shared.events id = some x ∧ x.status = .failed ∧
      w'.parkedFor id = none := by
  obtain ⟨base, hbase, rfl⟩ := Option.map_eq_some_iff.mp h
  obtain ⟨⟨event, why⟩, hparked, hnone⟩ := (Option.any_eq_true ..).mp hl
  obtain rfl : why = none := Option.isNone_iff_eq_none.mp hnone
  cases moves hbase with
  | append now event events happend => cases hparked
  | begin i ingestor now hidle => cases hparked
  | reply i r t t' s ht hmoves =>
    obtain ⟨hr, -⟩ := Option.ite_none_right_eq_some.mp hparked
    obtain ⟨error, event', htodo, hevents⟩ := parks_of_marks hmoves hr
    have hsame := (parked_of_marks ht htodo hr).symm.trans hparked
    obtain ⟨rfl, hwhy⟩ := Prod.mk.inj (Option.some_inj.mp hsame)
    obtain ⟨x, hx, -⟩ := hw.current ht htodo
    refine ⟨event'.eventId, x.to .failed, ?_, rfl, ?_⟩
    · rw [E.entry_markFailed _ _ _ _ hevents, if_pos rfl, hx, Option.map_some]
    · rw [parkings, hparked, Option.elim_some]
      exact Function.update_self ..

theorem invariant_init : Invariant dumps (init E q : World py E q ι) where
  reached := ⟨[], rfl⟩
  refusal _ _ _ ht := by cases ht
  failed id x hx := by
    cases (E.entry_empty id).symm.trans hx

/-! ## The in-memory event store -/

/-- A row that is CLAIMED has a lease. -/
def Leased (s : Memory.MemoryEventStore δ) : Prop :=
  ∀ row ∈ s.rows, row.status = .claimed → ∃ leaseUntil, row.leaseUntil = some leaseUntil

theorem leased_update {s : Memory.MemoryEventStore δ} {p : Memory.Row δ → Bool}
    {f : Memory.Row δ → Memory.Row δ} (hf : ∀ row, (f row).eventId = row.eventId) (h : Leased s)
    (hlease : ∀ row, (f row).status = .claimed →
      ∃ leaseUntil, (f row).leaseUntil = some leaseUntil) :
    Leased (s.update p f hf) := by
  intro row hrow hstatus
  rcases Table.mem_update hrow with hrow | ⟨row, -, rfl⟩
  · exact h row hrow hstatus
  · exact hlease row hstatus

theorem leased_append {s : Memory.MemoryEventStore δ} (h : Leased s) (e : IncomingEvent δ) :
    Leased (Memory.append s e) := by
  intro row hrow hstatus
  rcases Table.mem_insert hrow with hrow | rfl
  · exact h row hrow hstatus
  · cases hstatus

theorem leased_claim {s : Memory.MemoryEventStore δ} (h : Leased s) (now : Datetime)
    (ttl n : Nat) : Leased (Memory.claimEvents s now ttl n).2 :=
  leased_update (Memory.claim_eventId _) h fun _ _ => ⟨now + ttl, rfl⟩

theorem leased_close {s : Memory.MemoryEventStore δ} {p : Memory.Row δ → Bool}
    {status : EventIngestStatus} (h : Leased s) (hstatus : status ≠ .claimed) :
    Leased (s.update p (Memory.Row.close status) (Memory.close_eventId status)) :=
  leased_update (Memory.close_eventId status) h fun _ hclaimed => absurd hclaimed hstatus

theorem leased_reclaim {s : Memory.MemoryEventStore δ} (h : Leased s) (now : Datetime) :
    Leased (Memory.reclaimStale s now).2 :=
  leased_update Memory.reclaim_eventId h fun _ hclaimed => by cases hclaimed

/-- The event store of the world. -/
def store (w : World py (Memory.memoryEvents δ) q ι) : Memory.MemoryEventStore δ :=
  w.base.shared.events

theorem leased_moves {s s' : Shared py (Memory.memoryEvents δ) q} {t t' : Tick py δ}
    {stage : Stage py δ} {r : Reply} (hs : Leased s.events)
    (h : TickMoves dumps (Memory.memoryEvents δ) q s t stage r s' t') : Leased s'.events := by
  cases h with
  | reclaimed effect =>
    cases effect with
    | true => exact leased_reclaim hs t.now
    | false => exact hs
  | claimed pick n es last events t'' hclaim =>
    cases hclaim
    exact leased_claim hs _ _ _
  | claimRaised pick events hevents =>
    rcases hevents with rfl | ⟨n, pick, es, last, hclaim⟩
    · exact hs
    · cases hclaim
      exact leased_claim hs _ _ _
  | marked error event events htodo hmark =>
    cases hmark
    exact leased_close hs fun h => by cases h
  | markRaised error effect event events htodo hmark =>
    rcases hmark with ⟨-, rfl⟩ | ⟨-, hmark⟩
    · exact hs
    · cases hmark
      exact leased_close hs fun h => by cases h
  | acked events hack =>
    cases hack
    exact leased_close hs fun h => by cases h
  | ackRaised ids events hack =>
    cases hack
    exact leased_close hs fun h => by cases h
  | skipped | fanned | fanRaised | enqueued | enqueueRaised | crash => exact hs

theorem leased_step {w w' : World py (Memory.memoryEvents δ) q ι} {l : Label py δ ι}
    (hw : Leased (store w)) (h : step dumps (Memory.memoryEvents δ) q w l = some w') :
    Leased (store w') := by
  obtain ⟨base, hbase, rfl⟩ := Option.map_eq_some_iff.mp h
  cases moves hbase with
  | append now event events happend =>
    cases happend
    exact leased_append hw event
  | begin i ingestor now hnone => exact hw
  | reply i r t t' s ht hmoves => exact leased_moves hw hmoves

/-- How a row stands: a later tick can fan it out, or it has been fanned out, or refused. -/
inductive Standing (dumps : δ → Option Bytes) (w : World py (Memory.memoryEvents δ) q ι)
    (row : Memory.Row δ) : Prop
  | pending (hstatus : row.status = .pending)
  | claimed (leaseUntil : Datetime) (hstatus : row.status = .claimed)
      (hlease : row.leaseUntil = some leaseUntil)
      (hback : ∀ now, leaseUntil < now → row.reclaim ∈ (Memory.reclaimStale (store w) now).2.rows)
  | done (hstatus : row.status = .done) (hfanned : FannedOut w.base.shared row.eventId)
  | failed (f : FanOut py δ) (hstatus : row.status = .failed)
      (hparked : w.parkedFor row.eventId = some f) (hevent : f.event = row.event)
      (hrefused : Refused dumps f)

/-- No event is lost: none is FAILED unless it was refused. -/
def NothingLost (dumps : δ → Option Bytes) (w : World py (Memory.memoryEvents δ) q ι) : Prop :=
  ∀ row ∈ (store w).rows, Standing dumps w row

theorem nothingLost_of_invariant {w : World py (Memory.memoryEvents δ) q ι}
    (hw : Invariant dumps w) (hleased : Leased (store w)) : NothingLost dumps w := by
  intro row hrow
  have hentry : Memory.entry (store w) row.eventId = some row.entry := by
    rw [Memory.entry, Table.find?_of_mem hrow, Option.map_some]
  obtain ⟨as, has⟩ := hw.reached
  cases hstatus : row.status with
  | pending => exact .pending hstatus
  | claimed =>
    obtain ⟨leaseUntil, hlease⟩ := hleased row hrow hstatus
    refine .claimed leaseUntil hstatus hlease fun now hnow => ?_
    have hstale : row.stale now = true := by
      rw [Memory.Row.stale, hstatus, hlease]
      exact decide_eq_true hnow
    exact List.mem_map.mpr ⟨row, hrow, if_pos hstale⟩
  | done => exact .done hstatus ((outcome_run has).shared.2 row.eventId row.entry hentry hstatus)
  | failed =>
    obtain ⟨f, hparked, hevent, hrefused⟩ := hw.failed row.eventId row.entry hentry hstatus
    exact .failed f hstatus hparked hevent hrefused

omit [DecidableEq ι] in
theorem lost_of_unrefused {w : World py (Memory.memoryEvents δ) q ι} {id : EventId}
    {x : Entry δ} (hx : Memory.entry (store w) id = some x) (hfailed : x.status = .failed)
    (hnone : w.parkedFor id = none) : ¬NothingLost dumps w := by
  intro hw
  obtain ⟨row, hrow, rfl⟩ := Option.map_eq_some_iff.mp hx
  obtain ⟨hmem, rfl⟩ := Table.find?_eq_some.mp hrow
  cases hw row hmem with
  | pending hstatus => cases hstatus.symm.trans hfailed
  | claimed leaseUntil hstatus hlease hback => cases hstatus.symm.trans hfailed
  | done hstatus hfanned => cases hstatus.symm.trans hfailed
  | failed f hstatus hparked => cases hnone.symm.trans hparked

/-! ## Runs -/

/-- An entry stays. -/
theorem present_step {w w' : World py E q ι} {l : Label py δ ι} {id : EventId}
    (hw : (E.entry w.base.shared.events id).isSome = true)
    (h : step dumps E q w l = some w') :
    (E.entry w'.base.shared.events id).isSome = true := by
  obtain ⟨base, hbase, rfl⟩ := Option.map_eq_some_iff.mp h
  obtain ⟨x, hx⟩ := Option.isSome_iff_exists.mp hw
  cases moves hbase with
  | append now event events happend =>
    obtain ⟨x', hx', -⟩ := (later_append happend).kept id x hx
    exact Option.isSome_iff_exists.mpr ⟨x', hx'⟩
  | begin i ingestor now hnone => exact hw
  | reply i r t t' s ht hmoves =>
    obtain ⟨x', hx', -⟩ := (later_of_moves hmoves).kept id x hx
    exact Option.isSome_iff_exists.mpr ⟨x', hx'⟩

/-- An event that was appended has a row. -/
theorem appended_run {as : List (Label py δ ι)} {w : World py (Memory.memoryEvents δ) q ι}
    (h : run (step dumps (Memory.memoryEvents δ) q) (init _ q) as = some w) {now : Datetime}
    {event : IncomingEvent δ} (hmem : .append now event ∈ as) :
    ∃ row ∈ (store w).rows, row.eventId = event.eventId := by
  obtain ⟨bs, cs, rfl⟩ := List.append_of_mem hmem
  obtain ⟨u, -, h⟩ := run_append_some.mp h
  obtain ⟨v, hv, h⟩ := run_cons_some.mp h
  have hpresent : (Memory.entry (store v) event.eventId).isSome = true := by
    obtain ⟨base, hbase, rfl⟩ := Option.map_eq_some_iff.mp hv
    cases moves hbase with
    | append now event events happend =>
      cases happend
      have hentry := Memory.entry_append (store u) event event.eventId
      rw [if_pos rfl] at hentry
      refine (congrArg Option.isSome hentry).trans ?_
      rw [Option.isSome_or, Option.isSome_some, Bool.or_true]
  have hlast := run_invariant (I := fun u => (Memory.entry (store u) event.eventId).isSome = true)
    (fun u l v hu hstep => present_step hu hstep) hpresent h
  obtain ⟨x, hx⟩ := Option.isSome_iff_exists.mp hlast
  obtain ⟨row, hrow, -⟩ := Option.map_eq_some_iff.mp hx
  exact ⟨row, Table.find?_eq_some.mp hrow⟩

/-- **No event is lost**, in any state of a run, if and only if no step of it parks an event
because a call of its fan-out has raised. -/
theorem nothing_lost_iff (dumps : δ → Option Bytes) (q : LeaseQueue) (as : List (Label py δ ι))
    (w : World py (Memory.memoryEvents δ) q ι)
    (h : run (step dumps (Memory.memoryEvents δ) q) (init _ q) as = some w) :
    (Along (step dumps (Memory.memoryEvents δ) q)
        (fun u l => ∀ v, step dumps (Memory.memoryEvents δ) q u l = some v → NothingLost dumps v)
        (init _ q) as ↔
      Along (step dumps (Memory.memoryEvents δ) q) (fun u l => ¬ParksUnrefused u l)
        (init _ q) as) ∧
    ∀ now event, .append now event ∈ as → ∃ row ∈ (store w).rows, row.eventId = event.eventId := by
  refine ⟨?_, fun now event hmem => appended_run h hmem⟩
  have hkept : ∀ (u : World py (Memory.memoryEvents δ) q ι) l v,
      Invariant dumps u ∧ Leased (store u) → ¬ParksUnrefused u l →
      step dumps (Memory.memoryEvents δ) q u l = some v → Invariant dumps v ∧ Leased (store v) :=
    fun u l v hu hl hv => ⟨step_parks hu.1 hl hv, leased_step hu.2 hv⟩
  refine along_iff (I := fun u => Invariant dumps u ∧ Leased (store u)) (fun u l v hu hv => ?_)
    hkept ⟨invariant_init, fun row hrow => by cases hrow⟩ h
  constructor
  · intro hnothing hl
    obtain ⟨id, x, hx, hfailed, hnone⟩ := unrefused_step hu.1 hl hv
    exact lost_of_unrefused hx hfailed hnone (hnothing v hv)
  · intro hl v' hv'
    obtain ⟨hinv, hleased⟩ := hkept u l v' hu hl hv'
    exact nothingLost_of_invariant hinv hleased

abbrev ExampleWorld :=
  World Dispatcher.examplePython (Memory.memoryEvents Unit)
    Stores.Memory.memoryQueue.toLeaseQueue Nat

def exampleStep : ExampleWorld → Label Dispatcher.examplePython Unit Nat → Option ExampleWorld :=
  step exampleDumps _ _

/-- `for_event` raises, and the tick stops there; the event is fanned out by a later tick. -/
def raisedAndStopped : List (Label Dispatcher.examplePython Unit Nat) := [
  .append 0 exampleEvent, .begin 0 exampleIngestor 5, .reply 0 (.reclaimed true),
  .reply 0 (.claimed []), .reply 0 (.forEventRaised "OperationalError"), .reply 0 .crash,
  .begin 1 exampleIngestor 100, .reply 1 (.reclaimed true), .reply 1 (.claimed []),
  .reply 1 (.subscriptions exampleSubscriptions (fun i => ["d_1", "d_2"].getD i "") ""),
  .reply 1 .enqueued, .reply 1 .acked]

theorem nothing_lost_iff_later_tick : ∃ w : ExampleWorld,
    run exampleStep (init _ _) raisedAndStopped = some w ∧
    Memory.entry (store w) "evt_1" = some ⟨exampleEvent, .done⟩ ∧
    Along exampleStep (fun u l => ∀ v, exampleStep u l = some v → NothingLost exampleDumps v)
      (init _ _) raisedAndStopped := by
  obtain ⟨w, hw, hdone⟩ := (Option.any_eq_true ..).mp (by decide +kernel :
    (run exampleStep (init _ _) raisedAndStopped).any (fun w =>
      decide (Memory.entry (store w) "evt_1" = some ⟨exampleEvent, .done⟩)) = true)
  exact ⟨w, hw, of_decide_eq_true hdone,
    (nothing_lost_iff exampleDumps _ raisedAndStopped w hw).1.mpr (by decide +kernel)⟩

/-- `for_event` raises, and the tick goes on. -/
def raisedOnce : List (Label Dispatcher.examplePython Unit Nat) := [
  .append 0 exampleEvent, .begin 0 exampleIngestor 5, .reply 0 (.reclaimed true),
  .reply 0 (.claimed []), .reply 0 (.forEventRaised "OperationalError"), .reply 0 .marked,
  .begin 1 exampleIngestor 100, .reply 1 (.reclaimed true), .reply 1 (.claimed [])]

/-- The event is parked, and the tick after the end of its lease claims nothing. -/
theorem parked_by_a_raised_call : ∃ w : ExampleWorld,
    run exampleStep (init _ _) raisedOnce = some w ∧
    Memory.entry (store w) "evt_1" = some ⟨exampleEvent, .failed⟩ ∧
    (exampleDumps exampleEvent.data).isSome = true ∧ w.parkedFor "evt_1" = none ∧
    (w.base.ticks 1).map (·.events) = some [] := by
  obtain ⟨w, hw, hfacts⟩ := (Option.any_eq_true ..).mp (by decide +kernel :
    (run exampleStep (init _ _) raisedOnce).any (fun w =>
      decide (Memory.entry (store w) "evt_1" = some ⟨exampleEvent, .failed⟩ ∧
        (exampleDumps exampleEvent.data).isSome = true ∧ (w.parkedFor "evt_1").isNone = true ∧
        (w.base.ticks 1).map (·.events) = some [])) = true)
  obtain ⟨hfailed, hdumps, hnone, hevents⟩ := of_decide_eq_true hfacts
  exact ⟨w, hw, hfailed, hdumps, Option.isNone_iff_eq_none.mp hnone, hevents⟩

end WebhookEngine.Ingest.Parking
