import WebhookEngine.Dispatcher
import WebhookEngine.Ingest.Events
import WebhookEngine.Lib.Run

/-!
# The ingestor

`EventIngestor` of `ingest/ingestor.py`, and the world of any number of its ticks over
one event store and one delivery store. A tick is cut at its awaits: a step is the end
of the call a tick awaits, normal or not, and what the tick does up to its next await.
A call that raises may have taken effect, in whole or in part; a tick may crash at any
await.

* `tick_moves`: what one step of a tick can do;
* `fanOut_spec`: what `_fan_out` hands to `enqueue_many`;
* `holds_run`: the invariant rule of the world;
* `minted_step`: no two records that are queued or stored have one id.
-/

namespace WebhookEngine.Ingest.Ingestor

open Lib Lib.Url SsrfGuard Dispatcher Events Stores.Queue

variable {py : Python} {δ : Type}

structure EventIngestor (py : Python) where
  ssrf : UrlSafetyValidator py
  leaseTtlS : Nat := 30
  batchSize : Nat := 100

/-! ## Fan-out -/

/-- Whether the target of a subscription passes `check_ip`; `none` is the `ValueError`
of a URL. -/
def checkTarget (v : UrlSafetyValidator py) (sub : SubscriptionSnapshot) : Option Bool :=
  (urlsplit py sub.url.toList).bind fun parsed => parsed.port.map fun port =>
    let host := parsed.hostname py
    (checkIp v sub.resolvedIp.toList (if host = [] then none else some host)
      (some (targetPort parsed port))).isOk

/-- The subscriptions the loop of `_fan_out` does not skip. -/
def targets (v : UrlSafetyValidator py) :
    List SubscriptionSnapshot → Option (List SubscriptionSnapshot)
  | [] => some []
  | sub :: subs =>
    (checkTarget v sub).bind fun ok =>
      (targets v subs).map fun rest => if ok then sub :: rest else rest

def deliveryRecord (event : IncomingEvent δ) (now : Datetime) (dataJson : Bytes)
    (sub : SubscriptionSnapshot) (id : DeliveryId) : DeliveryRecord where
  deliveryId := id
  subscriptionId := sub.id
  ownerId := sub.ownerId
  eventName := event.event
  eventId := event.eventId
  schemaVersion := event.schemaVersion
  tenantId := event.tenantId
  dataJson := dataJson
  emittedAt := event.createdAt.getD now
  targetUrl := sub.url
  resolvedIp := sub.resolvedIp
  redeliveryOf := none
  attempts := 0
  fireAt := now
  createdAt := now
  status := .pending

/-- The records `_fan_out` makes of the subscriptions that `for_event` returns; `uuid`
answers the calls of `uuid4`, `none` is an exception. -/
def fanOut (dumps : δ → Option Bytes) (v : UrlSafetyValidator py) (event : IncomingEvent δ)
    (now : Datetime) (subs : List SubscriptionSnapshot) (uuid : Nat → DeliveryId) :
    Option (List DeliveryRecord) :=
  if subs = [] then some []
  else
    (dumps event.data).bind fun dataJson => (targets v subs).map fun subs =>
      subs.mapIdx fun i sub => deliveryRecord event now dataJson sub (uuid i)

/-- The subscription a record was made of. -/
def snapshot (r : DeliveryRecord) : SubscriptionSnapshot where
  id := r.subscriptionId
  ownerId := r.ownerId
  url := r.targetUrl
  resolvedIp := r.resolvedIp

/-- An execution of `_fan_out` that has asked for the subscriptions. -/
structure FanOut (py : Python) (δ : Type) where
  ingestor : EventIngestor py
  event : IncomingEvent δ
  subs : List SubscriptionSnapshot
  records : List DeliveryRecord

def passes (v : UrlSafetyValidator py) (sub : SubscriptionSnapshot) : Bool :=
  checkTarget v sub = some true

theorem targets_eq {v : UrlSafetyValidator py} {subs ok : List SubscriptionSnapshot}
    (h : targets v subs = some ok) : ok = subs.filter (passes v) := by
  induction subs generalizing ok with
  | nil =>
    cases h
    rfl
  | cons sub subs ih =>
    obtain ⟨pass, hpass, h⟩ := Option.bind_eq_some_iff.mp h
    obtain ⟨rest, hrest, rfl⟩ := Option.map_eq_some_iff.mp h
    rw [ih hrest]
    cases pass with
    | true => rw [List.filter_cons_of_pos (by simp [passes, hpass]), if_pos rfl]
    | false =>
      rw [List.filter_cons_of_neg (by simp [passes, hpass])]
      rfl

/-- One record for each subscription whose target passes, with the event's fields. -/
structure Fanned (dumps : δ → Option Bytes) (f : FanOut py δ) : Prop where
  snapshots : f.records.map snapshot = f.subs.filter (passes f.ingestor.ssrf)
  fields : ∀ r ∈ f.records, r.eventId = f.event.eventId ∧ r.eventName = f.event.event ∧
    r.tenantId = f.event.tenantId ∧ dumps f.event.data = some r.dataJson
  queued : ∀ r ∈ f.records, r.status = .pending ∧ r.attempts = 0 ∧ r.redeliveryOf = none

theorem fanOut_spec {dumps : δ → Option Bytes} {ingestor : EventIngestor py}
    {event : IncomingEvent δ} {now : Datetime} {subs : List SubscriptionSnapshot}
    {uuid : Nat → DeliveryId} {records : List DeliveryRecord}
    (h : fanOut dumps ingestor.ssrf event now subs uuid = some records) :
    Fanned dumps ⟨ingestor, event, subs, records⟩ := by
  rw [fanOut] at h
  split at h
  case isTrue hsubs =>
    cases h
    subst hsubs
    exact ⟨rfl, fun r hr => (by cases hr), fun r hr => (by cases hr)⟩
  case isFalse =>
    obtain ⟨dataJson, hdata, h⟩ := Option.bind_eq_some_iff.mp h
    obtain ⟨ok, hok, rfl⟩ := Option.map_eq_some_iff.mp h
    have hmade : ∀ r ∈ ok.mapIdx fun i sub => deliveryRecord event now dataJson sub (uuid i),
        ∃ sub id, r = deliveryRecord event now dataJson sub id := by
      intro r hr
      obtain ⟨i, hi, rfl⟩ := List.mem_mapIdx.mp hr
      exact ⟨_, _, rfl⟩
    refine ⟨?_, fun r hr => ?_, fun r hr => ?_⟩
    · rw [← targets_eq hok]
      apply List.ext_getElem
      · simp
      · intro i hi hi'
        simp only [List.getElem_map, List.getElem_mapIdx]
        rfl
    · obtain ⟨sub, id, rfl⟩ := hmade r hr
      exact ⟨rfl, rfl, rfl, hdata⟩
    · obtain ⟨sub, id, rfl⟩ := hmade r hr
      exact ⟨rfl, rfl, rfl⟩

/-! ## One tick -/

structure IngestTickStats where
  claimed : Nat
  fannedOut : Nat
  failed : Nat
  deriving DecidableEq, Repr

/-- The call a tick awaits, or how it has ended. -/
inductive Stage (py : Python) (δ : Type) where
  | reclaim
  | claim
  | forEvent
  | enqueue (f : FanOut py δ)
  | markFailed (error : String)
  | ack
  | returned (stats : IngestTickStats)
  | raised
  | crashed

/-- The variables of a tick; `todo` is what the loop has before it, the event it is at
first. -/
structure Tick (py : Python) (δ : Type) where
  ingestor : EventIngestor py
  now : Datetime
  events : List (IncomingEvent δ) := []
  todo : List (IncomingEvent δ) := []
  acked : List EventId := []
  fannedOut : Nat := 0
  failed : Nat := 0
  stage : Stage py δ := .reclaim

/-- To the next event, or past the loop. -/
def Tick.proceed (t : Tick py δ) : Tick py δ :=
  { t with
    stage :=
      match t.todo with
      | _ :: _ => .forEvent
      | [] =>
        if t.acked = [] then .returned ⟨t.events.length, t.fannedOut, t.failed⟩ else .ack }

def Tick.succeed (t : Tick py δ) (f : FanOut py δ) : Tick py δ :=
  Tick.proceed
    { t with
      todo := t.todo.tail
      acked := t.acked ++ [f.event.eventId]
      fannedOut := t.fannedOut + f.records.length }

def Tick.fail (t : Tick py δ) : Tick py δ :=
  Tick.proceed { t with todo := t.todo.tail, failed := t.failed + 1 }

/-- How the awaited call ends. A call that raises has the effect that is named. -/
inductive Reply where
  | reclaimed (effect : Bool)
  | claimed (pick : List EventId)
  | claimRaised (pick : Option (List EventId))
  | subscriptions (subs : List SubscriptionSnapshot) (uuid : Nat → DeliveryId) (error : String)
  | forEventRaised (error : String)
  | enqueued
  | enqueueRaised (stored : List DeliveryId) (error : String)
  | marked
  | markRaised (effect : Bool)
  | acked
  | ackRaised (ids : List EventId)
  | crash

/-! ## The world -/

/-- The stores, the delivery ids that `uuid4` has made, and the executions of `_fan_out`
that have completed. -/
structure Shared (py : Python) (E : EventQueue δ) (q : LeaseQueue) where
  events : E.State
  deliveries : q.State
  minted : List DeliveryId := []
  fanOuts : List (FanOut py δ) := []

variable (dumps : δ → Option Bytes) (E : EventQueue δ) (q : LeaseQueue)

/-- `uuid4` makes a new id each time. -/
def fresh (minted : List DeliveryId) (records : List DeliveryRecord) : Bool :=
  decide (records.map (·.deliveryId)).Nodup && records.all fun r => r.deliveryId ∉ minted

/-- What the loop does with the subscriptions of an event. -/
def fanOutStep (s : Shared py E q) (t : Tick py δ) (event : IncomingEvent δ)
    (subs : List SubscriptionSnapshot) (error : String) :
    Option (List DeliveryRecord) → Option (Shared py E q × Tick py δ)
  | none => some (s, { t with stage := .markFailed error })
  | some [] =>
    let f : FanOut py δ := ⟨t.ingestor, event, subs, []⟩
    some ({ s with fanOuts := s.fanOuts ++ [f] }, t.succeed f)
  | some (r :: records) =>
    if fresh s.minted (r :: records) then
      some ({ s with minted := s.minted ++ (r :: records).map (·.deliveryId) },
        { t with stage := .enqueue ⟨t.ingestor, event, subs, r :: records⟩ })
    else none

/-- One step of a tick. -/
def tickStep (s : Shared py E q) (t : Tick py δ) : Stage py δ → Reply →
    Option (Shared py E q × Tick py δ)
  | .reclaim, .reclaimed effect =>
    let events := if effect then (E.reclaimStale s.events t.now).2 else s.events
    some ({ s with events := events }, { t with stage := .claim })
  | .claim, .claimed pick =>
    (E.claimEvents s.events t.now t.ingestor.leaseTtlS (t.ingestor.batchSize - t.events.length)
      pick).map fun (es, last, events) =>
        let t' := { t with events := t.events ++ es, todo := t.todo ++ es }
        ({ s with events := events }, if last then t'.proceed else t')
  | .claim, .claimRaised none => some (s, { t with stage := .raised })
  | .claim, .claimRaised (some pick) =>
    (E.claimEvents s.events t.now t.ingestor.leaseTtlS (t.ingestor.batchSize - t.events.length)
      pick).map fun (_, _, events) => ({ s with events := events }, { t with stage := .raised })
  | .forEvent, .subscriptions subs uuid error =>
    t.todo.head?.bind fun event => fanOutStep E q s t event subs error
      (fanOut dumps t.ingestor.ssrf event t.now subs uuid)
  | .forEvent, .forEventRaised error => some (s, { t with stage := .markFailed error })
  | .enqueue f, .enqueued =>
    (q.enqueueMany s.deliveries f.records).map fun deliveries =>
      ({ s with deliveries := deliveries, fanOuts := s.fanOuts ++ [f] }, t.succeed f)
  | .enqueue f, .enqueueRaised stored error =>
    (q.enqueueMany s.deliveries (f.records.filter fun r => r.deliveryId ∈ stored)).map
      fun deliveries => ({ s with deliveries := deliveries }, { t with stage := .markFailed error })
  | .markFailed error, .marked =>
    t.todo.head?.bind fun event => (E.markFailed s.events event.eventId error).map fun events =>
      ({ s with events := events }, t.fail)
  | .markFailed error, .markRaised true =>
    t.todo.head?.bind fun event => (E.markFailed s.events event.eventId error).map fun events =>
      ({ s with events := events }, { t with stage := .raised })
  | .markFailed _, .markRaised false =>
    t.todo.head?.map fun _ => (s, { t with stage := .raised })
  | .ack, .acked =>
    (E.ack s.events t.acked).map fun events => ({ s with events := events },
      { t with stage := .returned ⟨t.events.length, t.fannedOut, t.failed⟩ })
  | .ack, .ackRaised ids =>
    (E.ack s.events (t.acked.filter (· ∈ ids))).map fun events =>
      ({ s with events := events }, { t with stage := .raised })
  | .returned _, .crash | .raised, .crash | .crashed, .crash => none
  | _, .crash => some (s, { t with stage := .crashed })
  | _, _ => none

inductive Label (py : Python) (δ ι : Type) where
  | append (now : Datetime) (event : IncomingEvent δ)
  | begin (i : ι) (ingestor : EventIngestor py) (now : Datetime)
  | reply (i : ι) (r : Reply)

/-- Each index is one execution of `tick`. -/
structure World (py : Python) (E : EventQueue δ) (q : LeaseQueue) (ι : Type) where
  shared : Shared py E q
  ticks : ι → Option (Tick py δ)

variable {ι : Type} [DecidableEq ι]

def init : World py E q ι := ⟨⟨E.empty, q.empty, [], []⟩, fun _ => none⟩

def step (w : World py E q ι) : Label py δ ι → Option (World py E q ι)
  | .append now event =>
    (E.append w.shared.events now event).map fun events =>
      { w with shared := { w.shared with events := events } }
  | .begin i ingestor now =>
    match w.ticks i with
    | none => some { w with ticks := Function.update w.ticks i (some { ingestor, now }) }
    | some _ => none
  | .reply i r =>
    (w.ticks i).bind fun t => (tickStep dumps E q w.shared t t.stage r).map fun (s, t') =>
      ⟨s, Function.update w.ticks i (some t')⟩

/-! ## Steps -/

variable {dumps E q}

/-- What one step of a tick can do. -/
inductive TickMoves (dumps : δ → Option Bytes) (E : EventQueue δ) (q : LeaseQueue)
    (s : Shared py E q) (t : Tick py δ) :
    Stage py δ → Reply → Shared py E q → Tick py δ → Prop where
  | reclaimed (effect : Bool) :
      TickMoves dumps E q s t .reclaim (.reclaimed effect)
        { s with events := if effect then (E.reclaimStale s.events t.now).2 else s.events }
        { t with stage := .claim }
  | claimed (pick : List EventId) (n : Nat) (es : List (IncomingEvent δ)) (last : Bool)
      (events : E.State) (t' : Tick py δ)
      (hclaim : E.claimEvents s.events t.now t.ingestor.leaseTtlS n pick = some (es, last, events))
      (ht' : t' = { t with events := t.events ++ es, todo := t.todo ++ es }) :
      TickMoves dumps E q s t .claim (.claimed pick) { s with events := events }
        (if last then t'.proceed else t')
  | claimRaised (pick : Option (List EventId)) (events : E.State)
      (hevents : events = s.events ∨ ∃ n pick es last,
        E.claimEvents s.events t.now t.ingestor.leaseTtlS n pick = some (es, last, events)) :
      TickMoves dumps E q s t .claim (.claimRaised pick) { s with events := events }
        { t with stage := .raised }
  | skipped (subs : List SubscriptionSnapshot) (uuid : Nat → DeliveryId) (error : String)
      (event : IncomingEvent δ) (htodo : t.todo.head? = some event)
      (hfan : fanOut dumps t.ingestor.ssrf event t.now subs uuid = some []) :
      TickMoves dumps E q s t .forEvent (.subscriptions subs uuid error)
        { s with fanOuts := s.fanOuts ++ [⟨t.ingestor, event, subs, []⟩] }
        (t.succeed ⟨t.ingestor, event, subs, []⟩)
  | fanned (subs : List SubscriptionSnapshot) (uuid : Nat → DeliveryId) (error : String)
      (event : IncomingEvent δ) (records : List DeliveryRecord)
      (htodo : t.todo.head? = some event)
      (hfan : fanOut dumps t.ingestor.ssrf event t.now subs uuid = some records)
      (hfresh : fresh s.minted records = true) :
      TickMoves dumps E q s t .forEvent (.subscriptions subs uuid error)
        { s with minted := s.minted ++ records.map (·.deliveryId) }
        { t with stage := .enqueue ⟨t.ingestor, event, subs, records⟩ }
  | fanRaised (r : Reply) (error : String)
      (hr : r = .forEventRaised error ∨ ∃ subs uuid, r = .subscriptions subs uuid error) :
      TickMoves dumps E q s t .forEvent r s { t with stage := .markFailed error }
  | enqueued (f : FanOut py δ) (deliveries : q.State)
      (henqueue : q.enqueueMany s.deliveries f.records = some deliveries) :
      TickMoves dumps E q s t (.enqueue f) .enqueued
        { s with deliveries := deliveries, fanOuts := s.fanOuts ++ [f] } (t.succeed f)
  | enqueueRaised (f : FanOut py δ) (stored : List DeliveryId) (error : String)
      (deliveries : q.State) (henqueue : q.enqueueMany s.deliveries
        (f.records.filter fun r => r.deliveryId ∈ stored) = some deliveries) :
      TickMoves dumps E q s t (.enqueue f) (.enqueueRaised stored error)
        { s with deliveries := deliveries } { t with stage := .markFailed error }
  | marked (error : String) (event : IncomingEvent δ) (events : E.State)
      (htodo : t.todo.head? = some event)
      (hmark : E.markFailed s.events event.eventId error = some events) :
      TickMoves dumps E q s t (.markFailed error) .marked { s with events := events } t.fail
  | markRaised (error : String) (effect : Bool) (event : IncomingEvent δ) (events : E.State)
      (htodo : t.todo.head? = some event)
      (hmark : effect = false ∧ events = s.events ∨
        effect = true ∧ E.markFailed s.events event.eventId error = some events) :
      TickMoves dumps E q s t (.markFailed error) (.markRaised effect)
        { s with events := events } { t with stage := .raised }
  | acked (events : E.State) (hack : E.ack s.events t.acked = some events) :
      TickMoves dumps E q s t .ack .acked { s with events := events }
        { t with stage := .returned ⟨t.events.length, t.fannedOut, t.failed⟩ }
  | ackRaised (ids : List EventId) (events : E.State)
      (hack : E.ack s.events (t.acked.filter (· ∈ ids)) = some events) :
      TickMoves dumps E q s t .ack (.ackRaised ids) { s with events := events }
        { t with stage := .raised }
  | crash (stage : Stage py δ) :
      TickMoves dumps E q s t stage .crash s { t with stage := .crashed }

theorem tick_moves {s s' : Shared py E q} {t t' : Tick py δ} {stage : Stage py δ} {r : Reply}
    (h : tickStep dumps E q s t stage r = some (s', t')) :
    TickMoves dumps E q s t stage r s' t' := by
  rw [tickStep.eq_def] at h
  split at h
  · cases h
    exact .reclaimed _
  · obtain ⟨⟨es, last, events⟩, hclaim, h⟩ := Option.map_eq_some_iff.mp h
    cases h
    exact .claimed _ _ es last events _ hclaim rfl
  · cases h
    exact .claimRaised none _ (Or.inl rfl)
  · obtain ⟨⟨es, last, events⟩, hclaim, h⟩ := Option.map_eq_some_iff.mp h
    cases h
    exact .claimRaised _ events (Or.inr ⟨_, _, es, last, hclaim⟩)
  · obtain ⟨event, htodo, h⟩ := Option.bind_eq_some_iff.mp h
    rw [fanOutStep.eq_def] at h
    split at h
    · cases h
      exact .fanRaised _ _ (Or.inr ⟨_, _, rfl⟩)
    next hfan =>
      cases h
      exact .skipped _ _ _ event htodo hfan
    next r records hfan =>
      obtain ⟨hfresh, h⟩ := Option.ite_none_right_eq_some.mp h
      cases h
      exact .fanned _ _ _ event _ htodo hfan hfresh
  · cases h
    exact .fanRaised _ _ (Or.inl rfl)
  · obtain ⟨deliveries, henqueue, h⟩ := Option.map_eq_some_iff.mp h
    cases h
    exact .enqueued _ deliveries henqueue
  · obtain ⟨deliveries, henqueue, h⟩ := Option.map_eq_some_iff.mp h
    cases h
    exact .enqueueRaised _ _ _ deliveries henqueue
  · obtain ⟨event, htodo, h⟩ := Option.bind_eq_some_iff.mp h
    obtain ⟨events, hmark, h⟩ := Option.map_eq_some_iff.mp h
    cases h
    exact .marked _ event events htodo hmark
  · obtain ⟨event, htodo, h⟩ := Option.bind_eq_some_iff.mp h
    obtain ⟨events, hmark, h⟩ := Option.map_eq_some_iff.mp h
    cases h
    exact .markRaised _ true event events htodo (Or.inr ⟨rfl, hmark⟩)
  · obtain ⟨event, htodo, h⟩ := Option.map_eq_some_iff.mp h
    cases h
    exact .markRaised _ false event _ htodo (Or.inl ⟨rfl, rfl⟩)
  · obtain ⟨events, hack, h⟩ := Option.map_eq_some_iff.mp h
    cases h
    exact .acked events hack
  · obtain ⟨events, hack, h⟩ := Option.map_eq_some_iff.mp h
    cases h
    exact .ackRaised _ events hack
  · cases h
  · cases h
  · cases h
  · cases h
    exact .crash _
  · cases h

/-- What a step of the world can do. -/
inductive Moves (dumps : δ → Option Bytes) (w : World py E q ι) :
    Label py δ ι → World py E q ι → Prop where
  | append (now : Datetime) (event : IncomingEvent δ) (events : E.State)
      (happend : E.append w.shared.events now event = some events) :
      Moves dumps w (.append now event) { w with shared := { w.shared with events := events } }
  | begin (i : ι) (ingestor : EventIngestor py) (now : Datetime) (hnone : w.ticks i = none) :
      Moves dumps w (.begin i ingestor now)
        { w with ticks := Function.update w.ticks i (some { ingestor, now }) }
  | reply (i : ι) (r : Reply) (t t' : Tick py δ) (s : Shared py E q) (ht : w.ticks i = some t)
      (hmoves : TickMoves dumps E q w.shared t t.stage r s t') :
      Moves dumps w (.reply i r) ⟨s, Function.update w.ticks i (some t')⟩

theorem moves {w w' : World py E q ι} {l : Label py δ ι} (h : step dumps E q w l = some w') :
    Moves dumps w l w' := by
  cases l with
  | append now event =>
    obtain ⟨events, happend, rfl⟩ := Option.map_eq_some_iff.mp h
    exact .append now event events happend
  | begin i ingestor now =>
    rw [step] at h
    split at h
    next hnone =>
      cases h
      exact .begin i ingestor now hnone
    · cases h
  | reply i r =>
    obtain ⟨t, ht, h⟩ := Option.bind_eq_some_iff.mp h
    obtain ⟨⟨s, t'⟩, hstep, rfl⟩ := Option.map_eq_some_iff.mp h
    exact .reply i r t t' s ht (tick_moves hstep)

theorem update_some {ticks : ι → Option (Tick py δ)} {i j : ι} {t u : Tick py δ}
    (h : Function.update ticks i (some t) j = some u) :
    (j = i ∧ u = t) ∨ (j ≠ i ∧ ticks j = some u) := by
  by_cases hj : j = i
  · subst hj
    cases (Function.update_self ..).symm.trans h
    exact Or.inl ⟨rfl, rfl⟩
  · exact Or.inr ⟨hj, (Function.update_of_ne hj ..).symm.trans h⟩

/-- An invariant of the world: `S` of the shared state, `T` of every tick, `R` of any two. -/
structure Holds (S : Shared py E q → Prop) (T : Shared py E q → Tick py δ → Prop)
    (R : Tick py δ → Tick py δ → Prop) (w : World py E q ι) : Prop where
  shared : S w.shared
  tick : ∀ i t, w.ticks i = some t → T w.shared t
  apart : ∀ i j t u, i ≠ j → w.ticks i = some t → w.ticks j = some u → R t u

/-- **Invariant rule of the world.** Of a reply the rule asks for the tick that gets it,
and for any other tick what the change of the shared state does to it. -/
theorem holds_run {S : Shared py E q → Prop} {T : Shared py E q → Tick py δ → Prop}
    {R : Tick py δ → Tick py δ → Prop} {P : World py E q ι → Label py δ ι → Prop}
    (hsymm : ∀ t u, R t u → R u t) (hinit : S ⟨E.empty, q.empty, [], []⟩)
    (happend : ∀ (s : Shared py E q) now event events, S s →
      E.append s.events now event = some events →
      S { s with events := events } ∧ ∀ t, T s t → T { s with events := events } t)
    (hbegin : ∀ s ingestor now, S s → T s { ingestor, now } ∧ ∀ u, R { ingestor, now } u)
    (hreply : ∀ (w : World py E q ι) i r t t' s, P w (.reply i r) → w.ticks i = some t →
      S w.shared → T w.shared t → TickMoves dumps E q w.shared t t.stage r s t' →
      S s ∧ T s t' ∧ ∀ j u, j ≠ i → w.ticks j = some u → T w.shared u → R t u →
        T s u ∧ R t' u)
    {as : List (Label py δ ι)} {w : World py E q ι}
    (hP : Run.Along (step dumps E q) P (init E q) as)
    (h : Run.run (step dumps E q) (init E q) as = some w) : Holds S T R w := by
  refine Run.run_preserves (P := P) (fun w l w' hw hl hstep => ?_) hP
    ⟨hinit, fun i t ht => (by cases ht), fun i j t u _ ht => (by cases ht)⟩ h
  cases moves hstep with
  | append now event events hevents =>
    obtain ⟨hS, hT⟩ := happend w.shared now event events hw.shared hevents
    exact ⟨hS, fun i t ht => hT t (hw.tick i t ht), hw.apart⟩
  | begin i ingestor now hnone =>
    obtain ⟨hT, hR⟩ := hbegin w.shared ingestor now hw.shared
    refine ⟨hw.shared, fun j u hu => ?_, fun j k u v hne hu hv => ?_⟩
    · rcases update_some hu with ⟨-, rfl⟩ | ⟨-, hu⟩
      · exact hT
      · exact hw.tick j u hu
    · rcases update_some hu with ⟨rfl, rfl⟩ | ⟨hj, hu⟩
      · exact hR v
      · rcases update_some hv with ⟨rfl, rfl⟩ | ⟨hk, hv⟩
        · exact hsymm _ _ (hR u)
        · exact hw.apart j k u v hne hu hv
  | reply i r t t' s ht hmoves =>
    obtain ⟨hS, hT, hothers⟩ := hreply w i r t t' s hl ht hw.shared (hw.tick i t ht) hmoves
    have hother : ∀ j u, j ≠ i → w.ticks j = some u → T s u ∧ R t' u := fun j u hj hu =>
      hothers j u hj hu (hw.tick j u hu) (hw.apart i j t u hj.symm ht hu)
    refine ⟨hS, fun j u hu => ?_, fun j k u v hne hu hv => ?_⟩
    · rcases update_some hu with ⟨-, rfl⟩ | ⟨hj, hu⟩
      · exact hT
      · exact (hother j u hj hu).1
    · rcases update_some hu with ⟨rfl, rfl⟩ | ⟨hj, hj'⟩
      · rcases update_some hv with ⟨rfl, -⟩ | ⟨hk, hk'⟩
        · exact absurd rfl hne
        · exact (hother k v hk hk').2
      · rcases update_some hv with ⟨-, rfl⟩ | ⟨hk, hk'⟩
        · exact hsymm _ _ (hother j u hj hj').2
        · exact hw.apart j k u v hne hj' hk'

/-! ## Events -/

/-- What a step of a tick does to the entry of one event: only an `ack` makes it DONE,
only a `reclaim_stale` returns it to PENDING. -/
theorem events_follow {s s' : Shared py E q} {t t' : Tick py δ} {stage : Stage py δ} {r : Reply}
    (h : TickMoves dumps E q s t stage r s' t') (id : EventId) :
    Follows (id ∈ t.acked) (r = .reclaimed true ∧ Idle (E.entry s'.events id))
      (E.entry s.events id) (E.entry s'.events id) := by
  cases h with
  | reclaimed effect =>
    cases effect with
    | true =>
      have hfollows : Follows (id ∈ t.acked) (Idle (E.entry (E.reclaimStale s.events t.now).2 id))
          (E.entry s.events id) (E.entry (E.reclaimStale s.events t.now).2 id) :=
        E.follows_reclaim s.events t.now id
      exact ⟨hfollows.kept, hfollows.done, fun hidle =>
        (hfollows.idle hidle).imp_right fun hfreed => ⟨⟨rfl, hidle⟩, hfreed.2⟩⟩
    | false => exact follows_refl _
  | claimed pick n es last events t'' hclaim ht'' => exact E.follows_claim hclaim id
  | claimRaised pick events hevents =>
    rcases hevents with rfl | ⟨n, pick, es, last, hclaim⟩
    · exact follows_refl _
    · exact E.follows_claim hclaim id
  | marked error event events htodo hmark => exact E.follows_markFailed hmark id
  | markRaised error effect event events htodo hmark =>
    rcases hmark with ⟨-, rfl⟩ | ⟨-, hmark⟩
    · exact follows_refl _
    · exact E.follows_markFailed hmark id
  | acked events hack => exact E.follows_ack hack id
  | ackRaised ids events hack =>
    have hfollows : Follows (id ∈ t.acked.filter (· ∈ ids)) False (E.entry s.events id)
        (E.entry events id) := E.follows_ack hack id
    exact ⟨hfollows.kept, fun x' hx' hdone =>
      (hfollows.done x' hx' hdone).imp_right fun h => ⟨List.mem_of_mem_filter h.1, h.2⟩,
      fun hidle => (hfollows.idle hidle).imp_right fun h => h.1.elim⟩
  | skipped | fanned | fanRaised | enqueued | enqueueRaised | crash => exact follows_refl _

/-! ## Deliveries -/

theorem proceed_stage (t : Tick py δ) (g : FanOut py δ) : t.proceed.stage ≠ .enqueue g := by
  rw [Tick.proceed]
  cases t.todo with
  | cons event todo => exact fun h => by cases h
  | nil =>
    by_cases hacked : t.acked = []
    · simp only [if_pos hacked]
      exact fun h => by cases h
    · simp only [if_neg hacked]
      exact fun h => by cases h

/-- What a step of a tick does with deliveries: nothing, a fan-out without records, a
fan-out whose records are queued, or the queued records, or some of them, are stored. -/
inductive Delivers (dumps : δ → Option Bytes) (s : Shared py E q) (t : Tick py δ)
    (s' : Shared py E q) (t' : Tick py δ) : Prop where
  | quiet (hdeliveries : s'.deliveries = s.deliveries) (hminted : s'.minted = s.minted)
      (hfanOuts : s'.fanOuts = s.fanOuts) (hstage : ∀ g, t'.stage ≠ .enqueue g)
  | skip (f : FanOut py δ) (hf : Fanned dumps f) (hnil : f.records = [])
      (hdeliveries : s'.deliveries = s.deliveries) (hminted : s'.minted = s.minted)
      (hfanOuts : s'.fanOuts = s.fanOuts ++ [f]) (hstage : ∀ g, t'.stage ≠ .enqueue g)
  | fan (f : FanOut py δ) (hf : Fanned dumps f) (hhead : t'.todo.head? = some f.event)
      (hfresh : fresh s.minted f.records = true)
      (hdeliveries : s'.deliveries = s.deliveries)
      (hminted : s'.minted = s.minted ++ f.records.map (·.deliveryId))
      (hfanOuts : s'.fanOuts = s.fanOuts) (hstage : t'.stage = .enqueue f)
  | store (f : FanOut py δ) (rs : List DeliveryRecord) (ht : t.stage = .enqueue f)
      (hrs : rs.Sublist f.records)
      (henqueue : q.enqueueMany s.deliveries rs = some s'.deliveries)
      (hminted : s'.minted = s.minted)
      (hfanOuts : s'.fanOuts = s.fanOuts ∨ s'.fanOuts = s.fanOuts ++ [f] ∧ rs = f.records)
      (hstage : ∀ g, t'.stage ≠ .enqueue g)

theorem delivers {s s' : Shared py E q} {t t' : Tick py δ} {r : Reply}
    (h : TickMoves dumps E q s t t.stage r s' t') : Delivers dumps s t s' t' := by
  generalize hstage : t.stage = stage at h
  cases h with
  | reclaimed effect => exact .quiet rfl rfl rfl fun g h => by cases h
  | claimed pick n es last events t'' hclaim ht'' =>
    refine .quiet rfl rfl rfl fun g h => ?_
    cases last with
    | true => exact proceed_stage t'' g h
    | false =>
      subst ht''
      cases hstage.symm.trans h
  | claimRaised pick events hevents => exact .quiet rfl rfl rfl fun g h => by cases h
  | skipped subs uuid error event htodo hfan =>
    exact .skip _ (fanOut_spec hfan) rfl rfl rfl rfl (proceed_stage _)
  | fanned subs uuid error event records htodo hfan hfresh =>
    exact .fan _ (fanOut_spec hfan) htodo hfresh rfl rfl rfl rfl
  | fanRaised r error hr => exact .quiet rfl rfl rfl fun g h => by cases h
  | enqueued f deliveries henqueue =>
    exact .store f f.records hstage (List.Sublist.refl _) henqueue rfl (Or.inr ⟨rfl, rfl⟩)
      (proceed_stage _)
  | enqueueRaised f stored error deliveries henqueue =>
    exact .store f _ hstage List.filter_sublist henqueue rfl (Or.inl rfl) fun g h => by cases h
  | marked error event events htodo => exact .quiet rfl rfl rfl (proceed_stage _)
  | markRaised error effect event events htodo => exact .quiet rfl rfl rfl fun g h => by cases h
  | acked => exact .quiet rfl rfl rfl fun g h => by cases h
  | ackRaised ids => exact .quiet rfl rfl rfl fun g h => by cases h
  | crash stage => exact .quiet rfl rfl rfl fun g h => by cases h

/-- The row of a record. -/
def Stored (s : Shared py E q) (r : DeliveryRecord) : Prop :=
  ∃ c, Keeps r c ∧ q.view s.deliveries r.deliveryId = some ⟨.pending, 0, none, c⟩

/-- Every row has an id that was minted, and the records of a completed fan-out are stored. -/
structure Accounted (dumps : δ → Option Bytes) (s : Shared py E q) : Prop where
  minted : ∀ id, q.view s.deliveries id ≠ none → id ∈ s.minted
  stored : ∀ f ∈ s.fanOuts, Fanned dumps f ∧ (f.records.map (·.deliveryId)).Nodup ∧
    ∀ r ∈ f.records, Stored s r

/-- The records a tick is about to store are new. -/
structure Queued (dumps : δ → Option Bytes) (s : Shared py E q) (t : Tick py δ)
    (f : FanOut py δ) : Prop where
  fanned : Fanned dumps f
  head : t.todo.head? = some f.event
  nodup : (f.records.map (·.deliveryId)).Nodup
  new : ∀ r ∈ f.records, r.deliveryId ∈ s.minted ∧ q.view s.deliveries r.deliveryId = none

/-- Two ticks do not queue records of one id. -/
def Apart (t u : Tick py δ) : Prop :=
  ∀ f g, t.stage = .enqueue f → u.stage = .enqueue g →
    ∀ r ∈ f.records, ∀ r' ∈ g.records, r.deliveryId ≠ r'.deliveryId

/-- What storing new records does at one id. -/
theorem view_store {s s' : q.State} {rs : List DeliveryRecord} (h : q.enqueueMany s rs = some s')
    (hn : (rs.map (·.deliveryId)).Nodup)
    (hrs : ∀ r ∈ rs, r.status = .pending ∧ r.attempts = 0 ∧ q.view s r.deliveryId = none)
    (id : DeliveryId) :
    ((∀ r ∈ rs, r.deliveryId ≠ id) ∧ q.view s' id = q.view s id) ∨
    ∃ r ∈ rs, r.deliveryId = id ∧ ∃ c, Keeps r c ∧ q.view s' id = some ⟨.pending, 0, none, c⟩ := by
  by_cases hid : ∃ r ∈ rs, r.deliveryId = id
  · right
    obtain ⟨r, hr, rfl⟩ := hid
    obtain ⟨hpending, hattempts, hnone⟩ := hrs r hr
    obtain ⟨c, hc, hview⟩ := q.view_enqueue_new s rs s' r h hn hr hpending hnone
    rw [hattempts] at hview
    exact ⟨r, hr, rfl, c, hc, hview⟩
  · left
    have hother : ∀ r ∈ rs, r.deliveryId ≠ id := fun r hr he => hid ⟨r, hr, he⟩
    exact ⟨hother, q.view_enqueue_other s rs s' id h hother⟩

theorem fresh_spec {minted : List DeliveryId} {rs : List DeliveryRecord}
    (h : fresh minted rs = true) :
    (rs.map (·.deliveryId)).Nodup ∧ ∀ r ∈ rs, r.deliveryId ∉ minted := by
  simpa [fresh] using h

/-- **Frame.** A step that touches none of the rows of the queued records. -/
theorem Queued.frame {s s' : Shared py E q} {u : Tick py δ} {g : FanOut py δ}
    (h : Queued dumps s u g) (hminted : ∀ id ∈ s.minted, id ∈ s'.minted)
    (hview : ∀ r ∈ g.records,
      q.view s'.deliveries r.deliveryId = q.view s.deliveries r.deliveryId) :
    Queued dumps s' u g where
  fanned := h.fanned
  head := h.head
  nodup := h.nodup
  new r hr := ⟨hminted _ (h.new r hr).1, (hview r hr).trans (h.new r hr).2⟩

/-- **Frame.** A step that stores nothing and completes no fan-out. -/
theorem Accounted.frame {s s' : Shared py E q} (hs : Accounted dumps s)
    (hdeliveries : s'.deliveries = s.deliveries) (hminted : ∀ id ∈ s.minted, id ∈ s'.minted)
    (hfanOuts : s'.fanOuts = s.fanOuts) : Accounted dumps s' where
  minted id hid := by
    rw [hdeliveries] at hid
    exact hminted id (hs.minted id hid)
  stored := by
    simp only [Stored, hdeliveries, hfanOuts]
    exact hs.stored

/-- What storing queued records does at one id. -/
theorem Queued.store {s s' : Shared py E q} {t : Tick py δ} {f : FanOut py δ}
    {rs : List DeliveryRecord} (hf : Queued dumps s t f) (hrs : rs.Sublist f.records)
    (h : q.enqueueMany s.deliveries rs = some s'.deliveries) (id : DeliveryId) :
    ((∀ r ∈ rs, r.deliveryId ≠ id) ∧ q.view s'.deliveries id = q.view s.deliveries id) ∨
    ∃ r ∈ rs, r.deliveryId = id ∧ ∃ c, Keeps r c ∧
      q.view s'.deliveries id = some ⟨.pending, 0, none, c⟩ :=
  view_store h (hf.nodup.sublist (hrs.map _)) (fun r hr =>
    ⟨(hf.fanned.queued r (hrs.subset hr)).1, (hf.fanned.queued r (hrs.subset hr)).2.1,
      (hf.new r (hrs.subset hr)).2⟩) id

/-- A step that stores records of a fan-out, and completes it if these are all. -/
theorem Accounted.store {s s' : Shared py E q} {t : Tick py δ} {f : FanOut py δ}
    {rs : List DeliveryRecord} (hs : Accounted dumps s) (hf : Queued dumps s t f)
    (hrs : rs.Sublist f.records) (h : q.enqueueMany s.deliveries rs = some s'.deliveries)
    (hminted : s'.minted = s.minted)
    (hfanOuts : s'.fanOuts = s.fanOuts ∨ s'.fanOuts = s.fanOuts ++ [f] ∧ rs = f.records) :
    Accounted dumps s' where
  minted id hid := by
    rw [hminted]
    rcases hf.store hrs h id with ⟨-, hsame⟩ | ⟨r, hr, rfl, -⟩
    · exact hs.minted id (hsame ▸ hid)
    · exact (hf.new r (hrs.subset hr)).1
  stored := by
    have hkept : ∀ r, Stored s r → Stored s' r := by
      rintro r ⟨c, hc, hrow⟩
      rcases hf.store hrs h r.deliveryId with ⟨-, hsame⟩ | ⟨r', hr', he, -⟩
      · exact ⟨c, hc, hsame.trans hrow⟩
      · rw [← he, (hf.new r' (hrs.subset hr')).2] at hrow
        cases hrow
    have hold : ∀ g ∈ s.fanOuts, Fanned dumps g ∧ (g.records.map (·.deliveryId)).Nodup ∧
        ∀ r ∈ g.records, Stored s' r := by
      intro g hg
      obtain ⟨hfanned, hn, hstored⟩ := hs.stored g hg
      exact ⟨hfanned, hn, fun r hr => hkept r (hstored r hr)⟩
    intro g hg
    rcases hfanOuts with hsame | ⟨happend, rfl⟩
    · exact hold g (hsame ▸ hg)
    · rcases List.mem_append.mp (happend ▸ hg) with hg | hg
      · exact hold g hg
      · cases List.mem_singleton.mp hg
        refine ⟨hf.fanned, hf.nodup, fun r hr => ?_⟩
        rcases hf.store hrs h r.deliveryId with ⟨hother, -⟩ | ⟨r', hr', he, c, hc, hrow⟩
        · exact absurd rfl (hother r hr)
        · have hr' : r' = r := List.inj_on_of_nodup_map hf.nodup hr' hr he
          subst hr'
          exact ⟨c, hc, hrow⟩

/-- What a step of one tick leaves of the records that are queued or stored. -/
theorem minted_step {s s' : Shared py E q} {t t' : Tick py δ} (hs : Accounted dumps s)
    (ht : ∀ f, t.stage = .enqueue f → Queued dumps s t f) (h : Delivers dumps s t s' t') :
    Accounted dumps s' ∧ (∀ f, t'.stage = .enqueue f → Queued dumps s' t' f) ∧
    ∀ u, (∀ g, u.stage = .enqueue g → Queued dumps s u g) → Apart t u →
      (∀ g, u.stage = .enqueue g → Queued dumps s' u g) ∧ Apart t' u := by
  cases h with
  | quiet hdeliveries hminted hfanOuts hstage =>
    have hkept : ∀ id ∈ s.minted, id ∈ s'.minted := fun id hid => hminted ▸ hid
    exact ⟨hs.frame hdeliveries hkept hfanOuts, fun f hf => absurd hf (hstage f), fun u hu _ =>
      ⟨fun g hg => (hu g hg).frame hkept fun r _ => by rw [hdeliveries],
        fun f g hf => absurd hf (hstage f)⟩⟩
  | skip f hf hnil hdeliveries hminted hfanOuts hstage =>
    refine ⟨⟨?_, fun g hg => ?_⟩, fun f hf => absurd hf (hstage f), fun u hu hapart =>
      ⟨fun g hg => (hu g hg).frame (fun id hid => hminted ▸ hid) fun r _ => by rw [hdeliveries],
        fun f g hf => absurd hf (hstage f)⟩⟩
    · rw [hdeliveries, hminted]
      exact hs.minted
    · rw [hfanOuts] at hg
      simp only [Stored, hdeliveries]
      rcases List.mem_append.mp hg with hg | hg
      · exact hs.stored g hg
      · cases List.mem_singleton.mp hg
        rw [hnil]
        exact ⟨hf, List.nodup_nil, fun r hr => by cases hr⟩
  | fan f hf hhead hfresh hdeliveries hminted hfanOuts hstage =>
    obtain ⟨hn, hnew⟩ := fresh_spec hfresh
    have hgrow : ∀ id ∈ s.minted, id ∈ s'.minted := fun id hid => by
      rw [hminted]
      exact List.mem_append_left _ hid
    refine ⟨hs.frame hdeliveries hgrow hfanOuts, fun f' hf' => ?_, fun u hu hapart =>
      ⟨fun g hg => (hu g hg).frame hgrow fun r _ => by rw [hdeliveries],
        fun f' g hf' hg r hr r' hr' he => ?_⟩⟩
    · cases hstage.symm.trans hf'
      refine ⟨hf, hhead, hn, fun r hr => ⟨?_, ?_⟩⟩
      · rw [hminted]
        exact List.mem_append_right _ (List.mem_map_of_mem hr)
      · rw [hdeliveries]
        by_contra hview
        exact hnew r hr (hs.minted _ hview)
    · cases hstage.symm.trans hf'
      exact hnew r hr (he ▸ ((hu g hg).new r' hr').1)
  | store f rs hf hrs henqueue hminted hfanOuts hstage =>
    refine ⟨hs.store (ht f hf) hrs henqueue hminted hfanOuts, fun f hf => absurd hf (hstage f),
      fun u hu hapart => ⟨fun g hg => ?_, fun f g hf => absurd hf (hstage f)⟩⟩
    refine (hu g hg).frame (fun id hid => hminted ▸ hid) fun r hr => ?_
    rcases (ht f hf).store hrs henqueue r.deliveryId with ⟨-, hsame⟩ | ⟨r', hr', he, -⟩
    · exact hsame
    · exact absurd he (hapart f g hf hg r' (hrs.subset hr') r hr)

theorem accounted_init : Accounted dumps (⟨E.empty, q.empty, [], []⟩ : Shared py E q) :=
  ⟨fun id hid => absurd (q.view_empty id) hid, fun f hf => by cases hf⟩

theorem Accounted.append {s : Shared py E q} (hs : Accounted dumps s) (events : E.State) :
    Accounted dumps { s with events := events } := ⟨hs.minted, hs.stored⟩

theorem Queued.append {s : Shared py E q} {t : Tick py δ} {f : FanOut py δ}
    (hf : Queued dumps s t f) (events : E.State) : Queued dumps { s with events := events } t f :=
  ⟨hf.fanned, hf.head, hf.nodup, hf.new⟩

theorem apart_symm {t u : Tick py δ} (h : Apart t u) : Apart u t :=
  fun f g hf hg r hr r' hr' he => h g f hg hf r' hr' r hr he.symm

def exampleEvent : IncomingEvent Unit where
  eventId := "evt_1"
  event := "task.created"
  data := ()
  tenantId := some "tenant_a"

/-- The payload is `{}`. -/
def exampleDumps (_ : Unit) : Option Bytes := some [0x7b, 0x7d]

def exampleIngestor : EventIngestor examplePython :=
  { ssrf := exampleValidator }

end WebhookEngine.Ingest.Ingestor
