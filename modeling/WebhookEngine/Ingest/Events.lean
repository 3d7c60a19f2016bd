import WebhookEngine.Types

/-!
# Events and their store

`IncomingEvent` and `EventIngestStatus` of `ingest/events.py`, and the operations of
`BaseEventStore`. The payload of an event is of any type `δ`.

`EventStore` is the interface. A backend whose `claim_events` is not atomic runs it in
several steps; the last argument of `claimEvents` is the choice it leaves open, as for
the delivery stores. `EventQueue` is the abstract model: to each id belongs an `Entry`,
and the laws say what the operations do to the entry of one id.
-/

namespace WebhookEngine.Ingest.Events

abbrev EventId := String

inductive EventIngestStatus where
  | pending
  | claimed
  | done
  | failed
  deriving DecidableEq, Repr

/-- No store operation returns an event in such a status to PENDING. -/
def EventIngestStatus.closed : EventIngestStatus → Bool
  | .done | .failed => true
  | _ => false

structure IncomingEvent (δ : Type) where
  eventId : EventId
  event : String
  data : δ
  tenantId : Option String := none
  schemaVersion : String := "1.0"
  createdAt : Option Datetime := none
  deriving DecidableEq, Repr

/-- The operations of `BaseEventStore`; those that refuse a value, and raise for it, have no
next state there. `append` is given the clock. `claimEvents` is one atomic part of a call that
may lease so many more events: what it leases, and whether it is the last. -/
structure EventStore (δ : Type) where
  State : Type
  empty : State
  append : State → Datetime → IncomingEvent δ → Option State
  claimEvents : State → Datetime → Nat → Nat → List EventId →
    Option (List (IncomingEvent δ) × Bool × State)
  ack : State → List EventId → Option State
  markFailed : State → EventId → String → Option State
  reclaimStale : State → Datetime → Nat × State

/-- An event as the store keeps it, and its status. -/
structure Entry (δ : Type) where
  event : IncomingEvent δ
  status : EventIngestStatus
  deriving DecidableEq

variable {δ : Type}

def Entry.to (status : EventIngestStatus) (x : Entry δ) : Entry δ := { x with status := status }

/-- An event store with its abstract model; `kept` is what an append stores of an event, at a
time, as it is read back. -/
structure EventQueue (δ : Type) extends EventStore δ where
  entry : State → EventId → Option (Entry δ)
  kept : Datetime → IncomingEvent δ → Option (IncomingEvent δ)
  /-- Its payload and its time the backend may change. -/
  kept_texts : ∀ now e k, kept now e = some k → k.eventId = e.eventId ∧ k.event = e.event ∧
    k.tenantId = e.tenantId ∧ k.schemaVersion = e.schemaVersion
  entry_empty : ∀ id, entry empty id = none
  /-- An append of a known id changes nothing. -/
  entry_append : ∀ s now e s', append s now e = some s' → ∃ k, kept now e = some k ∧ ∀ id,
    entry s' id = (entry s id).or (if e.eventId = id then some ⟨k, .pending⟩ else none)
  entry_claim : ∀ s now ttl n pick es last s',
    claimEvents s now ttl n pick = some (es, last, s') →
    (es.map (·.eventId)).Nodup ∧ (∀ e ∈ es, entry s e.eventId = some ⟨e, .pending⟩) ∧
    ∀ id, entry s' id =
      if id ∈ es.map (·.eventId) then (entry s id).map (Entry.to .claimed) else entry s id
  entry_ack : ∀ s ids s', ack s ids = some s' → ∀ id, entry s' id =
    if id ∈ ids then (entry s id).map (Entry.to .done) else entry s id
  entry_markFailed : ∀ s id' error s', markFailed s id' error = some s' → ∀ id, entry s' id =
    if id = id' then (entry s id).map (Entry.to .failed) else entry s id
  entry_reclaim : ∀ s now id, entry (reclaimStale s now).2 id = entry s id ∨
    ∃ e, entry s id = some ⟨e, .claimed⟩ ∧
      entry (reclaimStale s now).2 id = some ⟨e, .pending⟩

/-! ## What an operation leaves of an entry -/

/-- Absent or PENDING: what a claim may find. -/
def Idle (v : Option (Entry δ)) : Prop := ∀ x, v = some x → x.status = .pending

/-- The entry before and after an operation: the event stays, DONE and FAILED stay
closed, an entry gets DONE only if `acked` and becomes idle only if `freed`. -/
structure Follows (acked freed : Prop) (v v' : Option (Entry δ)) : Prop where
  kept : ∀ x, v = some x → ∃ x', v' = some x' ∧ x'.event = x.event ∧
    (x.status.closed = true → x'.status.closed = true)
  done : ∀ x', v' = some x' → x'.status = .done →
    v = some x' ∨ acked ∧ ∃ x, v = some x ∧ x.event = x'.event
  idle : Idle v' → Idle v ∨ freed ∧ ∃ e, v = some ⟨e, .claimed⟩

variable {acked freed : Prop}

theorem follows_refl (v : Option (Entry δ)) : Follows acked freed v v :=
  ⟨fun x hx => ⟨x, hx, rfl, id⟩, fun _ hx _ => Or.inl hx, Or.inl⟩

theorem follows_to {v : Option (Entry δ)} {status : EventIngestStatus} {c : Prop} [Decidable c]
    (hpending : status ≠ .pending) (hdone : status = .done → c → acked)
    (hclosed : ∀ x, c → v = some x → x.status.closed = true → status.closed = true) :
    Follows acked freed v (if c then v.map (Entry.to status) else v) := by
  split
  case isTrue hc =>
    refine ⟨fun x hx => ?_, fun x' hx' hx'done => ?_, fun hidle => Or.inl fun x hx => ?_⟩
    · exact ⟨x.to status, by rw [hx, Option.map_some], rfl, hclosed x hc hx⟩
    · obtain ⟨x, hx, rfl⟩ := Option.map_eq_some_iff.mp hx'
      exact Or.inr ⟨hdone hx'done hc, x, hx, rfl⟩
    · exact absurd (hidle (x.to status) (by rw [hx, Option.map_some])) hpending
  case isFalse => exact follows_refl v

namespace EventQueue

variable (E : EventQueue δ)

theorem follows_append {s s' : E.State} {now : Datetime} {e : IncomingEvent δ}
    (h : E.append s now e = some s') (id : EventId) :
    Follows False False (E.entry s id) (E.entry s' id) := by
  obtain ⟨k, -, hentry⟩ := E.entry_append s now e s' h
  rw [hentry id]
  cases hv : E.entry s id with
  | some x =>
    rw [Option.some_or]
    exact follows_refl _
  | none =>
    rw [Option.none_or]
    refine ⟨fun x hx => (by cases hx), fun x' hx' hdone => ?_,
      fun _ => Or.inl fun x hx => (by cases hx)⟩
    split at hx'
    · cases hx'
      cases hdone
    · cases hx'

theorem follows_claim {s s' : E.State} {now : Datetime} {ttl n : Nat} {pick : List EventId}
    {es : List (IncomingEvent δ)} {last : Bool}
    (h : E.claimEvents s now ttl n pick = some (es, last, s')) (id : EventId) :
    Follows acked freed (E.entry s id) (E.entry s' id) := by
  obtain ⟨-, hpending, hentry⟩ := E.entry_claim s now ttl n pick es last s' h
  rw [hentry id]
  refine follows_to (fun h => by cases h) (fun h => by cases h) fun x hc hx hclosed => ?_
  obtain ⟨e, he, rfl⟩ := List.mem_map.mp hc
  rw [hpending e he] at hx
  cases hx
  cases hclosed

theorem follows_ack {s s' : E.State} {ids : List EventId} (h : E.ack s ids = some s')
    (id : EventId) : Follows (id ∈ ids) freed (E.entry s id) (E.entry s' id) := by
  rw [E.entry_ack s ids s' h id]
  exact follows_to (fun h => by cases h) (fun _ hc => hc) fun _ _ _ _ => rfl

theorem follows_markFailed {s s' : E.State} {id' : EventId} {error : String}
    (h : E.markFailed s id' error = some s') (id : EventId) :
    Follows acked freed (E.entry s id) (E.entry s' id) := by
  rw [E.entry_markFailed s id' error s' h id]
  exact follows_to (fun h => by cases h) (fun h => by cases h) fun _ _ _ _ => rfl

theorem follows_reclaim (s : E.State) (now : Datetime) (id : EventId) :
    Follows acked (Idle (E.entry (E.reclaimStale s now).2 id)) (E.entry s id)
      (E.entry (E.reclaimStale s now).2 id) := by
  rcases E.entry_reclaim s now id with hsame | ⟨e, hclaimed, hpending⟩
  · rw [hsame]
    exact follows_refl _
  · rw [hclaimed, hpending]
    refine ⟨fun x hx => ?_, fun x' hx' hdone => ?_, fun hidle => Or.inr ⟨hidle, e, rfl⟩⟩
    · cases hx
      exact ⟨_, rfl, rfl, fun hclosed => by cases hclosed⟩
    · cases hx'
      cases hdone

/-! ## What is under an id -/

/-- The event that is stored under an id, in whatever status. -/
def eventOf (s : E.State) (id : EventId) : Option (IncomingEvent δ) :=
  (E.entry s id).map (·.event)

theorem eventOf_to {v v' : Option (Entry δ)} {status : EventIngestStatus} {c : Prop} [Decidable c]
    (h : v' = if c then v.map (Entry.to status) else v) :
    v'.map (·.event) = v.map (·.event) := by
  rw [h]
  split
  · rw [Option.map_map]
    rfl
  · rfl

theorem eventOf_append {s s' : E.State} {now : Datetime} {e : IncomingEvent δ}
    (h : E.append s now e = some s') : ∃ k, E.kept now e = some k ∧ ∀ id,
      E.eventOf s' id = (E.eventOf s id).or (if e.eventId = id then some k else none) := by
  obtain ⟨k, hk, hentry⟩ := E.entry_append s now e s' h
  refine ⟨k, hk, fun id => ?_⟩
  rw [eventOf, hentry, eventOf, Option.map_or]
  split <;> rfl

theorem eventOf_claim {s s' : E.State} {now : Datetime} {ttl n : Nat} {pick : List EventId}
    {es : List (IncomingEvent δ)} {last : Bool}
    (h : E.claimEvents s now ttl n pick = some (es, last, s')) : E.eventOf s' = E.eventOf s :=
  funext fun id => eventOf_to ((E.entry_claim s now ttl n pick es last s' h).2.2 id)

theorem eventOf_ack {s s' : E.State} {ids : List EventId} (h : E.ack s ids = some s') :
    E.eventOf s' = E.eventOf s := funext fun id => eventOf_to (E.entry_ack s ids s' h id)

theorem eventOf_markFailed {s s' : E.State} {id : EventId} {error : String}
    (h : E.markFailed s id error = some s') : E.eventOf s' = E.eventOf s :=
  funext fun id' => eventOf_to (E.entry_markFailed s id error s' h id')

theorem eventOf_reclaim (s : E.State) (now : Datetime) :
    E.eventOf (E.reclaimStale s now).2 = E.eventOf s := by
  funext id
  rcases E.entry_reclaim s now id with hsame | ⟨e, hclaimed, hpending⟩
  · rw [eventOf, hsame, eventOf]
  · rw [eventOf, hpending, eventOf, hclaimed]
    rfl

end EventQueue

end WebhookEngine.Ingest.Events
