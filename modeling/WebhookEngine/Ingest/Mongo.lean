import WebhookEngine.Ingest.Pg
import WebhookEngine.Stores.Mongo

/-!
# The MongoDB event store

`MongoEventStore` of `ingest/mongo.py`: one document per event, with the fields of the rows
of `PgEventStore`. BSON keeps times to the millisecond; `bson` gives a payload as it is read
back, and has no value where it cannot be encoded.

A claim is a loop of `find_one_and_update`, each atomic and each taking a pending document
with the least `created_at`; the last argument of `claimEvents` is MongoDB's choice, none
if there is no pending document or the batch is full.

* `mongoEvents`: the store is an `EventQueue`.
-/

namespace WebhookEngine.Ingest.Mongo

open Lib Events Pg Stores.Mongo

variable {δ : Type}

abbrev Doc := Pg.Row

abbrev MongoEventStore (δ : Type) := Table (Row.eventId (δ := δ))

/-- The document of an event; `clock` is read if the event has no time. -/
def eventDoc (bson : δ → Option δ) (clock : Datetime) (e : IncomingEvent δ) : Option (Doc δ) :=
  (bson e.data).map fun data =>
    { eventRow data clock e with createdAt := bsonDate (e.createdAt.getD clock) }

theorem eventDoc_eq {bson : δ → Option δ} {clock : Datetime} {e : IncomingEvent δ} {doc : Doc δ}
    (h : eventDoc bson clock e = some doc) : ∃ data, doc =
      { eventRow data clock e with createdAt := bsonDate (e.createdAt.getD clock) } := by
  obtain ⟨data, -, rfl⟩ := Option.map_eq_some_iff.mp h
  exact ⟨data, rfl⟩

/-- A duplicate `_id` is swallowed. -/
def append (bson : δ → Option δ) (s : MongoEventStore δ) (clock : Datetime)
    (e : IncomingEvent δ) : Option (MongoEventStore δ) :=
  (eventDoc bson clock e).map s.insert

/-- The documents of `insert_many`; a payload that has no encoding raises before the batch
is sent. -/
def eventDocs (bson : δ → Option δ) : List (Datetime × IncomingEvent δ) → Option (List (Doc δ))
  | [] => some []
  | (clock, e) :: es =>
    (eventDoc bson clock e).bind fun doc => (eventDocs bson es).map (doc :: ·)

/-- `insert_many(docs, ordered=False)`. -/
def appendMany (bson : δ → Option δ) (s : MongoEventStore δ)
    (es : List (Datetime × IncomingEvent δ)) : Option (MongoEventStore δ) :=
  (eventDocs bson es).map s.insertMany

/-- The document is pending and none that is pending was created before it. -/
def foundFirst (s : MongoEventStore δ) (doc : Doc δ) : Bool :=
  doc.status = .pending && (pending s).all fun doc' => decide (doc.createdAt ≤ doc'.createdAt)

/-- One `find_one_and_update`, if so many more events may be leased; the lease is the
store's, not the caller's. -/
def claimEvents (s : MongoEventStore δ) (now : Datetime) (_leaseTtlS : Nat) :
    Nat → List EventId → Option (List (IncomingEvent δ) × Bool × MongoEventStore δ)
  | 0, [] => some ([], true, s)
  | _ + 1, [] => if (pending s).isEmpty then some ([], true, s) else none
  | _ + 1, [id] =>
    ((s.find? id).filter (foundFirst s)).map fun doc =>
      ([doc.toEvent], false,
        s.modify id (Row.claim (bsonDate now)) (claim_eventId (bsonDate now)))
  | _, _ => none

def ack (s : MongoEventStore δ) (ids : List EventId) : MongoEventStore δ :=
  s.update (fun doc => decide (doc.eventId ∈ ids)) Row.ack ack_eventId

def markFailed (s : MongoEventStore δ) (id : EventId) (error : String) : MongoEventStore δ :=
  s.modify id (Row.fail error) (fail_eventId error)

/-- `{"$set": {"status": "pending"}, "$unset": {"locked_at": ""}}`. -/
def reclaimStale (lockTtlS : Nat) (s : MongoEventStore δ) (now : Datetime) :
    Nat × MongoEventStore δ :=
  let cutoff := bsonDate (now - lockTtlS)
  ((s.rows.filter (Row.stale cutoff)).length,
    s.update (Row.stale cutoff) Row.reclaim reclaim_eventId)

def mongoEventStore (bson : δ → Option δ) (lockTtlS : Nat) : EventStore δ where
  State := MongoEventStore δ
  empty := .empty
  append := append bson
  claimEvents := claimEvents
  ack s ids := some (ack s ids)
  markFailed s id error := some (markFailed s id error)
  reclaimStale := reclaimStale lockTtlS

/-! ## The abstract model -/

theorem entry_append {bson : δ → Option δ} {s s' : MongoEventStore δ} {clock : Datetime}
    {e : IncomingEvent δ} (h : append bson s clock e = some s') :
    ∃ k, (eventDoc bson clock e).map Row.toEvent = some k ∧ ∀ id,
      entry s' id = (entry s id).or (if e.eventId = id then some ⟨k, .pending⟩ else none) := by
  obtain ⟨doc, hdoc, rfl⟩ := Option.map_eq_some_iff.mp h
  refine ⟨doc.toEvent, by rw [hdoc, Option.map_some], ?_⟩
  obtain ⟨data, rfl⟩ := eventDoc_eq hdoc
  exact entry_insert s _ rfl

/-- What an atomic part of a claim does. -/
theorem claimEvents_eq {s s' : MongoEventStore δ} {now : Datetime} {ttl n : Nat}
    {pick : List EventId} {es : List (IncomingEvent δ)} {last : Bool}
    (h : claimEvents s now ttl n pick = some (es, last, s')) :
    es = [] ∧ last = true ∧ s' = s ∧ (n = 0 ∨ pending s = []) ∨
      ∃ doc, s.find? doc.eventId = some doc ∧ foundFirst s doc = true ∧ es = [doc.toEvent] ∧
        last = false ∧ n ≠ 0 ∧
        s' = s.modify doc.eventId (Row.claim (bsonDate now)) (claim_eventId (bsonDate now)) := by
  rw [claimEvents.eq_def] at h
  split at h
  · cases h
    exact Or.inl ⟨rfl, rfl, rfl, Or.inl rfl⟩
  · obtain ⟨hnone, h⟩ := Option.ite_none_right_eq_some.mp h
    cases h
    exact Or.inl ⟨rfl, rfl, rfl, Or.inr (List.isEmpty_iff.mp hnone)⟩
  · obtain ⟨doc, hdoc, h⟩ := Option.map_eq_some_iff.mp h
    obtain ⟨hdoc, hfirst⟩ := Option.filter_eq_some_iff.mp hdoc
    cases h
    obtain rfl := Table.find?_key hdoc
    exact Or.inr ⟨doc, hdoc, hfirst, rfl, rfl, Nat.succ_ne_zero _, rfl⟩
  · cases h

theorem entry_claim {s s' : MongoEventStore δ} {now : Datetime} {ttl n : Nat}
    {pick : List EventId} {es : List (IncomingEvent δ)} {last : Bool}
    (h : claimEvents s now ttl n pick = some (es, last, s')) :
    (es.map (·.eventId)).Nodup ∧ (∀ e ∈ es, entry s e.eventId = some ⟨e, .pending⟩) ∧
    ∀ id, entry s' id =
      if id ∈ es.map (·.eventId) then (entry s id).map (Entry.to .claimed) else entry s id := by
  rcases claimEvents_eq h with ⟨rfl, -, rfl, -⟩ | ⟨doc, hdoc, hfirst, rfl, -, -, rfl⟩
  · exact ⟨List.nodup_nil, List.forall_mem_nil _, fun _ => rfl⟩
  · have hpending : doc.status = .pending := of_decide_eq_true (Bool.and_eq_true_iff.mp hfirst).1
    refine ⟨List.nodup_singleton _, fun e he => ?_, fun id => ?_⟩
    · cases List.mem_singleton.mp he
      have hentry : entry s doc.eventId = some ⟨doc.toEvent, doc.status⟩ := by
        rw [entry, hdoc]
        rfl
      rwa [hpending] at hentry
    · have hupdate := entry_update s (fun id => decide (id = doc.eventId))
        (Row.claim (bsonDate now)) (claim_eventId _) .claimed (fun _ => rfl) id
      simp only [decide_eq_true_eq] at hupdate
      simp only [List.map_cons, List.map_nil, List.mem_singleton]
      exact hupdate

theorem entry_reclaim (lockTtlS : Nat) (s : MongoEventStore δ) (now : Datetime) (id : EventId) :
    entry (reclaimStale lockTtlS s now).2 id = entry s id ∨
      ∃ e, entry s id = some ⟨e, .claimed⟩ ∧
        entry (reclaimStale lockTtlS s now).2 id = some ⟨e, .pending⟩ := by
  have hreclaim := Pg.entry_reclaim 0 s (bsonDate (now - lockTtlS)) id
  rw [Pg.reclaimStale, Nat.cast_zero, sub_zero] at hreclaim
  exact hreclaim

/-- **The MongoDB event store as an event queue.** -/
def mongoEvents (bson : δ → Option δ) (lockTtlS : Nat) : EventQueue δ where
  toEventStore := mongoEventStore bson lockTtlS
  entry := entry
  kept clock e := (eventDoc bson clock e).map Row.toEvent
  kept_texts clock e k h := by
    obtain ⟨doc, hdoc, rfl⟩ := Option.map_eq_some_iff.mp h
    obtain ⟨data, rfl⟩ := eventDoc_eq hdoc
    exact ⟨rfl, rfl, rfl, rfl⟩
  entry_empty _ := rfl
  entry_append _ _ _ _ h := entry_append h
  entry_claim s now ttl n pick es last s' h := by
    have hpart : claimEvents s now ttl n pick = some (es, last, s') := h
    exact entry_claim hpart
  entry_ack s ids s' h := by
    cases h
    exact entry_acked s ids
  entry_markFailed s id' error s' h := by
    cases h
    exact entry_failed s id' error
  entry_reclaim := entry_reclaim lockTtlS

end WebhookEngine.Ingest.Mongo
