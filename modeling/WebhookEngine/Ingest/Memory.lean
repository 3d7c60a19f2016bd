import WebhookEngine.Ingest.Events
import WebhookEngine.Lib.Table

/-!
# The in-memory event store

`MemoryEventStore` of `ingest/memory.py`: a dictionary of rows in insertion order,
every method without an await.

* `memoryEvents`: the store is an `EventQueue`.
-/

namespace WebhookEngine.Ingest.Memory

open Lib Events

variable {δ : Type}

structure Row (δ : Type) where
  event : IncomingEvent δ
  status : EventIngestStatus := .pending
  leaseUntil : Option Datetime := none
  deriving DecidableEq, Repr

def Row.eventId (row : Row δ) : EventId := row.event.eventId

def Row.isPending (row : Row δ) : Bool := row.status = .pending

def Row.claim (leaseUntil : Datetime) (row : Row δ) : Row δ :=
  { row with status := .claimed, leaseUntil := some leaseUntil }

/-- DONE or FAILED, without a lease. -/
def Row.close (status : EventIngestStatus) (row : Row δ) : Row δ :=
  { row with status := status, leaseUntil := none }

def Row.stale (now : Datetime) (row : Row δ) : Bool :=
  row.status = .claimed && row.leaseUntil.any fun e => decide (e < now)

def Row.reclaim (row : Row δ) : Row δ := { row with status := .pending, leaseUntil := none }

theorem claim_eventId (e : Datetime) (row : Row δ) : (row.claim e).eventId = row.eventId := rfl

theorem close_eventId (status : EventIngestStatus) (row : Row δ) :
    (row.close status).eventId = row.eventId := rfl

theorem reclaim_eventId (row : Row δ) : row.reclaim.eventId = row.eventId := rfl

abbrev MemoryEventStore (δ : Type) := Table (Row.eventId (δ := δ))

/-! ## The methods -/

/-- `_rows.setdefault(event.event_id, _Row(event=event))`. -/
def append (s : MemoryEventStore δ) (event : IncomingEvent δ) : MemoryEventStore δ :=
  s.insert { event := event }

/-- `BaseEventStore.append_many`: a loop of `append`. -/
def appendMany (s : MemoryEventStore δ) (events : List (IncomingEvent δ)) : MemoryEventStore δ :=
  events.foldl append s

theorem append_known {s : MemoryEventStore δ} {e : IncomingEvent δ}
    (h : (s.find? e.eventId).isSome = true) : append s e = s := Table.insert_of_find? h

/-- The rows the loop of `claim_events` claims before it breaks. -/
def claimable (s : MemoryEventStore δ) (batchSize : Nat) : List (Row δ) :=
  (s.rows.filter Row.isPending).take batchSize

def claimEvents (s : MemoryEventStore δ) (now : Datetime) (leaseTtlS batchSize : Nat) :
    List (IncomingEvent δ) × MemoryEventStore δ :=
  let rows := claimable s batchSize
  (rows.map (·.event),
    s.update (fun row => decide (row.eventId ∈ rows.map Row.eventId))
      (Row.claim (now + leaseTtlS)) (claim_eventId _))

def ack (s : MemoryEventStore δ) (ids : List EventId) : MemoryEventStore δ :=
  s.update (fun row => decide (row.eventId ∈ ids)) (Row.close .done) (close_eventId _)

/-- The store keeps no error. -/
def markFailed (s : MemoryEventStore δ) (id : EventId) (_error : String) : MemoryEventStore δ :=
  s.modify id (Row.close .failed) (close_eventId _)

def reclaimStale (s : MemoryEventStore δ) (now : Datetime) : Nat × MemoryEventStore δ :=
  ((s.rows.filter (Row.stale now)).length, s.update (Row.stale now) Row.reclaim reclaim_eventId)

def memoryEventStore (δ : Type) : EventStore δ where
  State := MemoryEventStore δ
  empty := .empty
  append s _ e := some (append s e)
  claimEvents s now ttl n _ :=
    let (events, s') := claimEvents s now ttl n
    some (events, true, s')
  ack s ids := some (ack s ids)
  markFailed s id error := some (markFailed s id error)
  reclaimStale := reclaimStale

/-! ## The abstract model -/

def Row.entry (row : Row δ) : Entry δ := ⟨row.event, row.status⟩

def entry (s : MemoryEventStore δ) (id : EventId) : Option (Entry δ) := (s.find? id).map Row.entry

theorem mem_claimable {s : MemoryEventStore δ} {n : Nat} {row : Row δ} (h : row ∈ claimable s n) :
    s.find? row.eventId = some row ∧ row.status = .pending := by
  obtain ⟨hrow, hpending⟩ := List.mem_filter.mp (List.mem_of_mem_take h)
  exact ⟨Table.find?_of_mem hrow, of_decide_eq_true hpending⟩

theorem nodup_claimable (s : MemoryEventStore δ) (n : Nat) :
    ((claimable s n).map Row.eventId).Nodup :=
  s.nodup.sublist (((List.take_sublist _ _).trans List.filter_sublist).map _)

theorem entry_update (s : MemoryEventStore δ) (p : EventId → Bool) (f : Row δ → Row δ)
    (hf : ∀ row, (f row).eventId = row.eventId) (status : EventIngestStatus)
    (hentry : ∀ row, (f row).entry = row.entry.to status) (id : EventId) :
    entry (s.update (fun row => p row.eventId) f hf) id =
      if p id then (entry s id).map (Entry.to status) else entry s id := by
  rw [entry, Table.find?_update_key, entry]
  split
  · rw [Option.map_map, Option.map_map]
    congr 1
    exact funext hentry
  · rfl

theorem entry_reclaim (s : MemoryEventStore δ) (now : Datetime) (id : EventId) :
    entry (reclaimStale s now).2 id = entry s id ∨ ∃ e, entry s id = some ⟨e, .claimed⟩ ∧
      entry (reclaimStale s now).2 id = some ⟨e, .pending⟩ := by
  simp only [entry, reclaimStale, Table.find?_update]
  cases s.find? id with
  | none => exact Or.inl rfl
  | some row =>
    by_cases hstale : row.stale now = true
    · right
      have hclaimed := (Bool.and_eq_true _ _ ▸ hstale).1
      refine ⟨row.event, ?_, ?_⟩
      · rw [Option.map_some, Row.entry, of_decide_eq_true hclaimed]
      · rw [Option.map_some, if_pos hstale]
        rfl
    · left
      rw [Option.map_some, if_neg hstale]

/-- A live lease is not given back. -/
theorem entry_reclaim_live {s : MemoryEventStore δ} {id : EventId} {row : Row δ}
    (h : s.find? id = some row) {now : Datetime} (hlive : row.stale now = false) :
    entry (reclaimStale s now).2 id = some row.entry := by
  simp only [entry, reclaimStale, Table.find?_update, h, Option.map_some, hlive,
    Bool.false_eq_true, if_false]

theorem entry_append (s : MemoryEventStore δ) (e : IncomingEvent δ) (id : EventId) :
    entry (append s e) id =
      (entry s id).or (if e.eventId = id then some ⟨e, .pending⟩ else none) := by
  rw [entry, append, Table.find?_insert, entry]
  cases s.find? id with
  | some row => rfl
  | none => by_cases hid : e.eventId = id <;> simp [Row.eventId, Row.entry, hid]

theorem entry_claim (s : MemoryEventStore δ) (now : Datetime) (ttl n : Nat) :
    (((claimEvents s now ttl n).1.map (·.eventId)).Nodup) ∧
    (∀ e ∈ (claimEvents s now ttl n).1, entry s e.eventId = some ⟨e, .pending⟩) ∧
    ∀ id, entry (claimEvents s now ttl n).2 id =
      if id ∈ (claimEvents s now ttl n).1.map (·.eventId) then
        (entry s id).map (Entry.to .claimed)
      else entry s id := by
  have hids : (claimEvents s now ttl n).1.map (·.eventId) =
      (claimable s n).map Row.eventId := List.map_map ..
  rw [hids]
  refine ⟨nodup_claimable s n, fun e he => ?_, fun id => ?_⟩
  · obtain ⟨row, hrow, rfl⟩ := List.mem_map.mp he
    obtain ⟨hfind, hpending⟩ := mem_claimable hrow
    have hentry : entry s row.eventId = some ⟨row.event, row.status⟩ := by
      rw [entry, hfind]
      rfl
    rwa [hpending] at hentry
  · have hupdate := entry_update s (fun id => decide (id ∈ (claimable s n).map Row.eventId))
      (Row.claim (now + ttl)) (claim_eventId _) .claimed (fun _ => rfl) id
    simp only [decide_eq_true_eq] at hupdate
    exact hupdate

theorem entry_ack (s : MemoryEventStore δ) (ids : List EventId) (id : EventId) :
    entry (ack s ids) id =
      if id ∈ ids then (entry s id).map (Entry.to .done) else entry s id := by
  have hupdate := entry_update s (fun id => decide (id ∈ ids)) (Row.close .done)
    (close_eventId _) .done (fun _ => rfl) id
  simp only [decide_eq_true_eq] at hupdate
  exact hupdate

theorem entry_markFailed (s : MemoryEventStore δ) (id' : EventId) (error : String)
    (id : EventId) : entry (markFailed s id' error) id =
      if id = id' then (entry s id).map (Entry.to .failed) else entry s id := by
  have hupdate := entry_update s (fun id => decide (id = id')) (Row.close .failed)
    (close_eventId _) .failed (fun _ => rfl) id
  simp only [decide_eq_true_eq] at hupdate
  exact hupdate

/-- **The in-memory event store as an event queue.** -/
def memoryEvents (δ : Type) : EventQueue δ where
  toEventStore := memoryEventStore δ
  entry := entry
  kept _ e := some e
  kept_texts now e k h := by
    cases h
    exact ⟨rfl, rfl, rfl, rfl⟩
  entry_empty _ := rfl
  entry_append s now e s' h := by
    cases h
    exact ⟨e, rfl, entry_append s e⟩
  entry_claim s now ttl n pick es last s' h := by
    cases h
    exact entry_claim s now ttl n
  entry_ack s ids s' h := by
    cases h
    exact entry_ack s ids
  entry_markFailed s id' error s' h := by
    cases h
    exact entry_markFailed s id' error
  entry_reclaim := entry_reclaim

end WebhookEngine.Ingest.Memory
