import Mathlib.Algebra.Order.Ring.Rat
import Mathlib.Data.List.Sort
import WebhookEngine.Ingest.Events
import WebhookEngine.Lib.Columns
import WebhookEngine.Lib.Table

/-!
# The Postgres event store

`PgEventStore` of `ingest/pg.py`: one row per event, every call one transaction. The
payload goes through `json.dumps` and a JSONB column; `jsonb` gives it as it is read
back, and has no value where the insert raises. The other texts are TEXT columns: a call
that brings one with U+0000 raises, whether or not a row is concerned.

`ORDER BY created_at` leaves the order of equal timestamps open: a claim is given the
order in which Postgres meets the pending rows, and sorts it.

* `pgEvents`: the store is an `EventQueue`.
-/

namespace WebhookEngine.Ingest.Pg

open Lib Columns Events

variable {δ : Type}

/-- A row of the table. -/
structure Row (δ : Type) where
  eventId : EventId
  event : String
  tenantId : Option String
  schemaVersion : String
  data : δ
  status : EventIngestStatus := .pending
  lockedAt : Option Datetime := none
  error : Option String := none
  createdAt : Datetime
  deriving DecidableEq, Repr

abbrev PgEventStore (δ : Type) := Table (Row.eventId (δ := δ))

/-- `IncomingEvent(event_id=row.event_id, ..)`. -/
def Row.toEvent (row : Row δ) : IncomingEvent δ where
  eventId := row.eventId
  event := row.event
  data := row.data
  tenantId := row.tenantId
  schemaVersion := row.schemaVersion
  createdAt := some row.createdAt

/-- `SET status = 'claimed', locked_at = :now`. -/
def Row.claim (now : Datetime) (row : Row δ) : Row δ :=
  { row with status := .claimed, lockedAt := some now }

/-- `SET status = 'done'`. -/
def Row.ack (row : Row δ) : Row δ := { row with status := .done }

/-- `SET status = 'failed', error = :error`. -/
def Row.fail (error : String) (row : Row δ) : Row δ :=
  { row with status := .failed, error := some error }

/-- `status = 'claimed' AND locked_at < :cutoff`. -/
def Row.stale (cutoff : Datetime) (row : Row δ) : Bool :=
  row.status = .claimed && row.lockedAt.any fun t => decide (t < cutoff)

/-- `SET status = 'pending', locked_at = NULL`. -/
def Row.reclaim (row : Row δ) : Row δ := { row with status := .pending, lockedAt := none }

theorem claim_eventId (now : Datetime) (row : Row δ) : (row.claim now).eventId = row.eventId := rfl

theorem ack_eventId (row : Row δ) : row.ack.eventId = row.eventId := rfl

theorem fail_eventId (error : String) (row : Row δ) : (row.fail error).eventId = row.eventId := rfl

theorem reclaim_eventId (row : Row δ) : row.reclaim.eventId = row.eventId := rfl

/-! ## The methods -/

/-- The new row of an event; `clock` is read if the event has no time. -/
def eventRow (data : δ) (clock : Datetime) (e : IncomingEvent δ) : Row δ where
  eventId := e.eventId
  event := e.event
  tenantId := e.tenantId
  schemaVersion := e.schemaVersion
  data := data
  createdAt := e.createdAt.getD clock

/-- The texts of an `INSERT`. -/
def textsFit (e : IncomingEvent δ) : Bool :=
  fitsText e.eventId && fitsText e.event && e.tenantId.all fitsText && fitsText e.schemaVersion

/-- The parameters of one `INSERT`, if the table takes them. -/
def insertRow (jsonb : δ → Option δ) (clock : Datetime) (e : IncomingEvent δ) : Option (Row δ) :=
  if textsFit e then (jsonb e.data).map fun data => eventRow data clock e else none

theorem insertRow_eq {jsonb : δ → Option δ} {clock : Datetime} {e : IncomingEvent δ} {row : Row δ}
    (h : insertRow jsonb clock e = some row) : ∃ data, row = eventRow data clock e := by
  obtain ⟨data, -, rfl⟩ := Option.map_eq_some_iff.mp (Option.ite_none_right_eq_some.mp h).2
  exact ⟨data, rfl⟩

/-- `INSERT .. ON CONFLICT (event_id) DO NOTHING`. -/
def append (jsonb : δ → Option δ) (s : PgEventStore δ) (clock : Datetime)
    (e : IncomingEvent δ) : Option (PgEventStore δ) :=
  (insertRow jsonb clock e).map s.insert

/-- The parameter list of `append_many`, each event with the clock read for it. -/
def insertRows (jsonb : δ → Option δ) : List (Datetime × IncomingEvent δ) → Option (List (Row δ))
  | [] => some []
  | (clock, e) :: es =>
    (insertRow jsonb clock e).bind fun row => (insertRows jsonb es).map (row :: ·)

/-- One transaction: an insert that raises takes the whole batch with it. -/
def appendMany (jsonb : δ → Option δ) (s : PgEventStore δ)
    (es : List (Datetime × IncomingEvent δ)) : Option (PgEventStore δ) :=
  (insertRows jsonb es).map s.insertMany

/-- `WHERE status = 'pending'`. -/
def pending (s : PgEventStore δ) : List (Row δ) := s.rows.filter fun row => row.status = .pending

/-- `ORDER BY created_at LIMIT :batch_size`, if `scan` is the order in which the rows
are met; a LIMIT is a BIGINT. -/
def selectPending (s : PgEventStore δ) (batchSize : Nat) (scan : List EventId) :
    Option (List (Row δ)) :=
  if fitsBigint batchSize = true ∧ scan.Perm ((pending s).map Row.eventId) then
    some (((scan.filterMap s.find?).insertionSort fun row row' =>
      row.createdAt ≤ row'.createdAt).take batchSize)
  else none

/-- `claim_events`; the lease is the store's, not the caller's. -/
def claimEvents (s : PgEventStore δ) (now : Datetime) (_leaseTtlS batchSize : Nat)
    (scan : List EventId) : Option (List (IncomingEvent δ) × PgEventStore δ) :=
  (selectPending s batchSize scan).map fun rows =>
    (rows.map Row.toEvent,
      s.update (fun row => decide (row.eventId ∈ rows.map Row.eventId)) (Row.claim now)
        (claim_eventId now))

/-- `WHERE event_id = ANY(:ids)`; no statement is sent without ids. -/
def ack (s : PgEventStore δ) (ids : List EventId) : Option (PgEventStore δ) :=
  if ids.all fitsText then
    some (s.update (fun row => decide (row.eventId ∈ ids)) Row.ack ack_eventId)
  else none

def markFailed (s : PgEventStore δ) (id : EventId) (error : String) : Option (PgEventStore δ) :=
  if fitsText id && fitsText error then some (s.modify id (Row.fail error) (fail_eventId error))
  else none

def reclaimStale (lockTtlS : Nat) (s : PgEventStore δ) (now : Datetime) : Nat × PgEventStore δ :=
  let cutoff := now - lockTtlS
  ((s.rows.filter (Row.stale cutoff)).length,
    s.update (Row.stale cutoff) Row.reclaim reclaim_eventId)

def pgEventStore (jsonb : δ → Option δ) (lockTtlS : Nat) : EventStore δ where
  State := PgEventStore δ
  empty := .empty
  append := append jsonb
  claimEvents s now ttl n scan :=
    (claimEvents s now ttl n scan).map fun (events, s') => (events, true, s')
  ack := ack
  markFailed := markFailed
  reclaimStale := reclaimStale lockTtlS

/-! ## The rows a claim selects -/

theorem filterMap_find? (s : PgEventStore δ) (rows : List (Row δ))
    (h : ∀ row ∈ rows, row ∈ s.rows) : (rows.map Row.eventId).filterMap s.find? = rows := by
  induction rows with
  | nil => rfl
  | cons row rows ih =>
    have hrow := Table.find?_of_mem (h row (List.mem_cons_self ..))
    rw [List.map_cons, List.filterMap_cons_some hrow,
      ih fun row' hr => h row' (List.mem_cons_of_mem _ hr)]

/-- A selection is the front of a list of the pending rows in order of their time. -/
theorem selectPending_eq {s : PgEventStore δ} {n : Nat} {scan : List EventId} {rows : List (Row δ)}
    (h : selectPending s n scan = some rows) : ∃ sorted : List (Row δ), sorted.Perm (pending s) ∧
      sorted.Pairwise (fun row row' => row.createdAt ≤ row'.createdAt) ∧ rows = sorted.take n := by
  obtain ⟨⟨-, hscan⟩, h⟩ := Option.ite_none_right_eq_some.mp h
  cases h
  have hperm := hscan.filterMap s.find?
  rw [filterMap_find? s (pending s) fun row hr => (List.mem_filter.mp hr).1] at hperm
  have : IsTrans (Row δ) fun row row' => row.createdAt ≤ row'.createdAt :=
    ⟨fun _ _ _ => le_trans⟩
  have : Std.Total fun row row' : Row δ => row.createdAt ≤ row'.createdAt :=
    ⟨fun _ _ => le_total _ _⟩
  exact ⟨_, (List.perm_insertionSort _ _).trans hperm, List.pairwise_insertionSort _ _, rfl⟩

theorem mem_selectPending {s : PgEventStore δ} {n : Nat} {scan : List EventId} {rows : List (Row δ)}
    (h : selectPending s n scan = some rows) :
    (rows.map Row.eventId).Nodup ∧
      ∀ row ∈ rows, s.find? row.eventId = some row ∧ row.status = .pending := by
  obtain ⟨sorted, hperm, -, rfl⟩ := selectPending_eq h
  constructor
  · have hn := (hperm.map Row.eventId).nodup_iff.mpr (s.nodup_keys_filter _)
    exact hn.sublist ((List.take_sublist _ _).map _)
  · intro row hrow
    obtain ⟨hrow, hst⟩ := List.mem_filter.mp (hperm.mem_iff.mp (List.mem_of_mem_take hrow))
    exact ⟨Table.find?_of_mem hrow, of_decide_eq_true hst⟩

/-! ## The abstract model -/

def Row.entry (row : Row δ) : Entry δ := ⟨row.toEvent, row.status⟩

def entry (s : PgEventStore δ) (id : EventId) : Option (Entry δ) := (s.find? id).map Row.entry

theorem entry_update (s : PgEventStore δ) (p : EventId → Bool) (f : Row δ → Row δ)
    (hf : ∀ row, (f row).eventId = row.eventId) (status : EventIngestStatus)
    (hentry : ∀ row, (f row).entry = row.entry.to status) (id : EventId) :
    entry (s.update (fun row => p row.eventId) f hf) id =
      if p id then (entry s id).map (Entry.to status) else entry s id := by
  rw [entry, Table.find?_update_key, entry]
  split
  · rw [Option.map_map, Option.map_map]
    congr 1
    exact funext hentry
  · rfl

/-- A row is inserted where its id is unknown. -/
theorem entry_insert (s : PgEventStore δ) (row : Row δ) (hpending : row.status = .pending)
    (id : EventId) : entry (s.insert row) id =
      (entry s id).or (if row.eventId = id then some ⟨row.toEvent, .pending⟩ else none) := by
  rw [entry, Table.find?_insert, entry]
  cases s.find? id with
  | some row' => rfl
  | none => by_cases hid : row.eventId = id <;> simp [Row.entry, hid, hpending]

theorem entry_acked (s : PgEventStore δ) (ids : List EventId) (id : EventId) :
    entry (s.update (fun row => decide (row.eventId ∈ ids)) Row.ack ack_eventId) id =
      if id ∈ ids then (entry s id).map (Entry.to .done) else entry s id := by
  have hupdate := entry_update s (fun id => decide (id ∈ ids)) Row.ack ack_eventId .done
    (fun _ => rfl) id
  simp only [decide_eq_true_eq] at hupdate
  exact hupdate

theorem entry_failed (s : PgEventStore δ) (id' : EventId) (error : String) (id : EventId) :
    entry (s.modify id' (Row.fail error) (fail_eventId error)) id =
      if id = id' then (entry s id).map (Entry.to .failed) else entry s id := by
  have hupdate := entry_update s (fun id => decide (id = id')) (Row.fail error)
    (fail_eventId error) .failed (fun _ => rfl) id
  simp only [decide_eq_true_eq] at hupdate
  exact hupdate

theorem entry_append {jsonb : δ → Option δ} {s s' : PgEventStore δ} {clock : Datetime}
    {e : IncomingEvent δ} (h : append jsonb s clock e = some s') :
    ∃ k, (insertRow jsonb clock e).map Row.toEvent = some k ∧ ∀ id,
      entry s' id = (entry s id).or (if e.eventId = id then some ⟨k, .pending⟩ else none) := by
  obtain ⟨row, hrow, rfl⟩ := Option.map_eq_some_iff.mp h
  refine ⟨row.toEvent, by rw [hrow, Option.map_some], ?_⟩
  obtain ⟨data, rfl⟩ := insertRow_eq hrow
  exact entry_insert s _ rfl

theorem entry_claim {s s' : PgEventStore δ} {now : Datetime} {ttl n : Nat} {scan : List EventId}
    {es : List (IncomingEvent δ)} (h : claimEvents s now ttl n scan = some (es, s')) :
    (es.map (·.eventId)).Nodup ∧ (∀ e ∈ es, entry s e.eventId = some ⟨e, .pending⟩) ∧
    ∀ id, entry s' id =
      if id ∈ es.map (·.eventId) then (entry s id).map (Entry.to .claimed) else entry s id := by
  obtain ⟨rows, hrows, h⟩ := Option.map_eq_some_iff.mp h
  cases h
  obtain ⟨hn, hmem⟩ := mem_selectPending hrows
  have hids : (rows.map Row.toEvent).map (·.eventId) = rows.map Row.eventId := List.map_map ..
  rw [hids]
  refine ⟨hn, fun e he => ?_, fun id => ?_⟩
  · obtain ⟨row, hrow, rfl⟩ := List.mem_map.mp he
    obtain ⟨hfind, hpending⟩ := hmem row hrow
    have hentry : entry s row.eventId = some ⟨row.toEvent, row.status⟩ := by
      rw [entry, hfind]
      rfl
    rwa [hpending] at hentry
  · have hupdate := entry_update s (fun id => decide (id ∈ rows.map Row.eventId))
      (Row.claim now) (claim_eventId _) .claimed (fun _ => rfl) id
    simp only [decide_eq_true_eq] at hupdate
    exact hupdate

theorem entry_reclaim (lockTtlS : Nat) (s : PgEventStore δ) (now : Datetime) (id : EventId) :
    entry (reclaimStale lockTtlS s now).2 id = entry s id ∨
      ∃ e, entry s id = some ⟨e, .claimed⟩ ∧
        entry (reclaimStale lockTtlS s now).2 id = some ⟨e, .pending⟩ := by
  simp only [entry, reclaimStale, Table.find?_update]
  cases s.find? id with
  | none => exact Or.inl rfl
  | some row =>
    by_cases hstale : row.stale (now - lockTtlS) = true
    · right
      have hclaimed := (Bool.and_eq_true _ _ ▸ hstale).1
      refine ⟨row.toEvent, ?_, ?_⟩
      · rw [Option.map_some, Row.entry, of_decide_eq_true hclaimed]
      · rw [Option.map_some, if_pos hstale]
        rfl
    · left
      rw [Option.map_some, if_neg hstale]

/-- **The Postgres event store as an event queue.** -/
def pgEvents (jsonb : δ → Option δ) (lockTtlS : Nat) : EventQueue δ where
  toEventStore := pgEventStore jsonb lockTtlS
  entry := entry
  kept clock e := (insertRow jsonb clock e).map Row.toEvent
  kept_texts clock e k h := by
    obtain ⟨row, hrow, rfl⟩ := Option.map_eq_some_iff.mp h
    obtain ⟨data, rfl⟩ := insertRow_eq hrow
    exact ⟨rfl, rfl, rfl, rfl⟩
  entry_empty _ := rfl
  entry_append _ _ _ _ h := entry_append h
  entry_claim s now ttl n scan es last s' h := by
    obtain ⟨x, hx, h⟩ := Option.map_eq_some_iff.mp h
    cases h
    exact entry_claim hx
  entry_ack s ids s' h := by
    obtain ⟨-, h⟩ := Option.ite_none_right_eq_some.mp h
    cases h
    exact entry_acked s ids
  entry_markFailed s id' error s' h := by
    obtain ⟨-, h⟩ := Option.ite_none_right_eq_some.mp h
    cases h
    exact entry_failed s id' error
  entry_reclaim := entry_reclaim lockTtlS

end WebhookEngine.Ingest.Pg
