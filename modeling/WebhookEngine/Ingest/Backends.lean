import WebhookEngine.Ingest.Mongo
import WebhookEngine.Lib.Run

/-!
# The database event stores do the same

`PgEventStore` leases a batch in one statement, sorted; `MongoEventStore` takes it one
`find_one_and_update` after the other. Both leave a choice between events of one
`created_at`. What a call may answer and what it may leave behind is a relation, and the two
stores have the same one where times are whole milliseconds, Postgres takes the texts and
numbers of the call, and both databases read a payload back as the same.

* `selectPending_iff`, `claimLoop_iff`: both claims lease the front of a list of the pending
  events in order of their time;
* `replies_iff`, `traces_iff`: every call, and every sequence of calls.
-/

namespace WebhookEngine.Ingest.Backends

open Lib Lib.Columns Events Pg Stores.Mongo

variable {δ : Type}

/-! ## Calls -/

inductive Call (δ : Type) where
  | append (clock : Datetime) (e : IncomingEvent δ)
  | appendMany (es : List (Datetime × IncomingEvent δ))
  | claimEvents (now : Datetime) (leaseTtlS batchSize : Nat)
  | ack (ids : List EventId)
  | markFailed (id : EventId) (error : String)
  | reclaimStale (now : Datetime)

inductive Reply (δ : Type) where
  | none
  | raised
  | events (es : List (IncomingEvent δ))
  | count (n : Nat)
  deriving DecidableEq

/-- A call that raises leaves the store as it was. -/
def written (s : PgEventStore δ) : Option (PgEventStore δ) → Reply δ × PgEventStore δ
  | some s' => (.none, s')
  | none => (.raised, s)

inductive PgReplies (jsonb : δ → Option δ) (lockTtlS : Nat) (s : PgEventStore δ) :
    Call δ → Reply δ → PgEventStore δ → Prop where
  | append (clock : Datetime) (e : IncomingEvent δ) :
      PgReplies jsonb lockTtlS s (.append clock e) (written s (Pg.append jsonb s clock e)).1
        (written s (Pg.append jsonb s clock e)).2
  | appendMany (es : List (Datetime × IncomingEvent δ)) :
      PgReplies jsonb lockTtlS s (.appendMany es) (written s (Pg.appendMany jsonb s es)).1
        (written s (Pg.appendMany jsonb s es)).2
  | claimEvents (now : Datetime) (ttl n : Nat) (scan : List EventId) (es : List (IncomingEvent δ))
      (s' : PgEventStore δ) (h : Pg.claimEvents s now ttl n scan = some (es, s')) :
      PgReplies jsonb lockTtlS s (.claimEvents now ttl n) (.events es) s'
  | claimRaised (now : Datetime) (ttl n : Nat) (h : fitsBigint n = false) :
      PgReplies jsonb lockTtlS s (.claimEvents now ttl n) .raised s
  | ack (ids : List EventId) :
      PgReplies jsonb lockTtlS s (.ack ids) (written s (Pg.ack s ids)).1
        (written s (Pg.ack s ids)).2
  | markFailed (id : EventId) (error : String) :
      PgReplies jsonb lockTtlS s (.markFailed id error) (written s (Pg.markFailed s id error)).1
        (written s (Pg.markFailed s id error)).2
  | reclaimStale (now : Datetime) :
      PgReplies jsonb lockTtlS s (.reclaimStale now) (.count (Pg.reclaimStale lockTtlS s now).1)
        (Pg.reclaimStale lockTtlS s now).2

/-- `for _ in range(batch_size)`, with the ids that MongoDB finds. -/
def claimLoop (now : Datetime) (ttl : Nat) :
    Nat → List EventId → PgEventStore δ → Option (List (IncomingEvent δ) × PgEventStore δ)
  | n, [], s => (Mongo.claimEvents s now ttl n []).map fun x => (x.1, x.2.2)
  | 0, _ :: _, _ => none
  | n + 1, id :: ids, s =>
    (Mongo.claimEvents s now ttl (n + 1) [id]).bind fun x =>
      (claimLoop now ttl n ids x.2.2).map fun y => (x.1 ++ y.1, y.2)

inductive MongoReplies (bson : δ → Option δ) (lockTtlS : Nat) (s : PgEventStore δ) :
    Call δ → Reply δ → PgEventStore δ → Prop where
  | append (clock : Datetime) (e : IncomingEvent δ) :
      MongoReplies bson lockTtlS s (.append clock e) (written s (Mongo.append bson s clock e)).1
        (written s (Mongo.append bson s clock e)).2
  | appendMany (es : List (Datetime × IncomingEvent δ)) :
      MongoReplies bson lockTtlS s (.appendMany es) (written s (Mongo.appendMany bson s es)).1
        (written s (Mongo.appendMany bson s es)).2
  | claimEvents (now : Datetime) (ttl n : Nat) (ids : List EventId) (es : List (IncomingEvent δ))
      (s' : PgEventStore δ) (h : claimLoop now ttl n ids s = some (es, s')) :
      MongoReplies bson lockTtlS s (.claimEvents now ttl n) (.events es) s'
  | ack (ids : List EventId) : MongoReplies bson lockTtlS s (.ack ids) .none (Mongo.ack s ids)
  | markFailed (id : EventId) (error : String) :
      MongoReplies bson lockTtlS s (.markFailed id error) .none (Mongo.markFailed s id error)
  | reclaimStale (now : Datetime) :
      MongoReplies bson lockTtlS s (.reclaimStale now)
        (.count (Mongo.reclaimStale lockTtlS s now).1) (Mongo.reclaimStale lockTtlS s now).2

/-! ## What a claim leases -/

/-- The front of a list of the pending events in order of their time. -/
def Selects (s : PgEventStore δ) (n : Nat) (rows : List (Row δ)) : Prop :=
  ∃ sorted : List (Row δ), sorted.Perm (pending s) ∧
    sorted.Pairwise (fun row row' => row.createdAt ≤ row'.createdAt) ∧ rows = sorted.take n

def lease (s : PgEventStore δ) (now : Datetime) (ids : List EventId) : PgEventStore δ :=
  s.update (fun row => decide (row.eventId ∈ ids)) (Row.claim now) (claim_eventId now)

theorem selectPending_iff {s : PgEventStore δ} {n : Nat} {rows : List (Row δ)}
    (hn : fitsBigint n = true) :
    (∃ scan, selectPending s n scan = some rows) ↔ Selects s n rows := by
  constructor
  · rintro ⟨scan, h⟩
    exact selectPending_eq h
  · rintro ⟨sorted, hperm, hsorted, rfl⟩
    have hmem : ∀ row ∈ sorted, row ∈ s.rows :=
      fun row hrow => List.mem_of_mem_filter (hperm.mem_iff.mp hrow)
    refine ⟨sorted.map Row.eventId, ?_⟩
    rw [selectPending, if_pos ⟨hn, hperm.map _⟩, filterMap_find? s sorted hmem,
      List.Pairwise.insertionSort_eq hsorted]

theorem pgClaim_iff {s s' : PgEventStore δ} {now : Datetime} {ttl n : Nat}
    {es : List (IncomingEvent δ)} (hn : fitsBigint n = true) :
    (∃ scan, Pg.claimEvents s now ttl n scan = some (es, s')) ↔
      ∃ rows, Selects s n rows ∧ es = rows.map Row.toEvent ∧
        s' = lease s now (rows.map Row.eventId) := by
  constructor
  · rintro ⟨scan, h⟩
    obtain ⟨rows, hrows, h⟩ := Option.map_eq_some_iff.mp h
    cases h
    exact ⟨rows, (selectPending_iff hn).mp ⟨scan, hrows⟩, rfl, rfl⟩
  · rintro ⟨rows, hrows, rfl, rfl⟩
    obtain ⟨scan, hscan⟩ := (selectPending_iff hn).mpr hrows
    exact ⟨scan, Option.map_eq_some_iff.mpr ⟨rows, hscan, rfl⟩⟩

/-- Without the first of the pending events. -/
theorem pending_lease (s : PgEventStore δ) (now : Datetime) (ids : List EventId) :
    pending (lease s now ids) = (pending s).filter fun row => row.eventId ∉ ids := by
  rw [pending, lease, Table.filter_update _ _ _ _ _ fun _ => rfl, pending, List.filter_filter]
  simp

theorem lease_nil (s : PgEventStore δ) (now : Datetime) : lease s now [] = s := by
  refine Table.eq_of_rows ?_
  simp [lease, Table.update]

theorem lease_cons {s : PgEventStore δ} {now : Datetime} {id : EventId} {ids : List EventId}
    (h : id ∉ ids) : lease (lease s now [id]) now ids = lease s now (id :: ids) := by
  have hupdate := Table.update_update_key s (fun k => decide (k ∈ [id]))
    (fun k => decide (k ∈ ids)) (Row.claim now) (claim_eventId now) fun k hk => by
      rw [of_decide_eq_true hk |> List.mem_singleton.mp]
      exact decide_eq_false h
  refine hupdate.trans (Table.eq_of_rows (List.map_congr_left fun row _ => ?_))
  simp [List.mem_cons]

theorem perm_pending {s : PgEventStore δ} {doc : Row δ} (now : Datetime) (h : doc ∈ pending s) :
    (doc :: pending (lease s now [doc.eventId])).Perm (pending s) := by
  have hnodup : (pending s).Nodup := (s.nodup_keys_filter _).of_map
  have hkey : ∀ row ∈ pending s, row.eventId = doc.eventId → row = doc := by
    intro row hrow he
    have hfind := Table.find?_of_mem (List.mem_of_mem_filter hrow)
    rw [he, Table.find?_of_mem (List.mem_of_mem_filter h)] at hfind
    cases hfind
    rfl
  rw [pending_lease]
  refine (List.perm_ext_iff_of_nodup (List.nodup_cons.mpr ⟨by simp, hnodup.filter _⟩)
    hnodup).mpr fun row => ?_
  rw [List.mem_cons, List.mem_filter, decide_eq_true_eq, List.mem_singleton]
  constructor
  · rintro (rfl | ⟨hrow, -⟩)
    · exact h
    · exact hrow
  · intro hrow
    by_cases he : row.eventId = doc.eventId
    · exact Or.inl (hkey row hrow he)
    · exact Or.inr ⟨hrow, he⟩

/-- The ids of a selection from what is left do not repeat the first. -/
theorem not_mem_of_selects {s : PgEventStore δ} {now : Datetime} {id : EventId} {n : Nat}
    {rows : List (Row δ)} (h : Selects (lease s now [id]) n rows) :
    id ∉ rows.map Row.eventId := by
  obtain ⟨sorted, hperm, -, rfl⟩ := h
  rintro hmem
  obtain ⟨row, hrow, rfl⟩ := List.mem_map.mp hmem
  have hpending := hperm.mem_iff.mp (List.mem_of_mem_take hrow)
  rw [pending_lease, List.mem_filter] at hpending
  exact of_decide_eq_true hpending.2 (List.mem_singleton_self _)

/-- The first of the pending events, then a selection from what is left. -/
theorem selects_succ {s : PgEventStore δ} (now : Datetime) {n : Nat} {rows : List (Row δ)} :
    Selects s (n + 1) rows ↔ pending s = [] ∧ rows = [] ∨
      ∃ doc rest, doc ∈ pending s ∧ (∀ row ∈ pending s, doc.createdAt ≤ row.createdAt) ∧
        Selects (lease s now [doc.eventId]) n rest ∧ rows = doc :: rest := by
  constructor
  · rintro ⟨sorted, hperm, hsorted, rfl⟩
    cases sorted with
    | nil => exact Or.inl ⟨List.nil_perm.mp hperm, rfl⟩
    | cons doc sorted =>
      have hdoc : doc ∈ pending s := hperm.mem_iff.mp (List.mem_cons_self ..)
      obtain ⟨hfirst, hsorted⟩ := List.pairwise_cons.mp hsorted
      refine Or.inr ⟨doc, sorted.take n, hdoc, fun row hrow => ?_, ⟨sorted, ?_, hsorted, rfl⟩, rfl⟩
      · rcases List.mem_cons.mp (hperm.mem_iff.mpr hrow) with rfl | hrow
        · exact le_refl _
        · exact hfirst row hrow
      · exact (hperm.trans (perm_pending now hdoc).symm).cons_inv
  · rintro (⟨hnone, rfl⟩ | ⟨doc, rest, hdoc, hfirst, ⟨sorted, hperm, hsorted, rfl⟩, rfl⟩)
    · exact ⟨[], hnone ▸ .nil, .nil, rfl⟩
    · refine ⟨doc :: sorted, (hperm.cons doc).trans (perm_pending now hdoc), ?_, rfl⟩
      refine List.pairwise_cons.mpr ⟨fun row hrow => hfirst row ?_, hsorted⟩
      have hleft := hperm.mem_iff.mp hrow
      rw [pending_lease] at hleft
      exact List.mem_of_mem_filter hleft

theorem claimEvents_nil {s : PgEventStore δ} {now : Datetime} {ttl n : Nat}
    {x : List (IncomingEvent δ) × Bool × PgEventStore δ} :
    Mongo.claimEvents s now ttl n [] = some x ↔ x = ([], true, s) ∧ (n = 0 ∨ pending s = []) := by
  constructor
  · intro h
    cases n with
    | zero =>
      cases h
      exact ⟨rfl, Or.inl rfl⟩
    | succ n =>
      obtain ⟨hnone, h⟩ := Option.ite_none_right_eq_some.mp h
      cases h
      exact ⟨rfl, Or.inr (List.isEmpty_iff.mp hnone)⟩
  · rintro ⟨rfl, hnone⟩
    cases n with
    | zero => rfl
    | succ n => exact if_pos (List.isEmpty_iff.mpr (hnone.resolve_left (Nat.succ_ne_zero n)))

theorem claimEvents_one {s : PgEventStore δ} {now : Datetime} {ttl n : Nat} {id : EventId}
    {x : List (IncomingEvent δ) × Bool × PgEventStore δ} :
    Mongo.claimEvents s now ttl (n + 1) [id] = some x ↔
      ∃ doc, doc ∈ pending s ∧ (∀ row ∈ pending s, doc.createdAt ≤ row.createdAt) ∧
        doc.eventId = id ∧ x = ([doc.toEvent], false, lease s (bsonDate now) [id]) := by
  have hlease : lease s (bsonDate now) [id] = s.modify id (Row.claim (bsonDate now))
      (claim_eventId (bsonDate now)) := by
    simp [lease, Table.modify]
  constructor
  · intro h
    obtain ⟨doc, hdoc, rfl⟩ := Option.map_eq_some_iff.mp h
    obtain ⟨hdoc, hfirst⟩ := Option.filter_eq_some_iff.mp hdoc
    obtain ⟨hpending, hfirst⟩ := Bool.and_eq_true_iff.mp hfirst
    obtain ⟨hmem, hid⟩ := Table.find?_eq_some.mp hdoc
    refine ⟨doc, List.mem_filter.mpr ⟨hmem, hpending⟩, fun row hrow => ?_, hid, by rw [hlease]⟩
    exact of_decide_eq_true (List.all_eq_true.mp hfirst row hrow)
  · rintro ⟨doc, hdoc, hfirst, rfl, rfl⟩
    obtain ⟨hmem, hpending⟩ := List.mem_filter.mp hdoc
    have hall : Mongo.foundFirst s doc = true := Bool.and_eq_true_iff.mpr
      ⟨hpending, List.all_eq_true.mpr fun row hrow => decide_eq_true (hfirst row hrow)⟩
    rw [hlease, Mongo.claimEvents, Table.find?_of_mem hmem, Option.filter_some_pos hall,
      Option.map_some]

/-- A claim that takes one event after the other. -/
theorem claimLoop_iff {s s' : PgEventStore δ} {now : Datetime} {ttl n : Nat}
    {es : List (IncomingEvent δ)} :
    (∃ ids, claimLoop now ttl n ids s = some (es, s')) ↔
      ∃ rows, Selects s n rows ∧ es = rows.map Row.toEvent ∧
        s' = lease s (bsonDate now) (rows.map Row.eventId) := by
  induction n generalizing s es with
  | zero =>
    constructor
    · rintro ⟨ids, h⟩
      cases ids with
      | nil =>
        obtain ⟨x, hx, h⟩ := Option.map_eq_some_iff.mp h
        obtain ⟨rfl, -⟩ := claimEvents_nil.mp hx
        cases h
        obtain ⟨scan, hscan⟩ : ∃ scan, selectPending s 0 scan = some [] :=
          ⟨_, if_pos ⟨rfl, List.Perm.refl _⟩⟩
        exact ⟨[], selectPending_eq hscan, rfl, (lease_nil _ _).symm⟩
      | cons id ids => cases h
    · rintro ⟨rows, ⟨sorted, -, -, rfl⟩, rfl, rfl⟩
      exact ⟨[], congrArg some (Prod.ext rfl (lease_nil _ _).symm)⟩
  | succ n ih =>
    constructor
    · rintro ⟨ids, h⟩
      cases ids with
      | nil =>
        obtain ⟨x, hx, h⟩ := Option.map_eq_some_iff.mp h
        obtain ⟨rfl, hnone⟩ := claimEvents_nil.mp hx
        cases h
        have hnone := hnone.resolve_left (Nat.succ_ne_zero n)
        exact ⟨[], (selects_succ now).mpr (Or.inl ⟨hnone, rfl⟩), rfl, (lease_nil _ _).symm⟩
      | cons id ids =>
        obtain ⟨x, hx, h⟩ := Option.bind_eq_some_iff.mp h
        obtain ⟨doc, hdoc, hfirst, rfl, rfl⟩ := claimEvents_one.mp hx
        obtain ⟨⟨es', s''⟩, hrest, h⟩ := Option.map_eq_some_iff.mp h
        cases h
        obtain ⟨rows, hrows, rfl, rfl⟩ := ih.mp ⟨ids, hrest⟩
        exact ⟨doc :: rows,
          (selects_succ _).mpr (Or.inr ⟨doc, rows, hdoc, hfirst, hrows, rfl⟩), rfl,
          lease_cons (not_mem_of_selects hrows)⟩
    · rintro ⟨rows, hrows, rfl, rfl⟩
      rcases (selects_succ (bsonDate now)).mp hrows with
        ⟨hnone, rfl⟩ | ⟨doc, rest, hdoc, hfirst, hrest, rfl⟩
      · refine ⟨[], Option.map_eq_some_iff.mpr ⟨_, claimEvents_nil.mpr ⟨rfl, Or.inr hnone⟩, ?_⟩⟩
        exact Prod.ext rfl (lease_nil _ _).symm
      · obtain ⟨ids, hids⟩ := ih.mpr
          ⟨rest, hrest, rfl, (lease_cons (not_mem_of_selects hrest)).symm⟩
        exact ⟨doc.eventId :: ids, Option.bind_eq_some_iff.mpr
          ⟨_, claimEvents_one.mpr ⟨doc, hdoc, hfirst, rfl, rfl⟩,
            Option.map_eq_some_iff.mpr ⟨_, hids, rfl⟩⟩⟩

/-! ## Whole milliseconds -/

def WholeMillis (t : Datetime) : Prop := ∃ k : ℤ, t = k / 1000

theorem bsonDate_whole {t : Datetime} (h : WholeMillis t) : bsonDate t = t := by
  obtain ⟨k, rfl⟩ := h
  rw [bsonDate, div_mul_cancel₀ _ (by norm_num), Int.floor_intCast]

theorem WholeMillis.sub_seconds {t : Datetime} (h : WholeMillis t) (n : Nat) :
    WholeMillis (t - n) := by
  obtain ⟨k, rfl⟩ := h
  refine ⟨k - n * 1000, ?_⟩
  push_cast
  ring

/-- Its time is whole, no text has a U+0000, and both databases read its payload back as the
same. -/
def Fits (jsonb bson : δ → Option δ) (clock : Datetime) (e : IncomingEvent δ) : Prop :=
  WholeMillis (e.createdAt.getD clock) ∧ textsFit e = true ∧ bson e.data = jsonb e.data

def Call.Fits (jsonb bson : δ → Option δ) : Call δ → Prop
  | .append clock e => Backends.Fits jsonb bson clock e
  | .appendMany es => ∀ x ∈ es, Backends.Fits jsonb bson x.1 x.2
  | .claimEvents now _ n => WholeMillis now ∧ fitsBigint n = true
  | .reclaimStale now => WholeMillis now
  | .ack ids => ids.all fitsText = true
  | .markFailed id error => (fitsText id && fitsText error) = true

variable {jsonb bson : δ → Option δ}

theorem eventDoc_fits {clock : Datetime} {e : IncomingEvent δ} (h : Fits jsonb bson clock e) :
    Mongo.eventDoc bson clock e = insertRow jsonb clock e := by
  obtain ⟨htime, htexts, hdata⟩ := h
  rw [Mongo.eventDoc, insertRow, hdata, if_pos htexts, bsonDate_whole htime]
  rfl

theorem eventDocs_fits {es : List (Datetime × IncomingEvent δ)}
    (h : ∀ x ∈ es, Fits jsonb bson x.1 x.2) : Mongo.eventDocs bson es = insertRows jsonb es := by
  induction es with
  | nil => rfl
  | cons x es ih =>
    obtain ⟨hx, hes⟩ := List.forall_mem_cons.mp h
    rw [Mongo.eventDocs, insertRows, eventDoc_fits hx, ih hes]

theorem append_fits {s : PgEventStore δ} {clock : Datetime} {e : IncomingEvent δ}
    (h : Fits jsonb bson clock e) : Mongo.append bson s clock e = Pg.append jsonb s clock e := by
  rw [Mongo.append, eventDoc_fits h]
  rfl

theorem appendMany_fits {s : PgEventStore δ} {es : List (Datetime × IncomingEvent δ)}
    (h : ∀ x ∈ es, Fits jsonb bson x.1 x.2) :
    Mongo.appendMany bson s es = Pg.appendMany jsonb s es := by
  rw [Mongo.appendMany, eventDocs_fits h]
  rfl

theorem reclaimStale_whole {lockTtlS : Nat} {s : PgEventStore δ} {now : Datetime}
    (h : WholeMillis now) : Mongo.reclaimStale lockTtlS s now = Pg.reclaimStale lockTtlS s now := by
  rw [Mongo.reclaimStale, bsonDate_whole (h.sub_seconds lockTtlS)]
  rfl

theorem claim_whole {s s' : PgEventStore δ} {now : Datetime} {ttl n : Nat}
    {es : List (IncomingEvent δ)} (h : WholeMillis now) (hn : fitsBigint n = true) :
    (∃ ids, claimLoop now ttl n ids s = some (es, s')) ↔
      ∃ scan, Pg.claimEvents s now ttl n scan = some (es, s') := by
  rw [claimLoop_iff, pgClaim_iff hn, bsonDate_whole h]

theorem ack_fits {s : PgEventStore δ} {ids : List EventId} (h : ids.all fitsText = true) :
    Pg.ack s ids = some (Mongo.ack s ids) := if_pos h

theorem markFailed_fits {s : PgEventStore δ} {id : EventId} {error : String}
    (h : (fitsText id && fitsText error) = true) :
    Pg.markFailed s id error = some (Mongo.markFailed s id error) := if_pos h

/-- **Every call.** What one store may answer and leave behind, the other may. -/
theorem replies_iff {lockTtlS : Nat} {s s' : PgEventStore δ} {call : Call δ} {reply : Reply δ}
    (h : call.Fits jsonb bson) :
    MongoReplies bson lockTtlS s call reply s' ↔ PgReplies jsonb lockTtlS s call reply s' := by
  constructor
  · intro hcall
    cases hcall with
    | append clock e =>
      rw [append_fits h]
      exact .append clock e
    | appendMany es =>
      rw [appendMany_fits h]
      exact .appendMany es
    | claimEvents now ttl n ids es s' hids =>
      obtain ⟨scan, hscan⟩ := (claim_whole h.1 h.2).mp ⟨ids, hids⟩
      exact .claimEvents now ttl n scan es s' hscan
    | ack ids =>
      have hcall : PgReplies jsonb lockTtlS s (.ack ids) _ _ := .ack ids
      rw [ack_fits h] at hcall
      exact hcall
    | markFailed id error =>
      have hcall : PgReplies jsonb lockTtlS s (.markFailed id error) _ _ := .markFailed id error
      rw [markFailed_fits h] at hcall
      exact hcall
    | reclaimStale now =>
      rw [reclaimStale_whole h]
      exact .reclaimStale now
  · intro hcall
    cases hcall with
    | append clock e =>
      rw [← append_fits h]
      exact .append clock e
    | appendMany es =>
      rw [← appendMany_fits h]
      exact .appendMany es
    | claimEvents now ttl n scan es s' hscan =>
      obtain ⟨ids, hids⟩ := (claim_whole h.1 h.2).mpr ⟨scan, hscan⟩
      exact .claimEvents now ttl n ids es s' hids
    | claimRaised now ttl n hn => exact absurd (hn.symm.trans h.2) Bool.false_ne_true
    | ack ids =>
      rw [ack_fits h]
      exact .ack ids
    | markFailed id error =>
      rw [markFailed_fits h]
      exact .markFailed id error
    | reclaimStale now =>
      rw [← reclaimStale_whole h]
      exact .reclaimStale now

/-! ## Sequences of calls -/

/-- The calls with their replies, from a state to a state. -/
inductive Trace (replies : PgEventStore δ → Call δ → Reply δ → PgEventStore δ → Prop) :
    PgEventStore δ → List (Call δ × Reply δ) → PgEventStore δ → Prop where
  | nil (s : PgEventStore δ) : Trace replies s [] s
  | cons {s s' s'' : PgEventStore δ} {call : Call δ} {reply : Reply δ}
      {rest : List (Call δ × Reply δ)} (hcall : replies s call reply s')
      (hrest : Trace replies s' rest s'') : Trace replies s ((call, reply) :: rest) s''

/-- **Every sequence of calls.** From any common state, what the calls of the MongoDB store may
answer one after the other, and the state they may end in, is what the Postgres store may. -/
theorem traces_iff (jsonb bson : δ → Option δ) (lockTtlS : Nat) (s s' : PgEventStore δ)
    (trace : List (Call δ × Reply δ)) (h : ∀ x ∈ trace, x.1.Fits jsonb bson) :
    Trace (MongoReplies bson lockTtlS) s trace s' ↔
      Trace (PgReplies jsonb lockTtlS) s trace s' := by
  constructor
  · intro htrace
    induction htrace with
    | nil s => exact .nil s
    | cons hcall _ ih =>
      obtain ⟨hx, hrest⟩ := List.forall_mem_cons.mp h
      exact .cons ((replies_iff hx).mp hcall) (ih hrest)
  · intro htrace
    induction htrace with
    | nil s => exact .nil s
    | cons hcall _ ih =>
      obtain ⟨hx, hrest⟩ := List.forall_mem_cons.mp h
      exact .cons ((replies_iff hx).mpr hcall) (ih hrest)

def exampleEvent (id : EventId) : IncomingEvent Unit where
  eventId := id
  event := "task.created"
  data := ()
  createdAt := some 1

/-- Two events of one time; the later one is leased. -/
def exampleTrace : List (Call Unit × Reply Unit) := [
  (.append 1 (exampleEvent "a"), .none), (.append 1 (exampleEvent "b"), .none),
  (.claimEvents 2 30 1, .events [exampleEvent "b"]), (.ack ["b"], .none)]

theorem exampleTrace_fits : ∀ x ∈ exampleTrace, x.1.Fits some some := by
  have hone : WholeMillis 1 := ⟨1000, by norm_num⟩
  have htwo : WholeMillis 2 := ⟨2000, by norm_num⟩
  simp only [exampleTrace, List.forall_mem_cons, Call.Fits, Fits, and_true]
  exact ⟨⟨hone, by decide⟩, ⟨hone, by decide⟩, ⟨htwo, by decide⟩, by decide,
    List.forall_mem_nil _⟩

theorem traces_iff_example : ∃ s', Trace (MongoReplies some 30) .empty exampleTrace s' := by
  obtain ⟨s', hpg⟩ : ∃ s', Trace (PgReplies some 30) .empty exampleTrace s' :=
    ⟨_, .cons (.append ..) (.cons (.append ..)
      (.cons (.claimEvents _ _ _ ["b", "a"] _ _ rfl) (.cons (.ack _) (.nil _))))⟩
  exact ⟨s', (traces_iff some some 30 .empty s' exampleTrace exampleTrace_fits).mpr hpg⟩

end WebhookEngine.Ingest.Backends
