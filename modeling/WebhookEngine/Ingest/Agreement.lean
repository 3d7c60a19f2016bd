import Mathlib.Data.List.Pairwise
import WebhookEngine.Ingest.Memory
import WebhookEngine.Ingest.Pg
import WebhookEngine.Lib.Run

/-!
# The in-memory and the Postgres event store agree

The same calls on both stores, one after the other. The in-memory store keeps the end of
a lease and hands out in order of insertion; Postgres keeps its start and hands out in
order of `created_at`. A call that Postgres refuses raises and leaves its table as it is,
where the in-memory store takes any payload, text and number.

* `Match`: how the two rows of an event correspond;
* `step_agree`: what one call returns and leaves;
* `stores_agree`: over every sequence of calls.
-/

namespace WebhookEngine.Ingest.Agreement

open Lib Lib.Columns Lib.Run Events

variable {δ : Type}

/-! ## Calls -/

/-- A call, with what Postgres leaves to the environment: the clock an `append` reads,
the order in which a claim meets the pending rows. The lease of a claim is `lock_ttl_s`. -/
inductive Op (δ : Type) where
  | append (clock : Datetime) (event : IncomingEvent δ)
  | appendMany (events : List (Datetime × IncomingEvent δ))
  | claimEvents (now : Datetime) (batchSize : Nat) (scan : List EventId)
  | ack (ids : List EventId)
  | markFailed (id : EventId) (error : String)
  | reclaimStale (now : Datetime)

/-- The events a call appends. -/
def Op.appended : Op δ → List (IncomingEvent δ)
  | .append _ e => [e]
  | .appendMany es => es.map (·.2)
  | _ => []

/-- The ids of the events that an `ack` or a `mark_failed` names. -/
def Op.named : Op δ → List EventId
  | .ack ids => ids
  | .markFailed id _ => [id]
  | _ => []

/-- What is compared of the answers: the ids of a claim, or that it raises, and the count
of a reclaim. -/
inductive Answer where
  | none
  | raised
  | ids (ids : List EventId)
  | count (n : Nat)
  deriving DecidableEq

def memoryCall (lockTtlS : Nat) (s : Memory.MemoryEventStore δ) :
    Op δ → Answer × Memory.MemoryEventStore δ
  | .append _ e => (.none, Memory.append s e)
  | .appendMany es => (.none, Memory.appendMany s (es.map (·.2)))
  | .claimEvents now n _ =>
    let (events, s') := Memory.claimEvents s now lockTtlS n
    (.ids (events.map (·.eventId)), s')
  | .ack ids => (.none, Memory.ack s ids)
  | .markFailed id error => (.none, Memory.markFailed s id error)
  | .reclaimStale now => ((.count (Memory.reclaimStale s now).1), (Memory.reclaimStale s now).2)

/-- `none` if the rows cannot be met in that order. -/
def pgCall (jsonb : δ → Option δ) (lockTtlS : Nat) (s : Pg.PgEventStore δ) :
    Op δ → Option (Answer × Pg.PgEventStore δ)
  | .append clock e => some (.none, (Pg.append jsonb s clock e).getD s)
  | .appendMany es => some (.none, (Pg.appendMany jsonb s es).getD s)
  | .claimEvents now n scan =>
    if fitsBigint n then
      (Pg.claimEvents s now lockTtlS n scan).map fun (events, s') =>
        (.ids (events.map (·.eventId)), s')
    else some (.raised, s)
  | .ack ids => some (.none, (Pg.ack s ids).getD s)
  | .markFailed id error => some (.none, (Pg.markFailed s id error).getD s)
  | .reclaimStale now =>
    some ((.count (Pg.reclaimStale lockTtlS s now).1), (Pg.reclaimStale lockTtlS s now).2)

structure Pair (δ : Type) where
  memory : Memory.MemoryEventStore δ
  pg : Pg.PgEventStore δ

def init (δ : Type) : Pair δ := ⟨.empty, .empty⟩

def step (jsonb : δ → Option δ) (lockTtlS : Nat) (w : Pair δ) (op : Op δ) : Option (Pair δ) :=
  (pgCall jsonb lockTtlS w.pg op).map fun y => ⟨(memoryCall lockTtlS w.memory op).2, y.2⟩

/-- The two stores give one answer, and then have each id in one status. -/
def Agree (jsonb : δ → Option δ) (lockTtlS : Nat) (w : Pair δ) (op : Op δ) : Prop :=
  ∀ y, pgCall jsonb lockTtlS w.pg op = some y →
    (memoryCall lockTtlS w.memory op).1 = y.1 ∧
    ∀ id, ((memoryCall lockTtlS w.memory op).2.find? id).map (·.status) =
      (y.2.find? id).map (·.status)

/-- The events of a sequence of calls, each id at its first append. -/
def firstAppends (ops : List (Op δ)) : Table (IncomingEvent.eventId (δ := δ)) :=
  Table.empty.insertMany (ops.flatMap Op.appended)

/-- They have a `created_at`, and it increases. -/
def Chronological (t : Table (IncomingEvent.eventId (δ := δ))) : Prop :=
  ∃ times : List Datetime, t.rows.map (·.createdAt) = times.map some ∧ times.Pairwise (· < ·)

/-- Postgres takes the values of the call. -/
def Takes (jsonb : δ → Option δ) : Op δ → Bool
  | .append _ e => Pg.textsFit e && (jsonb e.data).isSome
  | .appendMany es => es.all fun x => Pg.textsFit x.2 && (jsonb x.2.data).isSome
  | .claimEvents _ n _ => fitsBigint n
  | .ack ids => ids.all fitsText
  | .markFailed id error => fitsText id && fitsText error
  | .reclaimStale _ => true

/-- A call without effect: it claims nothing, appends nothing new and names no event that is
stored. -/
def Moot (w : Pair δ) : Op δ → Bool
  | .claimEvents .. => false
  | op => (op.appended.all fun e => (w.memory.find? e.eventId).isSome) &&
      op.named.all fun id => (w.memory.find? id).isNone

/-- Postgres takes the values of the call, or there is nothing to do. -/
def Accepted (jsonb : δ → Option δ) (w : Pair δ) (op : Op δ) : Prop :=
  Takes jsonb op = true ∨ Moot w op = true

instance (jsonb : δ → Option δ) (w : Pair δ) (op : Op δ) : Decidable (Accepted jsonb w op) :=
  inferInstanceAs (Decidable (_ ∨ _))

/-! ## The relation -/

/-- The two rows of one event: the lease ends `lock_ttl_s` after it was taken. -/
structure Match (lockTtlS : Nat) (m : Memory.Row δ) (p : Pg.Row δ) : Prop where
  eventId : p.eventId = m.eventId
  createdAt : m.event.createdAt = some p.createdAt
  status : p.status = m.status
  lease : m.status = .claimed → ∃ t, p.lockedAt = some t ∧ m.leaseUntil = some (t + lockTtlS)

/-- The rows correspond in the order of insertion. -/
def Related (lockTtlS : Nat) (m : Memory.MemoryEventStore δ) (p : Pg.PgEventStore δ) : Prop :=
  List.Forall₂ (Match lockTtlS) m.rows p.rows

variable {lockTtlS : Nat} {m : Memory.MemoryEventStore δ} {p : Pg.PgEventStore δ}

theorem match_key (r : Memory.Row δ) (r' : Pg.Row δ) (h : Match lockTtlS r r') :
    r'.eventId = r.eventId := h.eventId

theorem status_eq (h : Related lockTtlS m p) (id : EventId) :
    (m.find? id).map (·.status) = (p.find? id).map (·.status) := by
  have hrel := Table.rel_find? match_key h id
  generalize m.find? id = v, p.find? id = v' at hrel ⊢
  cases hrel with
  | none => rfl
  | some hm => exact congrArg some hm.status.symm

/-! ### Appends -/

/-- The events of the in-memory store, in order of insertion. -/
def events (s : Memory.MemoryEventStore δ) : Table (IncomingEvent.eventId (δ := δ)) where
  rows := s.rows.map (·.event)
  nodup := by
    rw [List.map_map]
    exact s.nodup

theorem find?_events (s : Memory.MemoryEventStore δ) (id : EventId) :
    (events s).find? id = (s.find? id).map (·.event) := List.find?_map ..

theorem events_append (s : Memory.MemoryEventStore δ) (e : IncomingEvent δ) :
    events (Memory.append s e) = (events s).insert e := by
  apply Table.eq_of_rows
  rw [Table.rows_insert, find?_events, Option.isSome_map]
  change (Table.insert s { event := e }).rows.map (·.event) = _
  rw [Table.rows_insert, Memory.Row.eventId]
  split
  · rfl
  · rw [List.map_append]
    rfl

theorem events_appendMany (s : Memory.MemoryEventStore δ) (es : List (IncomingEvent δ)) :
    events (Memory.appendMany s es) = (events s).insertMany es := by
  induction es generalizing s with
  | nil => rfl
  | cons e es ih =>
    have hes := ih (Memory.append s e)
    rw [events_append] at hes
    exact hes

/-- The times of a chronological table, as far as a shorter one goes. -/
theorem Chronological.of_front {t t' : Table (IncomingEvent.eventId (δ := δ))}
    (h : Chronological t') (hp : t.rows <+: t'.rows) : Chronological t := by
  obtain ⟨times, htimes, hsorted⟩ := h
  obtain ⟨rest, hrest⟩ := hp
  rw [← hrest, List.map_append] at htimes
  obtain ⟨times₁, times₂, rfl, h₁, -⟩ := List.append_eq_map_iff.mp htimes
  exact ⟨times₁, h₁.symm, (List.pairwise_append.mp hsorted).1⟩

theorem Chronological.isSome {t : Table (IncomingEvent.eventId (δ := δ))} (h : Chronological t)
    {e : IncomingEvent δ} (he : e ∈ t.rows) : ∃ time, e.createdAt = some time := by
  obtain ⟨times, htimes, -⟩ := h
  have hmem := List.mem_map_of_mem (f := fun e : IncomingEvent δ => e.createdAt) he
  rw [htimes] at hmem
  obtain ⟨time, -, ht⟩ := List.mem_map.mp hmem
  exact ⟨time, ht.symm⟩

/-- The row Postgres inserts for an event. -/
theorem related_insert (h : Related lockTtlS m p) {jsonb : δ → Option δ} {clock : Datetime}
    {e : IncomingEvent δ} {row : Pg.Row δ} (hrow : Pg.insertRow jsonb clock e = some row)
    (hc : Chronological (events (Memory.append m e))) :
    Related lockTtlS (Memory.append m e) (p.insert row) := by
  obtain ⟨data, rfl⟩ := Pg.insertRow_eq hrow
  refine Table.rel_insert match_key h rfl fun hnew => ?_
  have he : e ∈ (events (Memory.append m e)).rows := by
    have hfind := Table.find?_insert (events m) e e.eventId
    rw [if_pos rfl, find?_events, show m.find? e.eventId = none from hnew, ← events_append] at hfind
    exact (Table.find?_eq_some.mp hfind).1
  obtain ⟨time, ht⟩ := hc.isSome he
  exact ⟨rfl, by simp [Pg.eventRow, ht], rfl, fun hclaimed => by cases hclaimed⟩

theorem related_insertMany {jsonb : δ → Option δ} {es : List (Datetime × IncomingEvent δ)}
    {rows : List (Pg.Row δ)} (h : Related lockTtlS m p) (hrows : Pg.insertRows jsonb es = some rows)
    (hc : Chronological (events (Memory.appendMany m (es.map (·.2))))) :
    Related lockTtlS (Memory.appendMany m (es.map (·.2))) (p.insertMany rows) := by
  induction es generalizing m p rows with
  | nil =>
    cases hrows
    exact h
  | cons x es ih =>
    obtain ⟨clock, e⟩ := x
    obtain ⟨row, hrow, hrest⟩ := Option.bind_eq_some_iff.mp hrows
    obtain ⟨rows', hrows', rfl⟩ := Option.map_eq_some_iff.mp hrest
    have hfirst : Chronological (events (Memory.append m e)) := by
      apply hc.of_front
      have hfront := (events (Memory.append m e)).front_insertMany (es.map (·.2))
      rw [← events_appendMany] at hfront
      exact hfront
    exact ih (p := p.insert row) (related_insert h hrow hfirst) hrows' hc

theorem insertRows_isSome {jsonb : δ → Option δ} {es : List (Datetime × IncomingEvent δ)}
    (h : ∀ x ∈ es, (Pg.textsFit x.2 && (jsonb x.2.data).isSome) = true) :
    (Pg.insertRows jsonb es).isSome = true := by
  induction es with
  | nil => rfl
  | cons x es ih =>
    obtain ⟨hx, hes⟩ := List.forall_mem_cons.mp h
    obtain ⟨htexts, hdata⟩ := Bool.and_eq_true_iff.mp hx
    obtain ⟨data, hdata⟩ := Option.isSome_iff_exists.mp hdata
    obtain ⟨rows, hrows⟩ := Option.isSome_iff_exists.mp (ih hes)
    simp [Pg.insertRows, Pg.insertRow, htexts, hdata, hrows]

theorem appendMany_known {s : Memory.MemoryEventStore δ} {es : List (IncomingEvent δ)}
    (h : ∀ e ∈ es, (s.find? e.eventId).isSome = true) : Memory.appendMany s es = s := by
  induction es with
  | nil => rfl
  | cons e es ih =>
    rw [Memory.appendMany, List.foldl_cons, Memory.append_known (h e (List.mem_cons_self ..))]
    exact ih fun e' he' => h e' (List.mem_cons_of_mem _ he')

theorem pg_append_eq (jsonb : δ → Option δ) (s : Pg.PgEventStore δ) (clock : Datetime)
    (e : IncomingEvent δ) : Pg.append jsonb s clock e = Pg.appendMany jsonb s [(clock, e)] := by
  simp only [Pg.append, Pg.appendMany, Pg.insertRows]
  cases Pg.insertRow jsonb clock e with
  | none => rfl
  | some row => rfl

/-- An append that Postgres takes, or one of known events. -/
theorem related_appendMany {jsonb : δ → Option δ} {es : List (Datetime × IncomingEvent δ)}
    (h : Related lockTtlS m p) (hc : Chronological (events (Memory.appendMany m (es.map (·.2)))))
    (ha : (∀ x ∈ es, (Pg.textsFit x.2 && (jsonb x.2.data).isSome) = true) ∨
      ∀ e ∈ es.map (·.2), (m.find? e.eventId).isSome = true) :
    Related lockTtlS (Memory.appendMany m (es.map (·.2))) ((Pg.appendMany jsonb p es).getD p) := by
  cases hrows : Pg.insertRows jsonb es with
  | some rows =>
    rw [Pg.appendMany, hrows]
    exact related_insertMany h hrows hc
  | none =>
    rw [Pg.appendMany, hrows]
    rcases ha with haccepted | hknown
    · have hsome : (Pg.insertRows jsonb es).isSome = true :=
        insertRows_isSome haccepted
      rw [hrows] at hsome
      cases hsome
    · rw [appendMany_known hknown]
      exact h

/-! ### Claims, acks and reclaims -/

theorem related_close (h : Related lockTtlS m p) (c : EventId → Bool)
    {status : EventIngestStatus} (hst : status ≠ .claimed) {f : Pg.Row δ → Pg.Row δ}
    (hf : ∀ row, (f row).eventId = row.eventId)
    (hrow : ∀ row, (f row).createdAt = row.createdAt ∧ (f row).status = status) :
    Related lockTtlS (m.update (fun row => c row.eventId) (Memory.Row.close status)
      (Memory.close_eventId status)) (p.update (fun row => c row.eventId) f hf) := by
  refine Table.rel_update h (fun r r' hr => by rw [hr.eventId]) _ _ fun r r' hr _ => ?_
  obtain ⟨htime, hstatus⟩ := hrow r'
  exact ⟨(hf r').trans hr.eventId, by rw [htime]; exact hr.createdAt, hstatus,
    fun hclaimed => absurd hclaimed hst⟩

theorem known_of_moot {w : Pair δ} {op : Op δ} (h : Moot w op = true) :
    ∀ e ∈ op.appended, (w.memory.find? e.eventId).isSome = true := by
  cases op with
  | append | appendMany => exact List.all_eq_true.mp (Bool.and_eq_true_iff.mp h).1
  | _ => exact List.forall_mem_nil _

/-- A store that has none of the events is as it was. -/
theorem close_unknown {ids : List EventId} (h : ∀ id ∈ ids, (m.find? id).isNone = true)
    (status : EventIngestStatus) :
    m.update (fun row => decide (row.eventId ∈ ids)) (Memory.Row.close status)
      (Memory.close_eventId status) = m := by
  refine Table.update_of_none fun row hrow => decide_eq_false fun hid => ?_
  have hnone := h row.eventId hid
  rw [Table.find?_of_mem hrow] at hnone
  cases hnone

/-- The rows of the two stores that a claim may take. -/
theorem related_pending (h : Related lockTtlS m p) :
    List.Forall₂ (Match lockTtlS) (m.rows.filter Memory.Row.isPending) (Pg.pending p) := by
  refine List.rel_filter (fun r r' hr => ?_) h
  simp only [Memory.Row.isPending, hr.status]

theorem map_eventId_eq {rs : List (Memory.Row δ)} {rs' : List (Pg.Row δ)}
    (h : List.Forall₂ (Match lockTtlS) rs rs') :
    rs'.map Pg.Row.eventId = rs.map Memory.Row.eventId := by
  induction h with
  | nil => rfl
  | cons hr _ ih => rw [List.map_cons, List.map_cons, hr.eventId, ih]

theorem sorted_rows (h : Related lockTtlS m p) (hc : Chronological (events m)) :
    p.rows.Pairwise fun row row' => row.createdAt < row'.createdAt := by
  obtain ⟨times, htimes, hsorted⟩ := hc
  have hmap : times = p.rows.map (·.createdAt) := by
    apply List.map_injective_iff.mpr (Option.some_injective Datetime)
    rw [← htimes, events, List.map_map, List.map_map]
    unfold Related at h
    generalize m.rows = rows, p.rows = rows' at h
    induction h with
    | nil => rfl
    | cons hr _ ih =>
      rw [List.map_cons, List.map_cons, ih]
      simp [hr.createdAt]
  rw [hmap, List.pairwise_map] at hsorted
  exact hsorted

/-- Postgres selects the pending rows in the order of their insertion. -/
theorem selectPending_chronological
    (hsorted : p.rows.Pairwise fun row row' => row.createdAt < row'.createdAt) {n : Nat}
    {scan : List EventId} {rows : List (Pg.Row δ)} (h : Pg.selectPending p n scan = some rows) :
    rows = (Pg.pending p).take n := by
  obtain ⟨sorted, hperm, hle, rfl⟩ := Pg.selectPending_eq h
  have hpending : (Pg.pending p).Pairwise fun row row' => row.createdAt < row'.createdAt :=
    hsorted.sublist List.filter_sublist
  have heq : sorted = Pg.pending p := by
    refine List.Perm.eq_of_pairwise ?_ hle (hpending.imp le_of_lt) hperm
    intro a b ha hb hab hba
    -- two pending rows with one time are one row
    have : Std.Symm fun row row' : Pg.Row δ => row.createdAt ≠ row'.createdAt :=
      ⟨fun _ _ => Ne.symm⟩
    by_contra hne
    exact (hpending.imp ne_of_lt).forall (hperm.mem_iff.mp ha) hb hne (le_antisymm hab hba)
  rw [heq]

theorem claim_agree (h : Related lockTtlS m p) (hc : Chronological (events m)) {now : Datetime}
    {n : Nat} {scan : List EventId} {es : List (IncomingEvent δ)} {p' : Pg.PgEventStore δ}
    (hp : Pg.claimEvents p now lockTtlS n scan = some (es, p')) :
    (Memory.claimEvents m now lockTtlS n).1.map (·.eventId) = es.map (·.eventId) ∧
      Related lockTtlS (Memory.claimEvents m now lockTtlS n).2 p' := by
  obtain ⟨rows, hrows, hp⟩ := Option.map_eq_some_iff.mp hp
  cases hp
  obtain rfl := selectPending_chronological (sorted_rows h hc) hrows
  have hids := map_eventId_eq (List.forall₂_take n (related_pending h))
  have hmemory : (Memory.claimEvents m now lockTtlS n).1.map (·.eventId) =
      ((m.rows.filter Memory.Row.isPending).take n).map Memory.Row.eventId := List.map_map ..
  constructor
  · rw [hmemory, ← hids, List.map_map]
    rfl
  · refine Table.rel_update h (fun r r' hr => ?_) (Memory.claim_eventId (now + lockTtlS))
      (Pg.claim_eventId now) fun r r' hr _ => ?_
    · rw [hids, hr.eventId]
      rfl
    · exact ⟨hr.eventId, hr.createdAt, rfl, fun _ => ⟨now, rfl, rfl⟩⟩

theorem stale_eq {r : Memory.Row δ} {r' : Pg.Row δ} (h : Match lockTtlS r r') (now : Datetime) :
    Pg.Row.stale (now - lockTtlS) r' = Memory.Row.stale now r := by
  rw [Pg.Row.stale, Memory.Row.stale, h.status]
  by_cases hst : r.status = .claimed
  · obtain ⟨t, ht, he⟩ := h.lease hst
    simp only [ht, he, Option.any_some, hst, lt_sub_iff_add_lt]
  · simp [hst]

theorem reclaim_agree (h : Related lockTtlS m p) (now : Datetime) :
    (Memory.reclaimStale m now).1 = (Pg.reclaimStale lockTtlS p now).1 ∧
      Related lockTtlS (Memory.reclaimStale m now).2 (Pg.reclaimStale lockTtlS p now).2 := by
  constructor
  · refine (List.rel_filter (fun r r' hr => ?_) h).length_eq
    simp only [stale_eq hr now]
  · refine Table.rel_update h (fun r r' hr => stale_eq hr now) Memory.reclaim_eventId
      Pg.reclaim_eventId fun r r' hr _ => ?_
    exact ⟨hr.eventId, hr.createdAt, rfl, fun hclaimed => by cases hclaimed⟩

theorem events_update (s : Memory.MemoryEventStore δ) (c : Memory.Row δ → Bool)
    (f : Memory.Row δ → Memory.Row δ) (hf : ∀ row, (f row).eventId = row.eventId)
    (hevent : ∀ row, (f row).event = row.event) : events (s.update c f hf) = events s := by
  apply Table.eq_of_rows
  simp only [events, Table.update, List.map_map]
  apply List.map_congr_left
  intro row _
  simp only [Function.comp_apply]
  split
  · exact hevent row
  · rfl

/-! ## One step -/

theorem events_memoryCall (s : Memory.MemoryEventStore δ) (op : Op δ) :
    events (memoryCall lockTtlS s op).2 = (events s).insertMany op.appended := by
  cases op with
  | append clock e => exact events_appendMany s [e]
  | appendMany es => exact events_appendMany s _
  | claimEvents now n scan => exact events_update s _ _ (Memory.claim_eventId _) fun _ => rfl
  | ack ids => exact events_update s _ _ (Memory.close_eventId _) fun _ => rfl
  | markFailed id error => exact events_update s _ _ (Memory.close_eventId _) fun _ => rfl
  | reclaimStale now => exact events_update s _ _ Memory.reclaim_eventId fun _ => rfl

/-- **Step lemma.** -/
theorem step_agree {jsonb : δ → Option δ} {w : Pair δ} {op : Op δ} {y : Answer × Pg.PgEventStore δ}
    (h : Related lockTtlS w.memory w.pg)
    (hc : Chronological (events (memoryCall lockTtlS w.memory op).2))
    (ha : Accepted jsonb w op) (hy : pgCall jsonb lockTtlS w.pg op = some y) :
    (memoryCall lockTtlS w.memory op).1 = y.1 ∧
      Related lockTtlS (memoryCall lockTtlS w.memory op).2 y.2 := by
  cases op with
  | append clock e =>
    cases hy
    rw [pg_append_eq]
    have haccepted : (∀ x ∈ [(clock, e)], (Pg.textsFit x.2 && (jsonb x.2.data).isSome) = true) ∨
        ∀ e' ∈ [e], (w.memory.find? e'.eventId).isSome = true :=
      ha.imp List.forall_mem_singleton.mpr known_of_moot
    have hrel := @related_appendMany _ _ _ _ jsonb [(clock, e)] h hc haccepted
    exact ⟨rfl, hrel⟩
  | appendMany es =>
    cases hy
    exact ⟨rfl, related_appendMany h hc (ha.imp List.all_eq_true.mp known_of_moot)⟩
  | claimEvents now n scan =>
    have hlimit : fitsBigint n = true := ha.resolve_right Bool.false_ne_true
    rw [pgCall, if_pos hlimit] at hy
    obtain ⟨⟨es, p'⟩, hp, hy⟩ := Option.map_eq_some_iff.mp hy
    cases hy
    rw [events_memoryCall] at hc
    obtain ⟨hids, hrel⟩ := claim_agree h hc hp
    exact ⟨congrArg Answer.ids hids, hrel⟩
  | ack ids =>
    cases hy
    refine ⟨rfl, ?_⟩
    by_cases htexts : ids.all fitsText = true
    · rw [Pg.ack, if_pos htexts]
      exact related_close h (fun id => decide (id ∈ ids)) (by simp) Pg.ack_eventId
        fun _ => ⟨rfl, rfl⟩
    · have hmoot := ha.resolve_left htexts
      rw [Pg.ack, if_neg htexts, Option.getD_none]
      change Related lockTtlS (Memory.ack w.memory ids) w.pg
      have hunknown : ∀ id ∈ ids, (w.memory.find? id).isNone = true := List.all_eq_true.mp hmoot
      rw [Memory.ack, close_unknown hunknown]
      exact h
  | markFailed id error =>
    cases hy
    refine ⟨rfl, ?_⟩
    by_cases htexts : (fitsText id && fitsText error) = true
    · rw [Pg.markFailed, if_pos htexts]
      exact related_close h (fun k => decide (k = id)) (by simp) (Pg.fail_eventId error)
        fun _ => ⟨rfl, rfl⟩
    · have hmoot := ha.resolve_left htexts
      rw [Pg.markFailed, if_neg htexts, Option.getD_none]
      change Related lockTtlS (Memory.markFailed w.memory id error) w.pg
      have hunknown : ∀ k ∈ [id], (w.memory.find? k).isNone = true := List.all_eq_true.mp hmoot
      have hsame := close_unknown hunknown .failed
      simp only [List.mem_singleton] at hsame
      exact (congrArg (Related lockTtlS · w.pg) hsame).mpr h
  | reclaimStale now =>
    cases hy
    obtain ⟨hcount, hrel⟩ := reclaim_agree h now
    exact ⟨congrArg Answer.count hcount, hrel⟩

/-! ## Runs -/

theorem agree_from {jsonb : δ → Option δ} {ops : List (Op δ)} {w : Pair δ}
    (h : Related lockTtlS w.memory w.pg)
    (hc : Chronological ((events w.memory).insertMany (ops.flatMap Op.appended)))
    (ha : Along (step jsonb lockTtlS) (Accepted jsonb) w ops) :
    Along (step jsonb lockTtlS) (Agree jsonb lockTtlS) w ops := by
  induction ops generalizing w with
  | nil => trivial
  | cons op ops ih =>
    rw [List.flatMap_cons, Table.insertMany_append, ← @events_memoryCall _ lockTtlS] at hc
    have hop : Chronological (events (memoryCall lockTtlS w.memory op).2) :=
      hc.of_front (Table.front_insertMany _ _)
    obtain ⟨haccepted, hrest⟩ := ha
    constructor
    · intro y hy
      obtain ⟨hanswer, hrel⟩ := step_agree h hop haccepted hy
      exact ⟨hanswer, status_eq hrel⟩
    · intro w' hw'
      have haccepted' := hrest w' hw'
      obtain ⟨y, hy, rfl⟩ := Option.map_eq_some_iff.mp hw'
      exact ih (step_agree h hop haccepted hy).2 hc haccepted'

/-- **The stores agree.** Over every sequence of calls whose first appends come in order of
`created_at`, and in which Postgres refuses no claim, no call that brings a new event and
none that names a stored one: every claim returns the same ids in one order, every reclaim
the same count, and after every call each id has one status in both stores. -/
theorem stores_agree (jsonb : δ → Option δ) (lockTtlS : Nat) (ops : List (Op δ))
    (hc : Chronological (firstAppends ops))
    (ha : Along (step jsonb lockTtlS) (Accepted jsonb) (init δ) ops) :
    Along (step jsonb lockTtlS) (Agree jsonb lockTtlS) (init δ) ops :=
  agree_from .nil hc ha

/-- A payload of JSON text, or one that `json.dumps` raises for. -/
inductive ExampleData where
  | json (text : String)
  | object
  deriving DecidableEq

def exampleJsonb : ExampleData → Option ExampleData
  | .json text => some (.json text)
  | .object => none

def exampleEvent (id : EventId) (createdAt : Datetime) (data : ExampleData) :
    IncomingEvent ExampleData where
  eventId := id
  event := "task.created"
  data := data
  createdAt := some createdAt

/-- A lease that is reclaimed only after its last instant, a late ack, and a failure that
Postgres refuses, of an event that is not there. -/
def exampleCalls : List (Op ExampleData) := [.append 1 (exampleEvent "a" 1 (.json "1")),
  .appendMany [(2, exampleEvent "b" 2 (.json "2")), (2, exampleEvent "a" 9 (.json "3"))],
  .claimEvents 10 1 ["b", "a"], .reclaimStale 40, .reclaimStale 41, .claimEvents 41 5 ["b", "a"],
  .ack ["a"], .markFailed "a" "late", .markFailed "c" "\x00", .reclaimStale 90]

theorem stores_agree_example :
    Along (step exampleJsonb 30) (Agree exampleJsonb 30) (init ExampleData) exampleCalls :=
  stores_agree exampleJsonb 30 exampleCalls ⟨[1, 2], by decide +kernel, by decide +kernel⟩
    (by decide +kernel)

def acceptedAppend : Op ExampleData := .append 1 (exampleEvent "a" 1 (.json "1"))

/-- A batch in which a repeated event has a payload that JSON does not know. -/
def refusedBatch : Op ExampleData :=
  .appendMany [(2, exampleEvent "a" 1 .object), (2, exampleEvent "b" 2 (.json "2"))]

/-- Postgres loses the new event of such a batch, the in-memory store keeps it. -/
theorem refused_batch_differs :
    Chronological (firstAppends ([acceptedAppend] ++ [refusedBatch])) ∧
    ¬ Along (step exampleJsonb 30) (Agree exampleJsonb 30) (init ExampleData)
      ([acceptedAppend] ++ [refusedBatch]) := by
  refine ⟨⟨[1, 2], by decide +kernel, by decide +kernel⟩, fun h => ?_⟩
  obtain ⟨w, hw, hdiffer⟩ := (Option.any_eq_true ..).mp (by decide +kernel :
    (run (step exampleJsonb 30) (init ExampleData) [acceptedAppend]).any (fun w =>
      (pgCall exampleJsonb 30 w.pg refusedBatch).any fun y =>
        ((memoryCall 30 w.memory refusedBatch).2.find? "b").map (·.status) ≠
          (y.2.find? "b").map (·.status)) = true)
  obtain ⟨y, hy, hdiffer⟩ := (Option.any_eq_true ..).mp hdiffer
  have hagree := along_at h hw
  exact of_decide_eq_true hdiffer ((hagree y hy).2 "b")

end WebhookEngine.Ingest.Agreement
