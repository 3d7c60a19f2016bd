import WebhookEngine.Ingest.Memory
import WebhookEngine.Lib.Run

/-!
# How often an event is handed out

Runs of the methods of `MemoryEventStore` in any order, with the late acks and failures of
ingestors that have lost their lease. Beside the store goes a history: for each id, the
claims that returned it and the reclaims that took it back.

* `step_moves`: what one call does to a row and to its history;
* `handed_out_once_per_lease`: a second hand-out takes a reclaim, a reclaim takes an
  expired lease, and DONE and FAILED end it.
-/

namespace WebhookEngine.Ingest.HandOuts

open Lib Lib.Run Events Memory

variable {δ : Type}

/-! ## Runs -/

inductive Op (δ : Type) where
  | append (event : IncomingEvent δ)
  | appendMany (events : List (IncomingEvent δ))
  | claimEvents (now : Datetime) (leaseTtlS batchSize : Nat)
  | ack (ids : List EventId)
  | markFailed (id : EventId) (error : String)
  | reclaimStale (now : Datetime)

inductive Deed where
  /-- `claim_events` returned the event, with a lease until then. -/
  | handedOut (leaseUntil : Datetime)
  /-- `reclaim_stale` took it back at this time. -/
  | returned (now : Datetime)
  deriving DecidableEq

/-- The store and the history of each id, the last deed first. -/
structure World (δ : Type) where
  store : MemoryEventStore δ
  history : EventId → List Deed

def init (δ : Type) : World δ := ⟨.empty, fun _ => []⟩

/-- Every id of the list has done `d`. -/
def World.record (w : World δ) (ids : List EventId) (d : Deed) (id : EventId) : List Deed :=
  List.replicate (ids.count id) d ++ w.history id

def step (w : World δ) : Op δ → Option (World δ)
  | .append e => some { w with store := append w.store e }
  | .appendMany es => some { w with store := appendMany w.store es }
  | .claimEvents now ttl n =>
    let (events, s) := claimEvents w.store now ttl n
    some ⟨s, w.record (events.map (·.eventId)) (.handedOut (now + ttl))⟩
  | .ack ids => some { w with store := ack w.store ids }
  | .markFailed id error => some { w with store := markFailed w.store id error }
  | .reclaimStale now =>
    let stale := (w.store.rows.filter (Row.stale now)).map Row.eventId
    some ⟨(reclaimStale w.store now).2, w.record stale (.returned now)⟩

def handOuts (h : List Deed) : Nat := h.countP fun d => d matches .handedOut _

def returns (h : List Deed) : Nat := h.countP fun d => d matches .returned _

/-- The lease of the last hand-out. -/
def lastLease : List Deed → Option Datetime
  | [] => none
  | .handedOut leaseUntil :: _ => some leaseUntil
  | .returned _ :: h => lastLease h

/-- Every reclaim of a history came after the end of the lease it ended. -/
def LeasesExpired : List Deed → Prop
  | [] => True
  | .handedOut _ :: h => LeasesExpired h
  | .returned now :: h => (∃ leaseUntil, lastLease h = some leaseUntil ∧ leaseUntil < now) ∧
      LeasesExpired h

/-! ## One step -/

/-- What one call does to the row of an id and to its history. -/
inductive Moves : Option (Row δ) → List Deed → Option (Row δ) → List Deed → Prop where
  | kept (v : Option (Row δ)) (h : List Deed) : Moves v h v h
  | appended (e : IncomingEvent δ) (h : List Deed) : Moves none h (some { event := e }) h
  | claimed (row : Row δ) (leaseUntil : Datetime) (h : List Deed) (hp : row.status = .pending) :
      Moves (some row) h (some (row.claim leaseUntil)) (.handedOut leaseUntil :: h)
  | closed (row : Row δ) (status : EventIngestStatus) (h : List Deed)
      (hs : status.closed = true) : Moves (some row) h (some (row.close status)) h
  | returned (row : Row δ) (now : Datetime) (h : List Deed) (hs : row.stale now = true) :
      Moves (some row) h (some row.reclaim) (.returned now :: h)

theorem appendMany_eq (s : MemoryEventStore δ) (es : List (IncomingEvent δ)) :
    appendMany s es = s.insertMany (es.map fun e => { event := e }) := by
  induction es generalizing s with
  | nil => rfl
  | cons e es ih => exact ih (append s e)

theorem moves_appendMany (s : MemoryEventStore δ) (es : List (IncomingEvent δ)) (id : EventId)
    (h : List Deed) : Moves (s.find? id) h ((appendMany s es).find? id) h := by
  rw [appendMany_eq, Table.find?_insertMany]
  cases s.find? id with
  | some row =>
    rw [Option.some_or]
    exact .kept _ h
  | none =>
    rw [Option.none_or, List.find?_map]
    cases es.find? ((fun row : Row δ => decide (row.eventId = id)) ∘ fun e => { event := e }) with
    | none => exact .kept none h
    | some e => exact .appended e h

theorem record_of_not_mem (w : World δ) {ids : List EventId} {id : EventId} (h : id ∉ ids)
    (d : Deed) : w.record ids d id = w.history id := by
  rw [World.record, List.count_eq_zero_of_not_mem h]
  rfl

theorem record_of_mem (w : World δ) {ids : List EventId} {id : EventId} (hn : ids.Nodup)
    (h : id ∈ ids) (d : Deed) : w.record ids d id = d :: w.history id := by
  rw [World.record, List.count_eq_one_of_mem hn h]
  rfl

theorem moves_close {status : EventIngestStatus} (hs : status.closed = true) (v : Option (Row δ))
    (c : Prop) [Decidable c] (h : List Deed) :
    Moves v h (if c then v.map (Row.close status) else v) h := by
  split
  · cases v with
    | none => exact .kept none h
    | some row => exact .closed row status h hs
  · exact .kept v h

theorem moves_claim (w : World δ) (now : Datetime) (ttl n : Nat) (id : EventId) :
    Moves (w.store.find? id) (w.history id) ((claimEvents w.store now ttl n).2.find? id)
      (w.record ((claimEvents w.store now ttl n).1.map (·.eventId))
        (.handedOut (now + ttl)) id) := by
  have hids : (claimEvents w.store now ttl n).1.map (·.eventId) =
      (claimable w.store n).map Row.eventId := List.map_map ..
  have hfind : (claimEvents w.store now ttl n).2.find? id =
      if decide (id ∈ (claimable w.store n).map Row.eventId) = true then
        (w.store.find? id).map (Row.claim (now + ttl))
      else w.store.find? id :=
    Table.find?_update_key w.store (fun k => decide (k ∈ (claimable w.store n).map Row.eventId))
      (Row.claim (now + ttl)) (claim_eventId _) id
  rw [hids, hfind]
  by_cases hid : id ∈ (claimable w.store n).map Row.eventId
  · obtain ⟨row, hrow, rfl⟩ := List.mem_map.mp hid
    obtain ⟨hrow, hpending⟩ := mem_claimable hrow
    rw [record_of_mem w (nodup_claimable w.store n) hid, if_pos (decide_eq_true hid), hrow]
    exact .claimed row (now + ttl) _ hpending
  · rw [record_of_not_mem w hid, if_neg (by simpa using hid)]
    exact .kept _ _

theorem moves_reclaim (w : World δ) (now : Datetime) (id : EventId) :
    Moves (w.store.find? id) (w.history id) ((reclaimStale w.store now).2.find? id)
      (w.record ((w.store.rows.filter (Row.stale now)).map Row.eventId) (.returned now) id) := by
  have hids := Table.mem_keys_filter (t := w.store) (p := Row.stale now) (k := id)
  rw [reclaimStale, Table.find?_update]
  cases hrow : w.store.find? id with
  | none =>
    rw [hrow] at hids
    rw [record_of_not_mem w fun hm => by cases hids.mp hm]
    exact .kept none _
  | some row =>
    rw [hrow, Option.any_some] at hids
    by_cases hstale : row.stale now = true
    · have hm := hids.mpr hstale
      rw [record_of_mem w (w.store.nodup_keys_filter _) hm, Option.map_some, if_pos hstale]
      exact .returned row now _ hstale
    · rw [record_of_not_mem w fun hm => hstale (hids.mp hm), Option.map_some, if_neg hstale]
      exact .kept _ _

/-- **Step lemma.** -/
theorem step_moves {w w' : World δ} {op : Op δ} (h : step w op = some w') (id : EventId) :
    Moves (w.store.find? id) (w.history id) (w'.store.find? id) (w'.history id) := by
  cases op with
  | append e =>
    cases h
    exact moves_appendMany w.store [e] id _
  | appendMany es =>
    cases h
    exact moves_appendMany w.store es id _
  | claimEvents now ttl n =>
    cases h
    exact moves_claim w now ttl n id
  | ack ids =>
    cases h
    have hfind : (ack w.store ids).find? id = if decide (id ∈ ids) = true then
        (w.store.find? id).map (Row.close .done) else w.store.find? id :=
      Table.find?_update_key w.store (fun k => decide (k ∈ ids)) (Row.close .done)
        (close_eventId _) id
    rw [hfind]
    exact moves_close rfl _ _ _
  | markFailed id' error =>
    cases h
    have hfind : (markFailed w.store id' error).find? id = if id = id' then
        (w.store.find? id).map (Row.close .failed) else w.store.find? id :=
      Table.find?_modify w.store id' id (Row.close .failed) (close_eventId _)
    rw [hfind]
    exact moves_close rfl _ _ _
  | reclaimStale now =>
    cases h
    exact moves_reclaim w now id

/-! ## The invariant -/

/-- How a status goes with the history of its row. -/
def Balanced : Option (Row δ) → List Deed → Prop
  | none, h => h = []
  | some row, h =>
    match row.status with
    | .pending => handOuts h = returns h
    | .claimed => handOuts h = returns h + 1 ∧ row.leaseUntil = lastLease h
    | .done | .failed => handOuts h ≤ returns h + 1

structure Fit (v : Option (Row δ)) (h : List Deed) : Prop where
  balanced : Balanced v h
  leases : LeasesExpired h

theorem handOuts_handedOut (e : Datetime) (h : List Deed) :
    handOuts (.handedOut e :: h) = handOuts h + 1 ∧ returns (.handedOut e :: h) = returns h := by
  simp [handOuts, returns]

theorem handOuts_returned (now : Datetime) (h : List Deed) :
    handOuts (.returned now :: h) = handOuts h ∧ returns (.returned now :: h) = returns h + 1 := by
  simp [handOuts, returns]

theorem handOuts_le {v : Option (Row δ)} {h : List Deed} (hb : Balanced v h) :
    handOuts h ≤ returns h + 1 := by
  cases v with
  | none =>
    obtain rfl : h = [] := hb
    exact Nat.zero_le _
  | some row =>
    rw [Balanced] at hb
    split at hb
    · omega
    · omega
    · exact hb
    · exact hb

theorem fit_moves {v v' : Option (Row δ)} {h h' : List Deed} (hm : Moves v h v' h')
    (hf : Fit v h) : Fit v' h' := by
  obtain ⟨hb, hl⟩ := hf
  cases hm with
  | kept => exact ⟨hb, hl⟩
  | appended e =>
    obtain rfl : h = [] := hb
    exact ⟨rfl, hl⟩
  | claimed row leaseUntil h hp =>
    rw [Balanced, hp] at hb
    obtain ⟨ho, hr⟩ := handOuts_handedOut leaseUntil h
    refine ⟨⟨?_, rfl⟩, hl⟩
    rw [ho, hr, hb]
  | closed row status h hs =>
    have hle := handOuts_le hb
    refine ⟨?_, hl⟩
    cases status with
    | done => exact hle
    | failed => exact hle
    | pending => cases hs
    | claimed => cases hs
  | returned row now h hs =>
    obtain ⟨hclaimed, hexpired⟩ := (Bool.and_eq_true _ _ ▸ hs :)
    rw [Balanced, of_decide_eq_true hclaimed] at hb
    obtain ⟨hcount, hlease⟩ := hb
    obtain ⟨e, he, hlt⟩ := (Option.any_eq_true ..).mp hexpired
    obtain ⟨ho, hr⟩ := handOuts_returned now h
    have hpending : row.reclaim.status = .pending := rfl
    refine ⟨?_, ⟨e, hlease.symm.trans he, of_decide_eq_true hlt⟩, hl⟩
    rw [Balanced, hpending]
    exact ho.trans (hcount.trans hr.symm)

/-- What is DONE or FAILED stays so, and is not handed out. -/
theorem closed_moves {v v' : Option (Row δ)} {h h' : List Deed} (hm : Moves v h v' h')
    (hc : v.any (·.status.closed) = true) :
    v'.any (·.status.closed) = true ∧ handOuts h' = handOuts h := by
  cases hm with
  | kept => exact ⟨hc, rfl⟩
  | appended e => cases hc
  | claimed row leaseUntil h hp =>
    rw [Option.any_some, hp] at hc
    cases hc
  | closed row status h hs => exact ⟨hs, rfl⟩
  | returned row now h hs =>
    have hclaimed := of_decide_eq_true (Bool.and_eq_true _ _ ▸ hs :).1
    rw [Option.any_some, hclaimed] at hc
    cases hc

/-! ## Runs -/

theorem fit_run {as : List (Op δ)} {w : World δ} (h : run step (init δ) as = some w)
    (id : EventId) : Fit (w.store.find? id) (w.history id) := by
  have hinit : Fit ((init δ).store.find? id) ((init δ).history id) := ⟨rfl, trivial⟩
  exact run_invariant (I := fun w => Fit (w.store.find? id) (w.history id))
    (fun w op w' hf hstep => fit_moves (step_moves hstep id) hf) hinit h

theorem closed_run {w w' : World δ} {bs : List (Op δ)} (h : run step w bs = some w') {id : EventId}
    (hc : (w.store.find? id).any (·.status.closed) = true) :
    handOuts (w'.history id) = handOuts (w.history id) := by
  have hinv := run_invariant (I := fun u => (u.store.find? id).any (·.status.closed) = true ∧
      handOuts (u.history id) = handOuts (w.history id)) (fun u op v hu hv => ?_) ⟨hc, rfl⟩ h
  · exact hinv.2
  · obtain ⟨hclosed, hsame⟩ := closed_moves (step_moves hv id) hu.1
    exact ⟨hclosed, hsame.trans hu.2⟩

/-- **One hand-out for each lease.** In every state that a run of the store's methods
reaches: an append of a known id leaves the store as it is; an event has been handed out at
most once more than it was taken back, and each time it was taken back its lease was over; a
DONE or FAILED event is not handed out in any continuation of the run. -/
theorem handed_out_once_per_lease (as : List (Op δ)) (w : World δ)
    (h : run step (init δ) as = some w) :
    (∀ e : IncomingEvent δ, (w.store.find? e.eventId).isSome = true → append w.store e = w.store) ∧
    (∀ id, handOuts (w.history id) ≤ returns (w.history id) + 1) ∧
    (∀ id, LeasesExpired (w.history id)) ∧
    ∀ id bs w', (w.store.find? id).any (·.status.closed) = true → run step w bs = some w' →
      handOuts (w'.history id) = handOuts (w.history id) :=
  ⟨fun _ => append_known, fun id => handOuts_le (fit_run h id).balanced,
    fun id => (fit_run h id).leases, fun _ _ _ hc hrun => closed_run hrun hc⟩

def exampleEvent : IncomingEvent Unit where
  eventId := "e"
  event := "task.created"
  data := ()

/-- A stalled ingestor acks the event after its lease went to a second one. -/
def lateAck : List (Op Unit) := [.append exampleEvent, .claimEvents 0 30 10, .reclaimStale 31,
  .appendMany [exampleEvent, exampleEvent], .claimEvents 31 30 10, .ack ["e"], .reclaimStale 62,
  .markFailed "e" "late", .claimEvents 63 30 10]

theorem handed_out_once_per_lease_late_ack : ∃ w, run step (init Unit) lateAck = some w ∧
    handOuts (w.history "e") = 2 ∧
    (∀ e : IncomingEvent Unit, (w.store.find? e.eventId).isSome = true →
      append w.store e = w.store) ∧
    (∀ id, handOuts (w.history id) ≤ returns (w.history id) + 1) ∧
    (∀ id, LeasesExpired (w.history id)) ∧
    ∀ id bs w', (w.store.find? id).any (·.status.closed) = true → run step w bs = some w' →
      handOuts (w'.history id) = handOuts (w.history id) := by
  obtain ⟨w, hw, hcount⟩ := (Option.any_eq_true ..).mp (by decide +kernel :
    (run step (init Unit) lateAck).any (fun w => handOuts (w.history "e") = 2) = true)
  exact ⟨w, hw, of_decide_eq_true hcount, handed_out_once_per_lease lateAck w hw⟩

end WebhookEngine.Ingest.HandOuts
