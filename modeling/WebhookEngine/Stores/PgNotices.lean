import Mathlib.Data.List.Sort
import WebhookEngine.Lib.RowLocks
import WebhookEngine.Stores.Pg

/-!
# Failure notices of dead deliveries

`dead_unnotified` and `ack_failure_notification` of `PgDeliveryRepo`, in transactions
that record a receipt for each delivery returned. Any number of them interleave with each
other and with `mark_dead`, statement by statement, and the `SELECT .. FOR UPDATE SKIP
LOCKED` row by row: it finds its candidates in a snapshot, then locks each one that is free
and looks at its newest version.

* `accounted_step`: what a commit does to the receipts and to the column;
* `returned_alone`: what the call returns when no other transaction is open;
* `receipts_once`: no receipt is lost or doubled.
-/

namespace WebhookEngine.Stores.PgNotices

open Lib Lib.RowLocks Queue

/-! ## Rows -/

/-- A row with the column `failure_notified_at`. -/
structure NoticeRow extends Pg.Row where
  failureNotifiedAt : Option Datetime
  deriving DecidableEq

def NoticeRow.dead (row : NoticeRow) : Bool := row.record.status = .deadLettered

/-- `status = 'dead_lettered' AND failure_notified_at IS NULL`. -/
def NoticeRow.unnotified (row : NoticeRow) : Bool := row.dead && row.failureNotifiedAt.isNone

def NoticeRow.ack (now : Datetime) (row : NoticeRow) : NoticeRow :=
  { row with failureNotifiedAt := some now }

/-- `mark_dead` names neither the column nor the status it overwrites. -/
def NoticeRow.markDead (a : AttemptRecord) (row : NoticeRow) : NoticeRow :=
  { row with toRow := row.toRow.markDead a }

/-- A deliveries table to which the column has just been added. -/
def noticeRows (table : Table Pg.Row.deliveryId) (id : DeliveryId) : Option NoticeRow :=
  (table.find? id).map fun row => ⟨row, none⟩

/-! ## The transactions -/

inductive Call where
  | notify (limit : Nat)
  | markDead (id : DeliveryId) (attempt : AttemptRecord)
  deriving DecidableEq

inductive Stage where
  | running
  /-- Candidates still to be visited, and what has been locked and found unnotified. -/
  | selecting (rest returned : List DeliveryId)
  | notifying (returned receipts acked : List DeliveryId)
  | done
  deriving DecidableEq

structure Prog where
  call : Call
  stage : Stage
  deriving DecidableEq

inductive Statement where
  | snapshot
  | lock
  | skip
  | answer
  | receipt (id : DeliveryId)
  | ack (id : DeliveryId) (now : Datetime)
  | update

def createdAt (rows : DeliveryId → Option NoticeRow) (id : DeliveryId) : Datetime :=
  ((rows id).map (·.record.createdAt)).getD 0

/-- The rows the `WHERE` finds, `ORDER BY created_at, delivery_id`. -/
def candidates (ids : List DeliveryId) (rows : DeliveryId → Option NoticeRow) : List DeliveryId :=
  (ids.filter fun id => (rows id).any NoticeRow.unnotified).insertionSort fun id id' =>
    createdAt rows id < createdAt rows id' ∨ createdAt rows id = createdAt rows id' ∧ id ≤ id'

/-- The row an `UPDATE .. WHERE delivery_id = :id` with one more condition hits. -/
def written (rows : DeliveryId → Option NoticeRow) (p : NoticeRow → Bool)
    (f : NoticeRow → NoticeRow) (id : DeliveryId) : List (DeliveryId × NoticeRow) :=
  (((rows id).filter p).map fun row => (id, f row)).toList

def statement (ids : List DeliveryId) :
    Prog → Statement → (DeliveryId → Option NoticeRow) → Option (Effect DeliveryId NoticeRow Prog)
  | ⟨.notify limit, .running⟩, .snapshot, rows =>
    some { next := ⟨.notify limit, .selecting (candidates ids rows) []⟩ }
  | ⟨.notify limit, .selecting (id :: rest) returned⟩, .lock, rows =>
    if returned.length < limit then
      -- the condition is checked again on the version that was locked
      let returned' := if (rows id).any NoticeRow.unnotified then returned ++ [id] else returned
      some { locks := [id], next := ⟨.notify limit, .selecting rest returned'⟩ }
    else none
  | ⟨.notify limit, .selecting (_ :: rest) returned⟩, .skip, _ =>
    if returned.length < limit then
      some { next := ⟨.notify limit, .selecting rest returned⟩ }
    else none
  | ⟨.notify limit, .selecting rest returned⟩, .answer, _ =>
    if rest = [] ∨ limit ≤ returned.length then
      some { next := ⟨.notify limit, .notifying returned [] []⟩ }
    else none
  | ⟨.notify limit, .notifying returned receipts acked⟩, .receipt id, _ =>
    if id ∈ returned ∧ id ∉ receipts then
      some { next := ⟨.notify limit, .notifying returned (id :: receipts) acked⟩ }
    else none
  | ⟨.notify limit, .notifying returned receipts acked⟩, .ack id now, rows =>
    if id ∈ returned ∧ id ∉ acked then
      some
        { writes := written rows NoticeRow.dead (NoticeRow.ack now) id
          next := ⟨.notify limit, .notifying returned receipts (id :: acked)⟩ }
    else none
  | ⟨.markDead id a, .running⟩, .update, rows =>
    some
      { writes := written rows (fun _ => true) (NoticeRow.markDead a) id
        next := ⟨.markDead id a, .done⟩ }
  | _, _, _ => none

def Stage.isRunning : Stage → Bool
  | .running => true
  | _ => false

/-- Everything returned has its receipt and is acknowledged, or `mark_dead` is done. -/
def Stage.isComplete : Stage → Bool
  | .notifying returned receipts acked =>
    returned.all fun id => decide (id ∈ receipts) && decide (id ∈ acked)
  | .done => true
  | _ => false

/-- `ids` are the keys of the table. -/
def noticeProgram (ids : List DeliveryId) : Program DeliveryId NoticeRow Prog Statement where
  initial prog := prog.stage.isRunning
  statement := statement ids
  complete prog := prog.stage.isComplete

variable {τ : Type} [DecidableEq τ]

abbrev NoticeState (τ : Type) := RowLocks.State DeliveryId NoticeRow τ Prog

abbrev NoticeLabel (τ : Type) := RowLocks.Label τ Prog Statement

/-- `SKIP LOCKED`: a candidate is skipped only while another transaction holds it. -/
def skipsLocked (s : NoticeState τ) : NoticeLabel τ → Bool
  | .exec t .skip =>
    match s.tx t with
    | .active ⟨_, .selecting (id :: _) _⟩ _ => !free s.owner t id
    | _ => false
  | _ => true

def noticeStep (ids : List DeliveryId) (s : NoticeState τ) (l : NoticeLabel τ) :
    Option (NoticeState τ) :=
  if skipsLocked s l then step (noticeProgram ids) s l else none

/-! ## What a transaction knows of its rows -/

def Prog.returned : Prog → List DeliveryId
  | ⟨_, .selecting _ returned⟩ | ⟨_, .notifying returned _ _⟩ => returned
  | _ => []

def Prog.receipts : Prog → List DeliveryId
  | ⟨_, .notifying _ receipts _⟩ => receipts
  | _ => []

def Prog.acked : Prog → List DeliveryId
  | ⟨_, .notifying _ _ acked⟩ => acked
  | _ => []

abbrev Writes := List (DeliveryId × NoticeRow)

/-- `row'` is what the transaction writes over the version `row`. -/
def Wrote (id : DeliveryId) (row row' : NoticeRow) (prog : Prog) : Prop :=
  match prog.call with
  | .notify _ => id ∈ prog.returned ∧ ∃ now, row' = row.ack now
  | .markDead _ a => row' = row.markDead a

def concerned (prog : Prog) (writes : Writes) (id : DeliveryId) : Prop :=
  id ∈ writes.map (·.1) ∨ id ∈ prog.returned

/-- The newest version of a row the transaction holds: what it has written was computed
from it, what was returned is unnotified in it; and what is acknowledged was written. -/
structure Facts (prog : Prog) (writes : Writes) (id : DeliveryId) (row : Option NoticeRow) :
    Prop where
  wrote : ∀ row', (id, row') ∈ writes → ∃ r, row = some r ∧ Wrote id r row' prog
  returned : id ∈ prog.returned → ∃ r, row = some r ∧ r.unnotified = true
  acked : id ∈ prog.returned → id ∈ prog.acked → id ∈ writes.map (·.1)

/-- What a statement can do. -/
inductive Executes (ids : List DeliveryId) (rows : DeliveryId → Option NoticeRow) :
    Prog → Statement → Effect DeliveryId NoticeRow Prog → Prop where
  | snapshot (limit : Nat) :
      Executes ids rows ⟨.notify limit, .running⟩ .snapshot
        { next := ⟨.notify limit, .selecting (candidates ids rows) []⟩ }
  | lock (limit : Nat) (id : DeliveryId) (rest returned returned' : List DeliveryId)
      (hlimit : returned.length < limit)
      (hreturned : returned' =
        if (rows id).any NoticeRow.unnotified then returned ++ [id] else returned) :
      Executes ids rows ⟨.notify limit, .selecting (id :: rest) returned⟩ .lock
        { locks := [id], next := ⟨.notify limit, .selecting rest returned'⟩ }
  | skip (limit : Nat) (id : DeliveryId) (rest returned : List DeliveryId)
      (hlimit : returned.length < limit) :
      Executes ids rows ⟨.notify limit, .selecting (id :: rest) returned⟩ .skip
        { next := ⟨.notify limit, .selecting rest returned⟩ }
  | answer (limit : Nat) (rest returned : List DeliveryId)
      (hend : rest = [] ∨ limit ≤ returned.length) :
      Executes ids rows ⟨.notify limit, .selecting rest returned⟩ .answer
        { next := ⟨.notify limit, .notifying returned [] []⟩ }
  | receipt (limit : Nat) (id : DeliveryId) (returned receipts acked : List DeliveryId)
      (hid : id ∈ returned) (hnew : id ∉ receipts) :
      Executes ids rows ⟨.notify limit, .notifying returned receipts acked⟩ (.receipt id)
        { next := ⟨.notify limit, .notifying returned (id :: receipts) acked⟩ }
  | ack (limit : Nat) (id : DeliveryId) (now : Datetime) (returned receipts acked : List DeliveryId)
      (hid : id ∈ returned) :
      Executes ids rows ⟨.notify limit, .notifying returned receipts acked⟩ (.ack id now)
        { writes := written rows NoticeRow.dead (NoticeRow.ack now) id
          next := ⟨.notify limit, .notifying returned receipts (id :: acked)⟩ }
  | update (id : DeliveryId) (a : AttemptRecord) :
      Executes ids rows ⟨.markDead id a, .running⟩ .update
        { writes := written rows (fun _ => true) (NoticeRow.markDead a) id
          next := ⟨.markDead id a, .done⟩ }

theorem executes {ids : List DeliveryId} {prog : Prog} {st : Statement}
    {rows : DeliveryId → Option NoticeRow} {e : Effect DeliveryId NoticeRow Prog}
    (h : statement ids prog st rows = some e) : Executes ids rows prog st e := by
  rw [statement.eq_def] at h
  split at h
  · cases h
    exact .snapshot _
  · obtain ⟨hlimit, h⟩ := Option.ite_none_right_eq_some.mp h
    cases h
    exact .lock _ _ _ _ _ hlimit rfl
  · obtain ⟨hlimit, h⟩ := Option.ite_none_right_eq_some.mp h
    cases h
    exact .skip _ _ _ _ hlimit
  · obtain ⟨hend, h⟩ := Option.ite_none_right_eq_some.mp h
    cases h
    exact .answer _ _ _ hend
  · obtain ⟨⟨hid, hnew⟩, h⟩ := Option.ite_none_right_eq_some.mp h
    cases h
    exact .receipt _ _ _ _ _ hid hnew
  · obtain ⟨⟨hid, -⟩, h⟩ := Option.ite_none_right_eq_some.mp h
    cases h
    exact .ack _ _ _ _ _ _ hid
  · cases h
    exact .update _ _
  · cases h

theorem mem_written {rows : DeliveryId → Option NoticeRow} {p : NoticeRow → Bool}
    {f : NoticeRow → NoticeRow} {id id' : DeliveryId} {row' : NoticeRow} :
    (id', row') ∈ written rows p f id ↔
      id' = id ∧ ∃ r, rows id = some r ∧ p r = true ∧ row' = f r := by
  rw [written, Option.mem_toList, Option.map_eq_some_iff]
  constructor
  · rintro ⟨r, hr, he⟩
    cases he
    obtain ⟨hr, hp⟩ := Option.filter_eq_some_iff.mp hr
    exact ⟨rfl, r, hr, hp, rfl⟩
  · rintro ⟨rfl, r, hr, hp, rfl⟩
    exact ⟨r, Option.filter_eq_some_iff.mpr ⟨hr, hp⟩, rfl⟩

/-- A lock returns the row as well, if it is still unnotified. -/
theorem mem_returned_lock {unnotified : Bool} {returned : List DeliveryId} {id id' : DeliveryId} :
    id ∈ (if unnotified then returned ++ [id'] else returned) ↔
      id ∈ returned ∨ id = id' ∧ unnotified = true := by
  cases unnotified <;> simp

/-- What is known before a statement, and what it sees and writes, is known after it. -/
theorem facts_statement {ids : List DeliveryId} {rows : DeliveryId → Option NoticeRow}
    {prog : Prog} {st : Statement} {e : Effect DeliveryId NoticeRow Prog}
    (h : Executes ids rows prog st e) {writes : Writes} {id : DeliveryId}
    (hold : concerned prog writes id → Facts prog writes id (rows id)) :
    Facts e.next (e.writes ++ writes) id (rows id) := by
  have hwrote : ∀ row', (id, row') ∈ writes → ∃ r, rows id = some r ∧ Wrote id r row' prog :=
    fun row' hrow' => (hold (Or.inl (List.mem_map_of_mem hrow'))).wrote row' hrow'
  have hreturned : id ∈ prog.returned → ∃ r, rows id = some r ∧ r.unnotified = true :=
    fun hid => (hold (Or.inr hid)).returned hid
  have hacked : id ∈ prog.returned → id ∈ prog.acked → id ∈ writes.map (·.1) :=
    fun hid => (hold (Or.inr hid)).acked hid
  cases h with
  | snapshot limit =>
    refine ⟨fun row' hrow' => ?_, fun hid => (by cases hid), fun hid => (by cases hid)⟩
    obtain ⟨r, -, hid, -⟩ := hwrote row' hrow'
    cases hid
  | lock limit id' rest returned returned' hlimit hreturned' =>
    subst hreturned'
    refine ⟨fun row' hrow' => ?_, fun hid => ?_, fun _ hid => (by cases hid)⟩
    · obtain ⟨r, hr, hid, hack⟩ := hwrote row' hrow'
      exact ⟨r, hr, mem_returned_lock.mpr (Or.inl hid), hack⟩
    · rcases mem_returned_lock.mp hid with hid | ⟨rfl, hany⟩
      · exact hreturned hid
      · exact (Option.any_eq_true ..).mp hany
  | skip limit id' rest returned hlimit => exact ⟨hwrote, hreturned, hacked⟩
  | answer limit rest returned hend => exact ⟨hwrote, hreturned, fun _ hid => (by cases hid)⟩
  | receipt limit id' returned receipts acked hid' hnew => exact ⟨hwrote, hreturned, hacked⟩
  | ack limit id' now returned receipts acked hid' =>
    refine ⟨fun row' hrow' => ?_, hreturned, fun hid hack => ?_⟩
    · rcases List.mem_append.mp hrow' with hrow' | hrow'
      · obtain ⟨rfl, r, hr, -, rfl⟩ := mem_written.mp hrow'
        exact ⟨r, hr, hid', now, rfl⟩
      · exact hwrote row' hrow'
    · rw [List.map_append]
      rcases List.mem_cons.mp hack with rfl | hack
      · -- the row is still dead, so that the `UPDATE` hits it
        obtain ⟨r, hr, hunnotified⟩ := hreturned hid
        have hdead : r.dead = true := ((Bool.and_eq_true ..).mp hunnotified).1
        exact List.mem_append_left _
          (List.mem_map_of_mem (mem_written.mpr ⟨rfl, r, hr, hdead, rfl⟩))
      · exact List.mem_append_right _ (hacked hid hack)
  | update id' a =>
    refine ⟨fun row' hrow' => ?_, fun hid => (by cases hid), fun hid => (by cases hid)⟩
    rcases List.mem_append.mp hrow' with hrow' | hrow'
    · obtain ⟨rfl, r, hr, -, rfl⟩ := mem_written.mp hrow'
      exact ⟨r, hr, rfl⟩
    · exact hwrote row' hrow'

theorem noticeProgram_learns (ids : List DeliveryId) :
    Learns (noticeProgram ids) concerned Facts where
  initial prog id hinitial := by
    obtain ⟨call, stage⟩ := prog
    rintro (hid | hid)
    · cases hid
    · cases stage with
      | running => cases hid
      | _ => cases hinitial
  concern prog writes st rows e id h hid := by
    rcases hid with hid | hid
    · rw [List.map_append] at hid
      rcases List.mem_append.mp hid with hid | hid
      · exact Or.inl (List.mem_append_right _ hid)
      · exact Or.inr (Or.inl hid)
    · cases executes h with
      | snapshot limit => cases hid
      | lock limit id' rest returned returned' hlimit hreturned' =>
        subst hreturned'
        rcases mem_returned_lock.mp hid with hid | ⟨rfl, -⟩
        · exact Or.inr (Or.inr hid)
        · exact Or.inl (List.mem_cons_self ..)
      | skip limit id' rest returned hlimit => exact Or.inr (Or.inr hid)
      | answer limit rest returned hend => exact Or.inr (Or.inr hid)
      | receipt limit id' returned receipts acked hid' hnew => exact Or.inr (Or.inr hid)
      | ack limit id' now returned receipts acked hid' => exact Or.inr (Or.inr hid)
      | update id' a => cases hid
  fact prog writes st rows e id h _ hold := facts_statement (executes h) hold

/-- What a transaction records: receipts of what was returned, one for each. -/
structure Formed (prog : Prog) : Prop where
  nodup : prog.receipts.Nodup
  returned : ∀ id ∈ prog.receipts, id ∈ prog.returned
  notifies : ∀ id ∈ prog.returned, ∃ limit, prog.call = .notify limit

theorem formed_statement {ids : List DeliveryId} {prog : Prog} {st : Statement}
    {rows : DeliveryId → Option NoticeRow} {e : Effect DeliveryId NoticeRow Prog}
    (hprog : Formed prog) (h : Executes ids rows prog st e) : Formed e.next := by
  have hselecting : ∀ limit rest returned, Formed ⟨.notify limit, .selecting rest returned⟩ :=
    fun limit _ _ => ⟨List.nodup_nil, fun _ hid => (by cases hid), fun _ _ => ⟨limit, rfl⟩⟩
  cases h with
  | snapshot limit => exact hselecting ..
  | lock limit id rest returned returned' hlimit hreturned' => exact hselecting ..
  | skip limit id rest returned hlimit => exact hselecting ..
  | answer limit rest returned hend =>
    exact ⟨List.nodup_nil, fun _ hid => (by cases hid), fun _ _ => ⟨limit, rfl⟩⟩
  | receipt limit id returned receipts acked hid hnew =>
    refine ⟨List.nodup_cons.mpr ⟨hnew, hprog.nodup⟩, fun id' hid' => ?_, hprog.notifies⟩
    rcases List.mem_cons.mp hid' with rfl | hid'
    · exact hid
    · exact hprog.returned id' hid'
  | ack limit id now returned receipts acked hid =>
    exact ⟨hprog.nodup, hprog.returned, hprog.notifies⟩
  | update id a => exact ⟨List.nodup_nil, fun _ hid => (by cases hid), fun _ hid => (by cases hid)⟩

/-- A transaction that can commit has done all there is to do for what was returned. -/
theorem complete_spec {prog : Prog} (h : prog.stage.isComplete = true) {id : DeliveryId}
    (hid : id ∈ prog.returned) : id ∈ prog.receipts ∧ id ∈ prog.acked := by
  obtain ⟨call, stage⟩ := prog
  cases stage with
  | notifying returned receipts acked =>
    have hall := (Bool.and_eq_true ..).mp (List.all_eq_true.mp h id hid)
    exact ⟨of_decide_eq_true hall.1, of_decide_eq_true hall.2⟩
  | running => cases hid
  | selecting rest returned => cases h
  | done => cases hid

/-! ## Receipts -/

omit [DecidableEq τ] in
/-- What the library says of every reachable state. -/
structure Sound (s : NoticeState τ) : Prop where
  held : Held s
  known : Known concerned Facts s
  formed : ∀ t prog, (s.tx t).prog = some prog → Formed prog
  owners : ∀ k u, s.owner k = some u → (s.tx u).isActive = true

/-- The transaction is committed, with a receipt for the delivery. -/
def Receipted (s : NoticeState τ) (t : τ) (id : DeliveryId) : Prop :=
  ∃ prog, s.tx t = .committed prog ∧ id ∈ prog.receipts

def notified (s : NoticeState τ) (id : DeliveryId) : Bool :=
  (s.rows id).any fun row => row.failureNotifiedAt.isSome

def dead (s : NoticeState τ) (id : DeliveryId) : Bool := (s.rows id).any NoticeRow.dead

/-- Committed receipts and the column agree, and no delivery has two receipts. -/
structure Accounted (s : NoticeState τ) : Prop where
  once : ∀ t u id, Receipted s t id → Receipted s u id → t = u
  distinct : ∀ t prog, s.tx t = .committed prog → prog.receipts.Nodup
  column : ∀ id, notified s id = true ↔ ∃ t, Receipted s t id

/-- Of the steps, only a commit adds receipts: those of its transaction. -/
theorem receipted_step {ids : List DeliveryId} {s s' : NoticeState τ} {l : NoticeLabel τ}
    (h : Moves (noticeProgram ids) s l s') (u : τ) (id : DeliveryId) :
    Receipted s' u id ↔ Receipted s u id ∨
      ∃ prog, l = .commit u ∧ s'.tx u = .committed prog ∧ id ∈ prog.receipts := by
  by_cases hu : u = l.tx
  · subst hu
    constructor
    · rintro ⟨prog, hprog, hid⟩
      exact Or.inr ⟨prog, (committed_of_step h hprog).1, hprog, hid⟩
    · rintro (⟨prog, hprog, hid⟩ | ⟨prog, -, hprog, hid⟩)
      · exact ⟨prog, (finished_step h (by rw [hprog]; rfl)).trans hprog, hid⟩
      · exact ⟨prog, hprog, hid⟩
  · rw [Receipted, tx_of_step h hu]
    refine ⟨Or.inl, ?_⟩
    rintro (hold | ⟨prog, rfl, -⟩)
    · exact hold
    · exact absurd rfl hu

/-- The deliveries of a transaction that commits are unnotified before, and notified
after it. -/
theorem notified_commit {ids : List DeliveryId} {s s' : NoticeState τ} (hs : Sound s) {t : τ}
    (h : Moves (noticeProgram ids) s (.commit t) s') {prog : Prog}
    (ht : s'.tx t = .committed prog) {id : DeliveryId} (hid : id ∈ prog.receipts) :
    notified s id = false ∧ notified s' id = true := by
  cases h with
  | commit t prog' writes ht' hcomplete =>
    cases (update_tx ..).symm.trans ht
    have hformed := hs.formed t prog (by rw [ht']; rfl)
    have hreturned := hformed.returned id hid
    have hfacts := (hs.known t prog writes ht' id (Or.inr hreturned)).2
    constructor
    · obtain ⟨r, hr, hunnotified⟩ := hfacts.returned hreturned
      have hnone : r.failureNotifiedAt.isNone = true := ((Bool.and_eq_true ..).mp hunnotified).2
      simpa [notified, hr] using hnone
    · have hacked := (complete_spec hcomplete hreturned).2
      obtain ⟨row', hmem, hrow⟩ := overlay_of_mem (hfacts.acked hreturned hacked) s.rows
      obtain ⟨r', -, hwrote⟩ := hfacts.wrote row' hmem
      obtain ⟨limit, hcall⟩ := hformed.notifies id hreturned
      rw [Wrote, hcall] at hwrote
      obtain ⟨-, now, rfl⟩ := hwrote
      exact congrArg (Option.any fun row : NoticeRow => row.failureNotifiedAt.isSome) hrow

/-- The column of the other deliveries stays as it is. -/
theorem notified_other {ids : List DeliveryId} {s s' : NoticeState τ} (hs : Sound s)
    {l : NoticeLabel τ} (h : Moves (noticeProgram ids) s l s') {id : DeliveryId}
    (hid : ∀ t prog, l = .commit t → s'.tx t = .committed prog → id ∉ prog.receipts) :
    notified s' id = notified s id := by
  rcases rows_of_step hs.held h id with hsame | ⟨t, prog, writes, row', rfl, ht, ht', -, hmem, hrow⟩
  · rw [notified, hsame, notified]
  · obtain ⟨r, hr, hwrote⟩ :=
      (hs.known t prog writes ht id (Or.inl (List.mem_map_of_mem hmem))).2.wrote row' hmem
    rw [notified, hrow, notified, hr]
    cases hcall : prog.call with
    | notify limit =>
      rw [Wrote, hcall] at hwrote
      obtain ⟨prog', writes', hactive, hcomplete, hcommitted⟩ := commit_moves h
      cases ht.symm.trans hactive
      exact absurd (complete_spec hcomplete hwrote.1).1 (hid t prog rfl ht')
    | markDead id' a =>
      rw [Wrote, hcall] at hwrote
      rw [hwrote]
      rfl

/-- **Step lemma.** -/
theorem accounted_step {ids : List DeliveryId} {s s' : NoticeState τ} {l : NoticeLabel τ}
    (hs : Sound s) (hacc : Accounted s) (h : Moves (noticeProgram ids) s l s') :
    Accounted s' := by
  have hfresh : ∀ {t prog id}, l = .commit t → s'.tx t = .committed prog → id ∈ prog.receipts →
      ∀ u, ¬ Receipted s u id := by
    rintro t prog id rfl ht hid u hu
    have hnot := (notified_commit hs h ht hid).1
    rw [(hacc.column id).mpr ⟨u, hu⟩] at hnot
    cases hnot
  constructor
  · intro t u id ht hu
    rcases (receipted_step h t id).mp ht with ht | ⟨prog, hl, hprog, hid⟩
    · rcases (receipted_step h u id).mp hu with hu | ⟨prog, hl, hprog, hid⟩
      · exact hacc.once t u id ht hu
      · exact absurd ht (hfresh hl hprog hid t)
    · rcases (receipted_step h u id).mp hu with hu | ⟨prog', hl', -⟩
      · exact absurd hu (hfresh hl hprog hid u)
      · cases hl.symm.trans hl'
        rfl
  · intro t prog hprog
    by_cases htl : t = l.tx
    · subst htl
      obtain ⟨-, writes, ht⟩ := committed_of_step h hprog
      exact (hs.formed l.tx prog (by rw [ht]; rfl)).nodup
    · rw [tx_of_step h htl] at hprog
      exact hacc.distinct t prog hprog
  · intro id
    by_cases hnew : ∃ t prog, l = .commit t ∧ s'.tx t = .committed prog ∧ id ∈ prog.receipts
    · obtain ⟨t, prog, rfl, hprog, hid⟩ := hnew
      exact iff_of_true (notified_commit hs h hprog hid).2 ⟨t, prog, hprog, hid⟩
    · have hsame := notified_other hs h fun t prog hl hprog hid => hnew ⟨t, prog, hl, hprog, hid⟩
      rw [hsame, hacc.column id]
      refine exists_congr fun u => ?_
      rw [receipted_step h u id]
      exact ⟨Or.inl, fun hu => hu.resolve_right fun ⟨prog, hprog⟩ => hnew ⟨u, prog, hprog⟩⟩

omit [DecidableEq τ] in
theorem accounted_start (table : Table Pg.Row.deliveryId) :
    Accounted (start (noticeRows table) : NoticeState τ) where
  once t u id ht := by
    obtain ⟨prog, hprog, -⟩ := ht
    cases hprog
  distinct t prog hprog := by cases hprog
  column id := by
    refine iff_of_false ?_ ?_
    · simp [notified, start, noticeRows, Option.any_map]
    · rintro ⟨t, prog, hprog, -⟩
      cases hprog

theorem moves_of_noticeStep {ids : List DeliveryId} {s s' : NoticeState τ} {l : NoticeLabel τ}
    (h : noticeStep ids s l = some s') : step (noticeProgram ids) s l = some s' :=
  (Option.ite_none_right_eq_some.mp h).2

theorem sound_run {ids : List DeliveryId} {rows : DeliveryId → Option NoticeRow}
    {as : List (NoticeLabel τ)} {s : NoticeState τ}
    (h : Run.run (step (noticeProgram ids)) (start rows) as = some s) : Sound s := by
  obtain ⟨hheld, hknown⟩ := known_run (noticeProgram_learns ids) h
  refine ⟨hheld, hknown, prog_run (p := noticeProgram ids) ?_ ?_ h, owner_active_run h⟩
  · rintro ⟨call, stage⟩ hinitial
    cases stage with
    | running =>
      exact ⟨List.nodup_nil, fun _ hid => (by cases hid), fun _ hid => (by cases hid)⟩
    | _ => cases hinitial
  · intro prog st rows e hprog he
    exact formed_statement hprog (executes he)

/-- The invariant rule, for what the steps keep of sound states. -/
theorem sound_invariant {I : NoticeState τ → Prop} {ids : List DeliveryId}
    {rows : DeliveryId → Option NoticeRow}
    (hstep : ∀ s l s', Sound s → I s → Moves (noticeProgram ids) s l s' → I s')
    (hstart : I (start rows)) {as : List (NoticeLabel τ)} {s : NoticeState τ}
    (h : Run.run (step (noticeProgram ids)) (start rows) as = some s) : I s := by
  have hboth : (∃ as, Run.run (step (noticeProgram ids)) (start rows) as = some s) ∧ I s := by
    refine Run.run_invariant (I := fun s =>
      (∃ as, Run.run (step (noticeProgram ids)) (start rows) as = some s) ∧ I s) ?_
      ⟨⟨[], rfl⟩, hstart⟩ h
    rintro u l v ⟨⟨bs, hbs⟩, hu⟩ hv
    refine ⟨⟨bs ++ [l], ?_⟩, hstep u l v (sound_run hbs) hu (moves_iff.mp hv)⟩
    exact Run.run_append_some.mpr ⟨u, hbs, Run.run_cons_some.mpr ⟨v, hv, rfl⟩⟩
  exact hboth.2

theorem accounted_run {table : Table Pg.Row.deliveryId} {ids : List DeliveryId}
    {as : List (NoticeLabel τ)} {s : NoticeState τ}
    (h : Run.run (step (noticeProgram ids)) (start (noticeRows table)) as = some s) :
    Accounted s :=
  sound_invariant (fun _ _ _ hs hacc hstep => accounted_step hs hacc hstep)
    (accounted_start table) h

/-! ## A call on its own -/

/-- The steps `bs` of `t` take its call of `dead_unnotified`, and it returns `returned`. -/
def Returns (ids : List DeliveryId) (s : NoticeState τ) (t : τ) (bs : List (NoticeLabel τ))
    (returned : List DeliveryId) : Prop :=
  (∀ l ∈ bs, l.tx = t) ∧ ∃ s' limit receipts acked writes,
    Run.run (noticeStep ids) s bs = some s' ∧
      s'.tx t = .active ⟨.notify limit, .notifying returned receipts acked⟩ writes

/-- How far the call has got in finding the rows of `found`. -/
def OnItsWay (found : List DeliveryId) : Stage → Prop
  | .running => True
  | .selecting rest returned => returned ++ rest = found
  | .notifying returned _ _ => returned = found
  | .done => False

/-- A call with a large enough limit, on rows that nobody else holds. -/
structure Alone (ids : List DeliveryId) (rows : DeliveryId → Option NoticeRow) (t : τ) (limit : Nat)
    (s : NoticeState τ) : Prop where
  large : (candidates ids rows).length ≤ limit
  same : s.rows = rows
  owner : ∀ k u, s.owner k = some u → u = t
  call : ∀ prog writes, s.tx t = .active prog writes → prog.call = .notify limit ∧
    OnItsWay (candidates ids rows) prog.stage

theorem unnotified_of_mem_candidates {ids : List DeliveryId} {rows : DeliveryId → Option NoticeRow}
    {id : DeliveryId} (h : id ∈ candidates ids rows) :
    (rows id).any NoticeRow.unnotified = true := by
  rw [candidates, List.mem_insertionSort] at h
  exact (List.mem_filter.mp h).2

variable {ids : List DeliveryId} {rows : DeliveryId → Option NoticeRow} {t : τ} {limit : Nat}

/-- A statement of the call, where nothing is skipped. -/
theorem onItsWay_statement (hlarge : (candidates ids rows).length ≤ limit) {prog : Prog}
    (hcall : prog.call = .notify limit) (hprog : OnItsWay (candidates ids rows) prog.stage)
    {st : Statement} (hst : st ≠ .skip) {e : Effect DeliveryId NoticeRow Prog}
    (h : Executes ids rows prog st e) : e.next.call = .notify limit ∧
      OnItsWay (candidates ids rows) e.next.stage := by
  cases h with
  | snapshot limit' => exact ⟨hcall, rfl⟩
  | lock limit' id rest returned returned' hlimit hreturned' =>
    refine ⟨hcall, ?_⟩
    have hfound : returned ++ id :: rest = candidates ids rows := hprog
    have hmem : id ∈ candidates ids rows := by
      rw [← hfound]
      exact List.mem_append_right _ (List.mem_cons_self ..)
    rw [if_pos (unnotified_of_mem_candidates hmem)] at hreturned'
    have hnext : returned' ++ rest = candidates ids rows := by
      rw [hreturned', List.append_assoc, List.singleton_append, hfound]
    exact hnext
  | skip limit' id rest returned hlimit => exact absurd rfl hst
  | answer limit' rest returned hend =>
    refine ⟨hcall, ?_⟩
    have hfound : returned ++ rest = candidates ids rows := hprog
    have hlimit : limit' = limit := by cases hcall; rfl
    have hrest : rest = [] := by
      rcases hend with hend | hend
      · exact hend
      · rw [← hfound, List.length_append] at hlarge
        exact List.length_eq_zero_iff.mp (by omega)
    have hnext : returned = candidates ids rows := by
      rw [← hfound, hrest, List.append_nil]
    exact hnext
  | receipt limit' id returned receipts acked hid hnew => exact ⟨hcall, hprog⟩
  | ack limit' id now returned receipts acked hid => exact ⟨hcall, hprog⟩
  | update id a => cases hcall

theorem alone_step {s s' : NoticeState τ} {l : NoticeLabel τ} (hs : Alone ids rows t limit s)
    (ht : s.tx t ≠ .fresh) (hl : l.tx = t) (h : noticeStep ids s l = some s')
    (hactive : (s'.tx t).isActive = true) : Alone ids rows t limit s' := by
  obtain ⟨hskip, h⟩ := Option.ite_none_right_eq_some.mp h
  subst hl
  cases moves_iff.mp h with
  | begin t prog ht' hinitial => exact absurd ht' ht
  | exec t st prog writes e ht' he hfree =>
    obtain ⟨hcall, hprog⟩ := hs.call prog writes ht'
    have hst : st ≠ .skip := by
      rintro rfl
      cases executes he with
      | skip limit' id rest returned hlimit =>
        -- somebody else would have to hold the candidate
        have hheld : (!free s.owner t id) = true := by simpa [skipsLocked, ht'] using hskip
        have hfree : free s.owner t id = true := free_iff.mpr (hs.owner id)
        rw [hfree] at hheld
        cases hheld
    refine ⟨hs.large, hs.same, fun k u hu => ?_, fun prog' writes' hprog' => ?_⟩
    · rcases owner_of_lockAll hu with rfl | hu
      · rfl
      · exact hs.owner k u hu
    · cases (update_tx ..).symm.trans hprog'
      exact onItsWay_statement hs.large hcall hprog hst (hs.same ▸ executes he)
  | commit t prog writes ht' hcomplete =>
    cases (congrArg Tx.isActive (update_tx ..)).symm.trans hactive
  | abort t prog writes ht' =>
    cases (congrArg Tx.isActive (update_tx ..)).symm.trans hactive

/-- **What the call returns** when no other transaction is open: every candidate. -/
theorem returned_alone {s : NoticeState τ} (hs : Alone ids rows t limit s)
    (ht : (s.tx t).isActive = true) {bs : List (NoticeLabel τ)} {returned : List DeliveryId}
    (h : Returns ids s t bs returned) : returned = candidates ids rows := by
  obtain ⟨hbs, s', limit', receipts, acked, writes, hrun, hend⟩ := h
  have hinv : s'.tx t ≠ .fresh ∧ ((s'.tx t).isActive = true → Alone ids rows t limit s') := by
    refine Run.run_preserves (P := fun _ l => l.tx = t)
      (I := fun u => u.tx t ≠ .fresh ∧ ((u.tx t).isActive = true → Alone ids rows t limit u))
      ?_ (Run.along_of_forall (fun _ => hbs) s) ⟨?_, fun _ => hs⟩ hrun
    · rintro u l v ⟨hu, halone⟩ hl hstep
      have hmoves := moves_iff.mp (moves_of_noticeStep hstep)
      cases hx : u.tx t with
      | fresh => exact absurd hx hu
      | active prog writes =>
        refine ⟨fun hfresh => ?_, alone_step (halone (by rw [hx]; rfl)) hu hl hstep⟩
        subst hl
        cases hmoves <;> cases (update_tx ..).symm.trans hfresh
      | committed prog =>
        rw [finished_step hmoves (by rw [hx]; rfl), hx]
        exact ⟨fun hfresh => (by cases hfresh), fun hactive => (by cases hactive)⟩
      | aborted =>
        rw [finished_step hmoves (by rw [hx]; rfl), hx]
        exact ⟨fun hfresh => (by cases hfresh), fun hactive => (by cases hactive)⟩
    · intro hfresh
      rw [hfresh] at ht
      cases ht
  have hdone := (hinv.2 (by rw [hend]; rfl)).call _ _ hend
  exact hdone.2

/-- A statement of a transaction that is alone can be executed. -/
theorem exec_alone {s : NoticeState τ} (hs : Alone ids rows t limit s) {prog : Prog}
    {writes : Writes} (ht : s.tx t = .active prog writes) {st : Statement} (hst : st ≠ .skip)
    {e : Effect DeliveryId NoticeRow Prog} (he : statement ids prog st rows = some e) :
    ∃ s', noticeStep ids s (.exec t st) = some s' ∧
      s'.tx t = .active e.next (e.writes ++ writes) ∧ Alone ids rows t limit s' := by
  have hfree : ∀ k ∈ e.keys, free s.owner t k = true := fun k _ => free_iff.mpr (hs.owner k)
  have hstep := moves_iff.mpr (Moves.exec t st prog writes e ht (p := noticeProgram ids)
    (by rw [hs.same]; exact he) hfree)
  have hskip : skipsLocked s (.exec t st) = true := by
    cases st <;> first | rfl | exact absurd rfl hst
  have hnotice := (if_pos hskip : noticeStep ids s (.exec t st) = _).trans hstep
  have hfresh : s.tx t ≠ .fresh := fun hf => by cases ht.symm.trans hf
  refine ⟨_, hnotice, update_tx .., ?_⟩
  exact alone_step hs hfresh rfl hnotice (congrArg Tx.isActive (update_tx ..))

/-- It locks the candidates one after the other. -/
theorem locks_alone (rest : List DeliveryId) : ∀ {s : NoticeState τ} {returned : List DeliveryId}
    {writes : Writes}, Alone ids rows t limit s →
    s.tx t = .active ⟨.notify limit, .selecting rest returned⟩ writes →
    ∃ s' returned' writes', Run.run (noticeStep ids) s (rest.map fun _ => .exec t .lock) = some s' ∧
      s'.tx t = .active ⟨.notify limit, .selecting [] returned'⟩ writes' ∧
      Alone ids rows t limit s' := by
  induction rest with
  | nil =>
    intro s returned writes hs ht
    exact ⟨s, returned, writes, rfl, ht, hs⟩
  | cons id rest ih =>
    intro s returned writes hs ht
    have hfound : returned ++ id :: rest = candidates ids rows := (hs.call _ _ ht).2
    have hlimit : returned.length < limit := by
      have hlarge := hs.large
      rw [← hfound, List.length_append, List.length_cons] at hlarge
      omega
    obtain ⟨u, hu, htu, hsu⟩ := exec_alone hs ht (by simp : Statement.lock ≠ .skip)
      (if_pos hlimit)
    obtain ⟨s', returned', writes', hrun, hend⟩ := ih hsu htu
    exact ⟨s', returned', writes', Run.run_cons_some.mpr ⟨u, hu, hrun⟩, hend⟩

theorem returns_alone {s : NoticeState τ} (hs : Alone ids rows t limit s) {writes : Writes}
    (ht : s.tx t = .active ⟨.notify limit, .running⟩ writes) :
    ∃ bs returned, Returns ids s t bs returned := by
  obtain ⟨u, hu, htu, hsu⟩ := exec_alone hs ht (by simp : Statement.snapshot ≠ .skip) rfl
  obtain ⟨v, returned, writes', hv, htv, hsv⟩ := locks_alone _ hsu htu
  have hanswer : statement ids ⟨.notify limit, .selecting [] returned⟩ .answer rows =
      some { next := ⟨.notify limit, .notifying returned [] []⟩ } := by simp [statement]
  obtain ⟨w, hw, htw, -⟩ := exec_alone hsv htv (by simp : Statement.answer ≠ .skip) hanswer
  refine ⟨.exec t .snapshot :: ((candidates ids rows).map fun _ => .exec t .lock) ++
    [.exec t .answer], returned, ?_, w, limit, [], [], _, ?_, htw⟩
  · intro l hl
    simp only [List.cons_append, List.mem_cons, List.mem_append, List.mem_map,
      List.not_mem_nil, or_false] at hl
    rcases hl with rfl | ⟨_, -, rfl⟩ | rfl <;> rfl
  · exact Run.run_append_some.mpr ⟨v, Run.run_cons_some.mpr ⟨u, hu, hv⟩,
      Run.run_cons_some.mpr ⟨w, hw, rfl⟩⟩

/-! ## Runs -/

/-- No other transaction is open, and the limit of the call of `t`, which is about to
begin, is large enough. -/
structure Ready (ids : List DeliveryId) (s : NoticeState τ) (t : τ) (limit : Nat) : Prop where
  call : s.tx t = .active ⟨.notify limit, .running⟩ []
  others : ∀ u, u ≠ t → (s.tx u).isActive = false
  large : (candidates ids s.rows).length ≤ limit

theorem alone_of_ready {s : NoticeState τ} (hs : Sound s) (h : Ready ids s t limit) :
    Alone ids s.rows t limit s where
  large := h.large
  same := rfl
  owner k u hu := by
    by_contra hne
    have hactive := hs.owners k u hu
    rw [h.others u hne] at hactive
    cases hactive
  call prog writes hprog := by
    cases h.call.symm.trans hprog
    exact ⟨rfl, trivial⟩

def keys (table : Table Pg.Row.deliveryId) : List DeliveryId := table.rows.map Pg.Row.deliveryId

/-- The rows stay those of the table. -/
theorem mem_keys_run {table : Table Pg.Row.deliveryId} {as : List (NoticeLabel τ)}
    {s : NoticeState τ}
    (h : Run.run (step (noticeProgram (keys table))) (start (noticeRows table)) as = some s) :
    ∀ id, (s.rows id).isSome = true → id ∈ keys table := by
  refine sound_invariant (I := fun s => ∀ id, (s.rows id).isSome = true → id ∈ keys table)
    ?_ ?_ h
  · intro u l v hu hkeys hstep id hid
    rcases rows_of_step hu.held hstep id with
      hsame | ⟨t, prog, writes, row', rfl, ht, -, -, hmem, -⟩
    · exact hkeys id (hsame ▸ hid)
    · obtain ⟨r, hr, -⟩ :=
        (hu.known t prog writes ht id (Or.inl (List.mem_map_of_mem hmem))).2.wrote row' hmem
      exact hkeys id (by rw [hr]; rfl)
  · intro id hid
    obtain ⟨row, hrow⟩ := Option.isSome_iff_exists.mp (Option.isSome_map ▸ hid)
    obtain ⟨hmem, hkey⟩ := Table.find?_eq_some.mp hrow
    exact List.mem_map.mpr ⟨row, hmem, hkey⟩

/-- **Receipts.** In every interleaving: no delivery has two committed receipts, it has one
if and only if its `failure_notified_at` is set, and a call with a large enough limit, made
when no other transaction is open, returns every dead delivery without one. -/
theorem receipts_once (table : Table Pg.Row.deliveryId) (as : List (NoticeLabel τ))
    (s : NoticeState τ)
    (h : Run.run (noticeStep (keys table)) (start (noticeRows table)) as = some s) :
    Accounted s ∧ ∀ t limit, Ready (keys table) s t limit →
      (∃ bs returned, Returns (keys table) s t bs returned) ∧
      ∀ bs returned, Returns (keys table) s t bs returned →
        ∀ id, dead s id = true → (∀ u, ¬ Receipted s u id) → id ∈ returned := by
  have hrun := Run.run_of_restricted (fun _ _ _ hstep => moves_of_noticeStep hstep) h
  have hacc := accounted_run hrun
  refine ⟨hacc, fun t limit hready => ?_⟩
  have halone := alone_of_ready (sound_run hrun) hready
  refine ⟨returns_alone halone hready.call, fun bs returned hreturns id hdead hnone => ?_⟩
  rw [returned_alone halone (by rw [hready.call]; rfl) hreturns, candidates,
    List.mem_insertionSort, List.mem_filter]
  obtain ⟨r, hr, hdead⟩ := (Option.any_eq_true ..).mp hdead
  refine ⟨mem_keys_run hrun id (by rw [hr]; rfl), ?_⟩
  have hnot : notified s id = false := by
    rw [Bool.eq_false_iff]
    intro hnotified
    obtain ⟨u, hu⟩ := (hacc.column id).mp hnotified
    exact hnone u hu
  rw [notified, hr, Option.any_some, Option.isSome_eq_false_iff] at hnot
  rw [hr, Option.any_some, NoticeRow.unnotified, hdead, hnot]
  rfl

def exampleTable : Table Pg.Row.deliveryId where
  rows := [⟨{ exampleRecord "d" "https://example.com/hook" with status := .deadLettered }, none⟩,
    ⟨{ exampleRecord "e" "https://example.com/hook" with status := .inFlight }, some 30⟩]
  nodup := by decide

/-- Transaction 1 skips what 0 holds, 2 dead-letters another delivery, and 3 begins when
the others are done. -/
def exampleNotices : List (NoticeLabel (Fin 4)) :=
  [.begin 0 ⟨.notify 10, .running⟩, .begin 1 ⟨.notify 1, .running⟩, .exec 0 .snapshot,
    .exec 1 .snapshot, .exec 0 .lock, .exec 1 .skip, .exec 0 .answer, .exec 1 .answer, .commit 1,
    .begin 2 ⟨.markDead "e" ⟨1, 2, some 410, 3, none, "", [], false⟩, .running⟩,
    .exec 0 (.receipt "d"), .exec 2 .update, .exec 0 (.ack "d" 5), .commit 0, .commit 2,
    .begin 3 ⟨.notify 10, .running⟩]

/-- The deliveries a transaction has receipts for once it is committed. -/
def receiptsOf (s : NoticeState τ) (t : τ) : List DeliveryId :=
  match s.tx t with
  | .committed prog => prog.receipts
  | _ => []

omit [DecidableEq τ] in
theorem mem_receiptsOf {s : NoticeState τ} {t : τ} {id : DeliveryId} :
    Receipted s t id → id ∈ receiptsOf s t := by
  rintro ⟨prog, hprog, hid⟩
  rw [receiptsOf, hprog]
  exact hid

theorem receipts_once_example : ∃ s : NoticeState (Fin 4),
    Run.run (noticeStep (keys exampleTable)) (start (noticeRows exampleTable)) exampleNotices =
      some s ∧ Accounted s ∧ Receipted s 0 "d" ∧
    ∃ bs returned, Returns (keys exampleTable) s 3 bs returned ∧ "e" ∈ returned := by
  obtain ⟨s, hs, hstate⟩ := (Option.any_eq_true ..).mp (by decide +kernel :
    (Run.run (noticeStep (keys exampleTable)) (start (noticeRows exampleTable)) exampleNotices).any
      (fun s => decide (s.tx 3 = .active ⟨.notify 10, .running⟩ [] ∧
        (∀ u : Fin 4, u ≠ 3 → (s.tx u).isActive = false) ∧
        (candidates (keys exampleTable) s.rows).length ≤ 10 ∧ notified s "d" = true ∧
        dead s "e" = true ∧ (∀ u : Fin 4, "e" ∉ receiptsOf s u) ∧
        ∀ u : Fin 4, "d" ∈ receiptsOf s u → u = 0)) = true)
  obtain ⟨hcall, hothers, hlarge, hd, hdead, hnone, hzero⟩ := of_decide_eq_true hstate
  obtain ⟨hacc, hreturns⟩ := receipts_once exampleTable exampleNotices s hs
  obtain ⟨⟨bs, returned, hbs⟩, hall⟩ := hreturns 3 10 ⟨hcall, hothers, hlarge⟩
  obtain ⟨u, hu⟩ := (hacc.column "d").mp hd
  refine ⟨s, hs, hacc, hzero u (mem_receiptsOf hu) ▸ hu, bs, returned, hbs, ?_⟩
  exact hall bs returned hbs "e" hdead fun u hu => hnone u (mem_receiptsOf hu)

end WebhookEngine.Stores.PgNotices
