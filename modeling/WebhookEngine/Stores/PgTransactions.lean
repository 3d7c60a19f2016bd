import WebhookEngine.Lib.RowLocks
import WebhookEngine.Stores.Pg

/-!
# Concurrent transactions of the Postgres store

The calls of `PgDeliveryRepo` cut into their statements, for any number of
transactions that interleave statement by statement, and an `UPDATE` of several rows
row by row. Which of the rows a statement may act on its snapshot shows is left open.

* `claims_separated`: between two committed claims of a delivery there is a
  committed `schedule_retry` of it, or a committed `reclaim_stale(now)` with `now`
  past the lease of the first; an aborted transaction leaves every row as it was.
-/

namespace WebhookEngine.Stores.PgTransactions

open Lib Lib.RowLocks Queue Pg

/-! ## The transactions -/

inductive Call where
  | claimBatch (now : Datetime) (leaseTtlS batchSize : Nat)
  | reclaimStale (now : Datetime)
  | complete (id : DeliveryId) (c : Completion) (attempt : AttemptRecord)
  deriving DecidableEq

inductive Stage where
  | running
  | selected (ids : List DeliveryId)
  | done (returned : List (DeliveryId × Row))
  deriving DecidableEq

/-- A call and how far it has got. -/
structure Prog where
  call : Call
  stage : Stage
  deriving DecidableEq

inductive Statement where
  | select (ids : List DeliveryId)
  | update
  | touch (id : DeliveryId)
  | finish

/-- `SELECT .. LIMIT n FOR UPDATE SKIP LOCKED`: up to `n` rows that are claimable in their
newest version; that nobody else holds them is what the lock asks. -/
def selectable (rows : DeliveryId → Option Row) (now : Datetime) (n : Nat)
    (ids : List DeliveryId) : Bool :=
  decide ids.Nodup && decide (ids.length ≤ n) &&
    ids.all fun id => (rows id).any (Row.claimable now)

/-- `UPDATE .. WHERE delivery_id = ANY(:ids) RETURNING ..`. -/
def updateAll (rows : DeliveryId → Option Row) (f : Row → Row) (ids : List DeliveryId) :
    List (DeliveryId × Row) :=
  ids.filterMap fun id => (rows id).map fun row => (id, f row)

def statement : Prog → Statement → (DeliveryId → Option Row) → Option (Effect DeliveryId Row Prog)
  | ⟨.claimBatch now ttl n, .running⟩, .select ids, rows =>
    if selectable rows now n ids then
      -- without rows the claim returns without its second statement
      let stage := if ids = [] then .done [] else .selected ids
      some { locks := ids, next := ⟨.claimBatch now ttl n, stage⟩ }
    else none
  | ⟨.claimBatch now ttl n, .selected ids⟩, .update, rows =>
    let updated := updateAll rows (Row.claim (now + ttl)) ids
    some { writes := updated, next := ⟨.claimBatch now ttl n, .done updated⟩ }
  | ⟨.reclaimStale now, .running⟩, .touch id, rows =>
    ((rows id).filter (Row.stale now)).map fun row =>
      { writes := [(id, row.reclaim)], next := ⟨.reclaimStale now, .running⟩ }
  | ⟨.reclaimStale now, .running⟩, .finish, _ =>
    some { next := ⟨.reclaimStale now, .done []⟩ }
  | ⟨.complete id c a, .running⟩, .update, rows =>
    some { writes := updateAll rows (Row.settle c a) [id], next := ⟨.complete id c a, .done []⟩ }
  | _, _, _ => none

def Stage.isRunning : Stage → Bool
  | .running => true
  | _ => false

def Stage.isDone : Stage → Bool
  | .done _ => true
  | _ => false

def pgProgram : Program DeliveryId Row Prog Statement where
  initial prog := prog.stage.isRunning
  statement := statement
  complete prog := prog.stage.isDone

/-- The deliveries a claim has selected or returned. -/
def Prog.taken : Prog → List DeliveryId
  | ⟨.claimBatch _ _ _, .selected ids⟩ => ids
  | ⟨.claimBatch _ _ _, .done returned⟩ => returned.map (·.1)
  | _ => []

/-- The `lease_expiry` a claim writes. -/
def Prog.leaseExpiry : Prog → Option Datetime
  | ⟨.claimBatch now ttl _, _⟩ => some (now + ttl)
  | _ => none

/-! ## What a transaction knows of its rows -/

/-- `row'` is what the call writes over the version `row`. -/
def Wrote (id : DeliveryId) (row row' : Row) : Call → Prop
  | .claimBatch now ttl _ => row.record.status.claimable = true ∧ row' = row.claim (now + ttl)
  | .reclaimStale now => row.stale now = true ∧ row' = row.reclaim
  | .complete id' c a => id = id' ∧ row' = row.settle c a

abbrev Writes := List (DeliveryId × Row)

def concerned (prog : Prog) (writes : Writes) (id : DeliveryId) : Prop :=
  id ∈ writes.map (·.1) ∨ id ∈ prog.taken

/-- The newest version of a row the transaction holds: what it has written was computed
from it, what a claim has taken is claimable in it; and once a claim is done, it has
written what it took. -/
structure Facts (prog : Prog) (writes : Writes) (id : DeliveryId) (row : Option Row) : Prop where
  written : ∀ row', (id, row') ∈ writes → ∃ r, row = some r ∧ Wrote id r row' prog.call
  taken : id ∈ prog.taken → ∃ r, row = some r ∧ r.record.status.claimable = true
  done : prog.stage.isDone = true → id ∈ prog.taken → id ∈ writes.map (·.1)

theorem mem_updateAll {rows : DeliveryId → Option Row} {f : Row → Row} {ids : List DeliveryId}
    {id : DeliveryId} {row' : Row} :
    (id, row') ∈ updateAll rows f ids ↔ id ∈ ids ∧ ∃ r, rows id = some r ∧ row' = f r := by
  simp only [updateAll, List.mem_filterMap, Option.map_eq_some_iff, Prod.mk.injEq]
  constructor
  · rintro ⟨_, hid, r, hr, rfl, rfl⟩
    exact ⟨hid, r, hr, rfl⟩
  · rintro ⟨hid, r, hr, rfl⟩
    exact ⟨id, hid, r, hr, rfl, rfl⟩

/-- What a statement can do. -/
inductive Executes (rows : DeliveryId → Option Row) :
    Prog → Statement → Effect DeliveryId Row Prog → Prop where
  | select (now : Datetime) (ttl n : Nat) (ids : List DeliveryId) (stage : Stage)
      (hids : selectable rows now n ids = true)
      (hstage : stage = if ids = [] then .done [] else .selected ids) :
      Executes rows ⟨.claimBatch now ttl n, .running⟩ (.select ids)
        { locks := ids, next := ⟨.claimBatch now ttl n, stage⟩ }
  | update (now : Datetime) (ttl n : Nat) (ids : List DeliveryId) :
      Executes rows ⟨.claimBatch now ttl n, .selected ids⟩ .update
        { writes := updateAll rows (Row.claim (now + ttl)) ids
          next := ⟨.claimBatch now ttl n, .done (updateAll rows (Row.claim (now + ttl)) ids)⟩ }
  | touch (now : Datetime) (id : DeliveryId) (r : Row) (hr : rows id = some r)
      (hstale : r.stale now = true) :
      Executes rows ⟨.reclaimStale now, .running⟩ (.touch id)
        { writes := [(id, r.reclaim)], next := ⟨.reclaimStale now, .running⟩ }
  | finish (now : Datetime) :
      Executes rows ⟨.reclaimStale now, .running⟩ .finish
        { next := ⟨.reclaimStale now, .done []⟩ }
  | complete (id : DeliveryId) (c : Completion) (a : AttemptRecord) :
      Executes rows ⟨.complete id c a, .running⟩ .update
        { writes := updateAll rows (Row.settle c a) [id]
          next := ⟨.complete id c a, .done []⟩ }

theorem executes {prog : Prog} {st : Statement} {rows : DeliveryId → Option Row}
    {e : Effect DeliveryId Row Prog} (h : statement prog st rows = some e) :
    Executes rows prog st e := by
  rw [statement.eq_def] at h
  split at h
  · obtain ⟨hids, h⟩ := Option.ite_none_right_eq_some.mp h
    cases h
    exact .select _ _ _ _ _ hids rfl
  · cases h
    exact .update _ _ _ _
  · obtain ⟨r, hr, h⟩ := Option.map_eq_some_iff.mp h
    cases h
    obtain ⟨hr, hstale⟩ := Option.filter_eq_some_iff.mp hr
    exact .touch _ _ r hr hstale
  · cases h
    exact .finish _
  · cases h
    exact .complete _ _ _
  · cases h

theorem selectable_spec {rows : DeliveryId → Option Row} {now : Datetime} {n : Nat}
    {ids : List DeliveryId} (h : selectable rows now n ids = true) {id : DeliveryId}
    (hid : id ∈ ids) : ∃ r, rows id = some r ∧ r.record.status.claimable = true := by
  simp only [selectable, Bool.and_eq_true, List.all_eq_true, Option.any_eq_true] at h
  obtain ⟨r, hr, hclaimable⟩ := h.2 id hid
  simp only [Row.claimable, Bool.and_eq_true] at hclaimable
  exact ⟨r, hr, hclaimable.1⟩

theorem taken_select {now : Datetime} {ttl n : Nat} {ids : List DeliveryId} {stage : Stage}
    (hstage : stage = if ids = [] then .done [] else .selected ids) :
    (⟨.claimBatch now ttl n, stage⟩ : Prog).taken = ids := by
  subst hstage
  by_cases hnil : ids = []
  · rw [if_pos hnil, hnil]
    rfl
  · rw [if_neg hnil]
    rfl

/-- What is known of a row before a statement and of what it has just written is known
after it. -/
theorem facts_statement {rows : DeliveryId → Option Row} {prog : Prog} {st : Statement}
    {e : Effect DeliveryId Row Prog} (h : Executes rows prog st e) {writes : Writes}
    {id : DeliveryId} (hold : concerned prog writes id → Facts prog writes id (rows id)) :
    Facts e.next (e.writes ++ writes) id (rows id) := by
  have hwritten : ∀ row', (id, row') ∈ writes →
      ∃ r, rows id = some r ∧ Wrote id r row' prog.call := fun row' hrow' =>
    (hold (Or.inl (List.mem_map_of_mem hrow'))).written row' hrow'
  cases h with
  | select now ttl n ids stage hids hstage =>
    refine ⟨hwritten, fun hid => ?_, fun hdone hid => ?_⟩
    · rw [taken_select hstage] at hid
      exact selectable_spec hids hid
    · rw [taken_select hstage] at hid
      subst hstage
      rw [if_neg (List.ne_nil_of_mem hid)] at hdone
      cases hdone
  | update now ttl n ids =>
    have htaken : id ∈ ids → ∃ r, rows id = some r ∧ r.record.status.claimable = true :=
      fun hid => (hold (Or.inr hid)).taken hid
    refine ⟨fun row' hrow' => ?_, fun hid => ?_, fun _ hid => ?_⟩
    · rcases List.mem_append.mp hrow' with hrow' | hrow'
      · obtain ⟨hid, r, hr, rfl⟩ := mem_updateAll.mp hrow'
        obtain ⟨r', hr', hclaimable⟩ := htaken hid
        rw [hr] at hr'
        cases hr'
        exact ⟨r, hr, hclaimable, rfl⟩
      · exact hwritten row' hrow'
    · obtain ⟨⟨_, row'⟩, hmem, rfl⟩ := List.mem_map.mp hid
      exact htaken (mem_updateAll.mp hmem).1
    · rw [List.map_append]
      exact List.mem_append_left _ hid
  | touch now id' r hr hstale =>
    refine ⟨fun row' hrow' => ?_, fun hid => (by cases hid), fun hdone => (by cases hdone)⟩
    rcases List.mem_cons.mp hrow' with he | hrow'
    · cases he
      exact ⟨r, hr, hstale, rfl⟩
    · exact hwritten row' hrow'
  | finish now => exact ⟨hwritten, fun hid => (by cases hid), fun _ hid => (by cases hid)⟩
  | complete id' c a =>
    refine ⟨fun row' hrow' => ?_, fun hid => (by cases hid), fun _ hid => (by cases hid)⟩
    rcases List.mem_append.mp hrow' with hrow' | hrow'
    · obtain ⟨hid, r, hr, rfl⟩ := mem_updateAll.mp hrow'
      exact ⟨r, hr, List.mem_singleton.mp hid, rfl⟩
    · exact hwritten row' hrow'

/-- A claim takes deliveries with its `SELECT` only. -/
theorem taken_statement {rows : DeliveryId → Option Row} {prog : Prog} {st : Statement}
    {e : Effect DeliveryId Row Prog} (h : Executes rows prog st e) {id : DeliveryId}
    (hid : id ∈ e.next.taken) : id ∈ prog.taken ∨ ∃ ids, st = .select ids ∧ id ∈ ids ∧
      e.locks = ids ∧ ∃ r, rows id = some r ∧ r.record.status.claimable = true := by
  cases h with
  | select now ttl n ids stage hids hstage =>
    rw [taken_select hstage] at hid
    exact Or.inr ⟨ids, rfl, hid, rfl, selectable_spec hids hid⟩
  | update now ttl n ids =>
    obtain ⟨⟨_, row'⟩, hmem, rfl⟩ := List.mem_map.mp hid
    exact Or.inl (mem_updateAll.mp hmem).1
  | touch => cases hid
  | finish => cases hid
  | complete => cases hid

theorem pgProgram_learns : Learns pgProgram concerned Facts where
  initial prog id hinitial := by
    rintro (hid | hid)
    · cases hid
    · obtain ⟨call, stage⟩ := prog
      cases stage with
      | running => cases call <;> cases hid
      | _ => cases hinitial
  concern prog writes st rows e id h hid := by
    rcases hid with hid | hid
    · rw [List.map_append] at hid
      rcases List.mem_append.mp hid with hid | hid
      · exact Or.inl (List.mem_append_right _ hid)
      · exact Or.inr (Or.inl hid)
    · rcases taken_statement (executes h) hid with hold | ⟨ids, -, hmem, rfl, -⟩
      · exact Or.inr (Or.inr hold)
      · exact Or.inl (List.mem_append_left _ hmem)
  fact prog writes st rows e id h _ hold := facts_statement (executes h) hold

/-! ## Steps -/

variable {τ : Type} [DecidableEq τ]

abbrev PgState (τ : Type) := RowLocks.State DeliveryId Row τ Prog

abbrev PgLabel (τ : Type) := RowLocks.Label τ Prog Statement

/-- What the library says of every reachable state. -/
def Sound (s : PgState τ) : Prop := Held s ∧ Known concerned Facts s

/-- The transaction is a claim that has taken `id`, and has not aborted. -/
def Took (t : τ) (id : DeliveryId) (s : PgState τ) : Prop :=
  ∃ prog, ((∃ writes, s.tx t = .active prog writes) ∨ s.tx t = .committed prog) ∧ id ∈ prog.taken

def Committed (t : τ) (s : PgState τ) : Prop := ∃ prog, s.tx t = .committed prog

/-- The delivery cannot be claimed, and if it is in flight, then under the lease `e`. -/
def Leased (id : DeliveryId) (e : Datetime) (s : PgState τ) : Prop :=
  ∃ r, s.rows id = some r ∧ r.record.status.claimable = false ∧
    (r.record.status = .inFlight → r.leaseExpiry = some e)

/-- The call frees a delivery whose lease is `e`. -/
def Frees (id : DeliveryId) (e : Datetime) : Call → Prop
  | .reclaimStale now => e < now
  | .complete id' (.retry _) _ => id' = id
  | _ => False

/-- A claim that commits leaves what it took leased. -/
theorem leased_of_commit {s s' : PgState τ} (hs : Sound s) {t : τ} {id : DeliveryId}
    (h : Moves pgProgram s (.commit t) s') {prog : Prog} (ht : s'.tx t = .committed prog)
    (hid : id ∈ prog.taken) : ∃ e, prog.leaseExpiry = some e ∧ Leased id e s' := by
  cases h with
  | commit t prog' writes ht' hcomplete =>
    cases (Function.update_self ..).symm.trans ht
    have hfacts := (hs.2 t prog writes ht' id (Or.inr hid)).2
    obtain ⟨row', hmem, hrow⟩ := overlay_of_mem (hfacts.done hcomplete hid) s.rows
    obtain ⟨r, hr, hwrote⟩ := hfacts.written row' hmem
    obtain ⟨call, stage⟩ := prog
    cases call with
    | claimBatch now ttl n =>
      obtain ⟨-, rfl⟩ := hwrote
      exact ⟨now + ttl, rfl, r.claim (now + ttl), hrow, rfl, fun _ => rfl⟩
    | reclaimStale now => cases stage <;> cases hid
    | complete id' c a => cases stage <;> cases hid

/-- **What ends a lease**: only a commit of a call that frees the delivery. -/
theorem frees_of_step {s s' : PgState τ} (hs : Sound s) {l : PgLabel τ} {id : DeliveryId}
    {e : Datetime} (h : Moves pgProgram s l s') (hleased : Leased id e s)
    (hnot : ¬ Leased id e s') :
    ∃ t prog, l = .commit t ∧ s'.tx t = .committed prog ∧ Frees id e prog.call := by
  obtain ⟨r, hr, hclaimable, hlease⟩ := hleased
  rcases rows_of_step hs.1 h id with hsame | ⟨t, prog, writes, row', rfl, ht, ht', -, hmem, hrow⟩
  · exact absurd ⟨r, hsame.trans hr, hclaimable, hlease⟩ hnot
  · refine ⟨t, prog, rfl, ht', ?_⟩
    have hfacts := (hs.2 t prog writes ht id (Or.inl (List.mem_map_of_mem hmem))).2
    obtain ⟨r', hr', hwrote⟩ := hfacts.written row' hmem
    rw [hr] at hr'
    cases hr'
    cases hcall : prog.call with
    | claimBatch now ttl n =>
      rw [hcall] at hwrote
      rw [hwrote.1] at hclaimable
      cases hclaimable
    | reclaimStale now =>
      rw [hcall] at hwrote
      have hstale := hwrote.1
      simp only [Row.stale, Bool.and_eq_true, decide_eq_true_eq] at hstale
      have hlt : e < now := by
        simpa only [hlease hstale.1, Option.any_some, decide_eq_true_eq] using hstale.2
      exact hlt
    | complete id' c a =>
      rw [hcall] at hwrote
      obtain ⟨rfl, rfl⟩ := hwrote
      cases c with
      | retry fireAt => rfl
      | sent => exact absurd ⟨_, hrow, rfl, fun h => by cases h⟩ hnot
      | dead => exact absurd ⟨_, hrow, rfl, fun h => by cases h⟩ hnot
      | append => exact absurd ⟨_, hrow, hclaimable, hlease⟩ hnot

/-- **How a claim takes a delivery**: with its `SELECT`, while it can be claimed. -/
theorem select_of_step {s s' : PgState τ} {l : PgLabel τ} {t : τ} {id : DeliveryId}
    (h : Moves pgProgram s l s') (hnot : ¬ Took t id s) (htook : Took t id s') :
    (∃ ids, l = .exec t (.select ids) ∧ id ∈ ids) ∧ ∀ e, ¬ Leased id e s := by
  obtain ⟨prog, htx, hid⟩ := htook
  by_cases hl : t = l.tx
  · subst hl
    rcases htx with ⟨writes, htx⟩ | htx
    · rcases active_of_step h htx with ⟨hinitial, -⟩ |
        ⟨st, prog₀, writes₀, e, hl, ht, he, -, rfl, -, -⟩
      · exact absurd (Or.inr hid) (pgProgram_learns.initial prog id hinitial)
      · rcases taken_statement (executes he) hid with hold | ⟨ids, rfl, hmem, -, r, hr, hclaimable⟩
        · exact absurd ⟨prog₀, Or.inl ⟨writes₀, ht⟩, hold⟩ hnot
        · refine ⟨⟨ids, hl, hmem⟩, ?_⟩
          rintro e ⟨r', hr', hclaimable', -⟩
          rw [hr] at hr'
          cases hr'
          rw [hclaimable] at hclaimable'
          cases hclaimable'
    · obtain ⟨-, writes, ht⟩ := committed_of_step h htx
      exact absurd ⟨prog, Or.inl ⟨writes, ht⟩, hid⟩ hnot
  · rw [tx_of_step h hl] at htx
    exact absurd ⟨prog, htx, hid⟩ hnot

/-! ## Two claims of one delivery -/

/-- The commit of the claim `t₁`, then the commit of a call that frees the delivery from
the lease that claim wrote, then the `SELECT` with which `t₂` takes it. -/
def Separated (as : List (PgLabel τ)) (w : PgState τ) (t₁ t₂ : τ) (id : DeliveryId) : Prop :=
  ∃ bs cs ds es t ids prog₁ prog e,
    as = bs ++ .commit t₁ :: (cs ++ .commit t :: (ds ++ .exec t₂ (.select ids) :: es)) ∧
    id ∈ ids ∧ w.tx t₁ = .committed prog₁ ∧ prog₁.leaseExpiry = some e ∧
    w.tx t = .committed prog ∧ Frees id e prog.call

theorem committed_run {as : List (PgLabel τ)} {s s' : PgState τ} {t : τ} {prog : Prog}
    (ht : s.tx t = .committed prog) (h : Run.run (step pgProgram) s as = some s') :
    s'.tx t = .committed prog :=
  (finished_run (by rw [ht]; rfl) h).trans ht

/-- The deliveries a committed claim has returned. -/
def returned (w : PgState τ) (t : τ) : List DeliveryId :=
  match w.tx t with
  | .committed prog => prog.taken
  | _ => []

omit [DecidableEq τ] in
theorem mem_returned {w : PgState τ} {t : τ} {id : DeliveryId} :
    id ∈ returned w t ↔ ∃ prog, w.tx t = .committed prog ∧ id ∈ prog.taken := by
  rw [returned]
  constructor
  · intro hid
    split at hid
    · exact ⟨_, by assumption, hid⟩
    · cases hid
  · rintro ⟨prog, ht, hid⟩
    rw [ht]
    exact hid

omit [DecidableEq τ] in
/-- While a claim that took the delivery is active, no other claim has it. -/
theorem not_took_of_active {s : PgState τ} (hs : Sound s) {t₁ t₂ : τ} {id : DeliveryId}
    (hne : t₁ ≠ t₂) {prog : Prog} {writes : Writes} (ht : s.tx t₁ = .active prog writes)
    (hid : id ∈ prog.taken) (hnot : ¬ Committed t₂ s) : ¬ Took t₂ id s := by
  have howner := (hs.2 t₁ prog writes ht id (Or.inr hid)).1
  rintro ⟨prog₂, ⟨writes₂, ht₂⟩ | ht₂, hid₂⟩
  · have howner₂ := (hs.2 t₂ prog₂ writes₂ ht₂ id (Or.inr hid₂)).1
    rw [howner] at howner₂
    exact hne (Option.some_inj.mp howner₂)
  · exact hnot ⟨prog₂, ht₂⟩

/-- The claim that commits first is separated from the other. -/
theorem separated_of_commit {rows : DeliveryId → Option Row} {bs cs : List (PgLabel τ)}
    {u v w : PgState τ} {t₁ t₂ : τ} {id : DeliveryId} {prog₁ prog₂ : Prog} (hne : t₁ ≠ t₂)
    (hu : Run.run (step pgProgram) (start rows) bs = some u)
    (hv : Moves pgProgram u (.commit t₁) v) (hw : Run.run (step pgProgram) v cs = some w)
    (h₁ : w.tx t₁ = .committed prog₁) (hid₁ : id ∈ prog₁.taken)
    (h₂ : w.tx t₂ = .committed prog₂) (hid₂ : id ∈ prog₂.taken) (hnot : ¬ Committed t₂ u) :
    Separated (bs ++ .commit t₁ :: cs) w t₁ t₂ id := by
  have hsound : Sound u := known_run pgProgram_learns hu
  obtain ⟨prog, writes, hactive, -, hcommitted⟩ := commit_moves hv
  have hprog : prog = prog₁ := by
    have hsame := (committed_run hcommitted hw).symm.trans h₁
    cases hsame
    rfl
  subst hprog
  obtain ⟨e, hlease, hleased⟩ := leased_of_commit hsound hv hcommitted hid₁
  have hnot₂ : ¬ Took t₂ id v := by
    rw [Took, tx_of_step hv hne.symm]
    exact not_took_of_active hsound hne hactive hid₁ hnot
  -- the step with which the other claim takes the delivery
  obtain ⟨xs, a, es, x, y, rfl, hx, hxy, hy, hnotx, hooky⟩ :=
    Run.run_flip (Q := Took t₂ id) hnot₂ ⟨prog₂, Or.inr h₂, hid₂⟩ hw
  obtain ⟨⟨ids, rfl, hids⟩, hfree⟩ := select_of_step (moves_iff.mp hxy) hnotx hooky
  -- before it, the step that ends the lease
  obtain ⟨cs, b, ds, x', y', rfl, hx', hxy', hy', hleased', hfreed⟩ :=
    Run.run_flip (Q := fun s => ¬ Leased id e s) (not_not_intro hleased) (hfree e) hx
  have hsound' : Sound x' := known_run pgProgram_learns
    (Run.run_append_some.mpr ⟨u, hu, Run.run_cons_some.mpr ⟨v, moves_iff.mpr hv, hx'⟩⟩)
  obtain ⟨t, prog', rfl, ht, hfrees⟩ :=
    frees_of_step hsound' (moves_iff.mp hxy') (not_not.mp hleased') hfreed
  have hend : w.tx t = .committed prog' :=
    committed_run (committed_run ht hy') (Run.run_cons_some.mpr ⟨y, hxy, hy⟩)
  exact ⟨bs, cs, ds, es, t, ids, prog, prog', e, by simp only [List.append_assoc, List.cons_append],
    hids, h₁, hlease, hend, hfrees⟩

/-- A transaction that is committed after a run was committed by one of its steps. -/
theorem commit_of_committed {as : List (PgLabel τ)} {s w : PgState τ} {t : τ}
    (h : Run.run (step pgProgram) s as = some w) (hs : ¬ Committed t s) (hw : Committed t w) :
    ∃ bs cs u v, as = bs ++ .commit t :: cs ∧ Run.run (step pgProgram) s bs = some u ∧
      Moves pgProgram u (.commit t) v ∧ Run.run (step pgProgram) v cs = some w ∧
      ¬ Committed t u := by
  obtain ⟨bs, a, cs, u, v, rfl, hu, huv, hv, hnot, prog, hprog⟩ :=
    Run.run_flip (Q := Committed t) hs hw h
  have hmoves := moves_iff.mp huv
  have ht : t = a.tx := by
    by_contra hne
    rw [tx_of_step hmoves hne] at hprog
    exact hnot ⟨prog, hprog⟩
  subst ht
  obtain ⟨ha, -⟩ := committed_of_step hmoves hprog
  rw [ha] at hmoves
  exact ⟨bs, cs, u, v, by rw [← ha], hu, hmoves, hv, hnot⟩

/-- **Claims are separated.** In every interleaving of any number of transactions: of
two committed claims with one delivery, one had committed and its lease was ended by a
committed `schedule_retry` of the delivery or a later `reclaim_stale` before the other
selected the delivery; and an aborted transaction leaves the rows as they would be
without it. -/
theorem claims_separated {rows : DeliveryId → Option Row} {as : List (PgLabel τ)} {w : PgState τ}
    (h : Run.run (step pgProgram) (start rows) as = some w) :
    (∀ t₁ t₂ id, t₁ ≠ t₂ → id ∈ returned w t₁ → id ∈ returned w t₂ →
      Separated as w t₁ t₂ id ∨ Separated as w t₂ t₁ id) ∧
    ∀ t, w.tx t = .aborted → ∃ w', w'.rows = w.rows ∧
      Run.run (step pgProgram) (start rows) (as.filter fun l => l.tx ≠ t) = some w' := by
  constructor
  · intro t₁ t₂ id hne hid₁ hid₂
    obtain ⟨prog₁, h₁, hid₁⟩ := mem_returned.mp hid₁
    obtain ⟨prog₂, h₂, hid₂⟩ := mem_returned.mp hid₂
    have hnone : ∀ t : τ, ¬ Committed t (start rows : PgState τ) := by
      rintro t ⟨prog, hprog⟩
      cases hprog
    obtain ⟨bs, cs, u, v, rfl, hu, huv, hv, hnot⟩ := commit_of_committed h (hnone t₁) ⟨prog₁, h₁⟩
    by_cases hfirst : Committed t₂ u
    · obtain ⟨bs', ds, u', v', rfl, hu', huv', hv', -⟩ := commit_of_committed hu (hnone t₂) hfirst
      have hnot' : ¬ Committed t₁ u' := by
        rintro ⟨prog, hprog⟩
        exact hnot ⟨prog, committed_run hprog
          (Run.run_cons_some.mpr ⟨v', moves_iff.mpr huv', hv'⟩)⟩
      have hsep := separated_of_commit hne.symm hu' huv'
        (Run.run_append_some.mpr ⟨u, hv', Run.run_cons_some.mpr ⟨v, moves_iff.mpr huv, hv⟩⟩)
        h₂ hid₂ h₁ hid₁ hnot'
      right
      rw [List.append_assoc, List.cons_append]
      exact hsep
    · exact Or.inl (separated_of_commit hne hu huv hv h₁ hid₁ h₂ hid₂ hfirst)
  · intro t ht
    obtain ⟨w', hw', he⟩ := erased_run (erased_start t) h
      (fun prog hprog => by rw [ht] at hprog; cases hprog)
    exact ⟨w', he.rows, hw'⟩

def exampleRows : DeliveryId → Option Row := fun id =>
  if id = "d" then some ⟨exampleRecord "d" "https://example.com/hook", none⟩ else none

/-- Claim 0 aborts, claim 1 commits, its lease runs out and is reclaimed by transaction 2
while claim 3 has begun. -/
def exampleInterleaving : List (PgLabel Nat) :=
  [.begin 0 ⟨.claimBatch 0 30 1, .running⟩, .begin 1 ⟨.claimBatch 0 30 1, .running⟩,
    .exec 0 (.select ["d"]), .exec 0 .update, .abort 0,
    .exec 1 (.select ["d"]), .begin 2 ⟨.reclaimStale 31, .running⟩, .exec 1 .update, .commit 1,
    .exec 2 (.touch "d"), .begin 3 ⟨.claimBatch 40 30 1, .running⟩, .exec 2 .finish, .commit 2,
    .exec 3 (.select ["d"]), .exec 3 .update, .commit 3]

theorem claims_separated_reclaim : ∃ w : PgState Nat,
    Run.run (step pgProgram) (start exampleRows) exampleInterleaving = some w ∧
    (Separated exampleInterleaving w 1 3 "d" ∨ Separated exampleInterleaving w 3 1 "d") ∧
    ∃ w', w'.rows = w.rows ∧ Run.run (step pgProgram) (start exampleRows)
      (exampleInterleaving.filter fun l => l.tx ≠ 0) = some w' := by
  obtain ⟨w, hw, hstates⟩ := (Option.any_eq_true ..).mp (by decide +kernel :
    (Run.run (step pgProgram) (start exampleRows) exampleInterleaving).any (fun w =>
      decide ("d" ∈ returned w 1) && decide ("d" ∈ returned w 3) &&
        decide (w.tx 0 = .aborted)) = true)
  simp only [Bool.and_eq_true, decide_eq_true_eq] at hstates
  obtain ⟨hsep, herased⟩ := claims_separated hw
  exact ⟨w, hw, hsep 1 3 "d" (by decide) hstates.1.1 hstates.1.2, herased 0 hstates.2⟩

end WebhookEngine.Stores.PgTransactions
