import WebhookEngine.Attempts
import WebhookEngine.LostReplies
import WebhookEngine.Quarantine

/-!
# The attempts table

`PgAttemptRepo.append` under the ticks of one engine. The table has a serial primary key and
no other constraint: `ON CONFLICT DO NOTHING` never applies, and an attempt that is reported
twice has two rows. `_quarantine` reports its attempt to `append_attempt` and again to
`mark_dead`.

* `rows_append`: every `append` adds a row;
* `step_reports`: what a step adds to the table;
* `one_row_iff`: the runs after which no attempt has two rows.
-/

namespace WebhookEngine.AttemptRows

open Lib Lib.Run Dispatcher Stores Stores.Queue Engine LostReplies Stores.Pg

/-! ## The table -/

structure AttemptRow where
  id : Nat
  deliveryId : DeliveryId
  attempt : Nat
  attemptedAt : Datetime
  httpCode : Option Int
  durationMs : Int
  error : Option String
  responseSnippet : String
  deriving DecidableEq, Repr

def AttemptRow.pair (row : AttemptRow) : DeliveryId × Nat := (row.deliveryId, row.attempt)

/-- The rows, and the next value of the sequence behind `BIGSERIAL`. -/
structure AttemptTable where
  rows : Table AttemptRow.id
  nextId : Nat
  below : ∀ row ∈ rows.rows, row.id < nextId

def AttemptTable.empty : AttemptTable := ⟨.empty, 1, List.forall_mem_nil _⟩

def attemptRow (serial : Nat) (id : DeliveryId) (a : AttemptRecord) : AttemptRow where
  id := serial
  deliveryId := id
  attempt := a.attempt
  attemptedAt := a.attemptedAt
  httpCode := a.httpCode
  durationMs := a.durationMs
  error := a.error
  responseSnippet := a.responseSnippet

/-- `PgAttemptRepo.append`: an insert that does nothing on a conflict. -/
def append (t : AttemptTable) (id : DeliveryId) (a : AttemptRecord) : AttemptTable where
  rows := t.rows.insert (attemptRow t.nextId id a)
  nextId := t.nextId + 1
  below row hrow := by
    rcases Table.mem_insert hrow with hrow | rfl
    · exact Nat.lt_succ_of_lt (t.below row hrow)
    · exact Nat.lt_succ_self t.nextId

/-- There is no conflict. -/
theorem rows_append (t : AttemptTable) (id : DeliveryId) (a : AttemptRecord) :
    (append t id a).rows.rows = t.rows.rows ++ [attemptRow t.nextId id a] := by
  have hnew : t.rows.find? t.nextId = none := by
    rw [Table.find?_eq_none]
    intro hmem
    obtain ⟨row, hrow, hid⟩ := List.mem_map.mp hmem
    exact (t.below row hrow).ne hid
  refine (Table.rows_insert t.rows (attemptRow t.nextId id a)).trans (if_neg ?_)
  rw [attemptRow, hnew]
  exact Bool.false_ne_true

/-- The table after the appends of a store. -/
def attemptTable (s : PgWebhookDeliveryStore) : AttemptTable :=
  s.attempts.foldl (fun t x => append t x.1 x.2) .empty

/-- The pairs `(delivery_id, attempt)` of the table. -/
def pairs (s : PgWebhookDeliveryStore) : List (DeliveryId × Nat) :=
  (attemptTable s).rows.rows.map AttemptRow.pair

/-- At most one row for each pair. -/
def OneRowEach (s : PgWebhookDeliveryStore) : Prop :=
  ∀ id n, (attemptTable s).rows.rows.countP (fun row => row.pair = (id, n)) ≤ 1

theorem oneRowEach_iff (s : PgWebhookDeliveryStore) : OneRowEach s ↔ (pairs s).Nodup := by
  rw [OneRowEach, pairs, List.nodup_iff_count_le_one, Prod.forall]
  refine forall_congr' fun id => forall_congr' fun n => ?_
  rw [List.count, List.countP_map]
  exact iff_of_eq (congrArg (· ≤ 1) (List.countP_congr fun row _ => by simp))

theorem pairs_foldl (xs : List (DeliveryId × AttemptRecord)) (t : AttemptTable) :
    (xs.foldl (fun t x => append t x.1 x.2) t).rows.rows.map AttemptRow.pair =
      t.rows.rows.map AttemptRow.pair ++ xs.map fun x => (x.1, x.2.attempt) := by
  induction xs generalizing t with
  | nil => exact (List.append_nil _).symm
  | cons x xs ih =>
    rw [List.foldl_cons, ih, rows_append, List.map_append, List.append_assoc]
    rfl

theorem pairs_eq (s : PgWebhookDeliveryStore) :
    pairs s = s.attempts.map fun x => (x.1, x.2.attempt) :=
  pairs_foldl s.attempts .empty

/-- A completion adds a row. -/
theorem pairs_report (s : PgWebhookDeliveryStore) (id : DeliveryId) (c : Completion)
    (a : AttemptRecord) : pairs (report s id c a) = pairs s ++ [(id, a.attempt)] := by
  rw [pairs_eq, pairs_eq, report, List.map_append]
  rfl

theorem pairs_congr {s s' : PgWebhookDeliveryStore} (h : s'.attempts = s.attempts) :
    pairs s' = pairs s := by
  rw [pairs_eq, pairs_eq, h]

theorem attempts_claimBatch {s s' : PgWebhookDeliveryStore} {now : Datetime} {ttl n : Nat}
    {ids : List DeliveryId} {rs : List DeliveryRecord}
    (h : claimBatch s now ttl n ids = some (rs, s')) : s'.attempts = s.attempts := by
  obtain ⟨-, h⟩ := Option.ite_none_right_eq_some.mp h
  cases h
  rfl

/-! ## What the table holds of a dispatch -/

/-- The row counts the attempt of this dispatch, and the table has it. -/
def Counted (s : PgWebhookDeliveryStore) (r : DeliveryRecord) (j : Job) : Prop :=
  j.attempts = r.attempts + 1 ∧ (r.deliveryId, r.attempts + 1) ∈ pairs s

/-- What is known of the delivery of a dispatch. -/
def Stands (s : PgWebhookDeliveryStore) (r : DeliveryRecord) (j : Job) : Phase → Prop
  | .raised => j.attempts = r.attempts ∨ Counted s r j
  | .burying a => a.attempt = r.attempts + 1 ∧ Counted s r j
  | _ => j.attempts = r.attempts

structure Invariant (s : PgWebhookDeliveryStore) (tasks : Table Task.id) : Prop where
  rows : ∀ id n, (id, n) ∈ pairs s → ∃ j, view s id = some j ∧ n ≤ j.attempts
  tasks : ∀ id t, tasks.find? id = some t → ∃ j, view s id = some j ∧ Stands s t.record j t.phase

variable {s s' : PgWebhookDeliveryStore} {r : DeliveryRecord} {j j' : Job} {phase : Phase}

theorem Stands.grow (h : Stands s r j phase) (hpairs : pairs s ⊆ pairs s')
    (hattempts : j'.attempts = j.attempts) : Stands s' r j' phase := by
  have hcounted : Counted s r j → Counted s' r j' := fun hc =>
    ⟨hattempts.trans hc.1, hpairs hc.2⟩
  cases phase with
  | raised => exact h.imp hattempts.trans hcounted
  | burying a => exact h.imp id hcounted
  | _ => exact hattempts.trans h

/-- The counter is at the record, or one further. -/
theorem Stands.cases (h : Stands s r j phase) : j.attempts = r.attempts ∨ Counted s r j := by
  cases phase with
  | raised => exact h
  | burying a => exact Or.inr h.2
  | _ => exact Or.inl h

variable {tasks : Table Task.id}

/-- The table has the attempt if and only if the row counts it. -/
theorem Invariant.mem_iff (h : Invariant s tasks) (hj : view s r.deliveryId = some j)
    (hstands : Stands s r j phase) :
    (r.deliveryId, r.attempts + 1) ∈ pairs s ↔ r.attempts < j.attempts := by
  constructor
  · intro hmem
    obtain ⟨j₀, hj₀, hle⟩ := h.rows _ _ hmem
    cases hj.symm.trans hj₀
    exact hle
  · intro hlt
    rcases hstands.cases with heq | hcounted
    · exact absurd heq hlt.ne'
    · exact hcounted.2

/-- A call that adds no row and keeps the counters. -/
theorem Invariant.keep (h : Invariant s tasks) (hpairs : pairs s' = pairs s)
    (hview : ∀ id j, view s id = some j → ∃ j', view s' id = some j' ∧ j'.attempts = j.attempts) :
    Invariant s' tasks where
  rows id n hmem := by
    obtain ⟨j, hj, hle⟩ := h.rows id n (hpairs ▸ hmem)
    obtain ⟨j', hj', hattempts⟩ := hview id j hj
    exact ⟨j', hj', hle.trans_eq hattempts.symm⟩
  tasks id t ht := by
    obtain ⟨j, hj, hstands⟩ := h.tasks id t ht
    obtain ⟨j', hj', hattempts⟩ := hview id j hj
    exact ⟨j', hj', hstands.grow (fun _ hx => hpairs.symm ▸ hx) hattempts⟩

theorem Invariant.idle (h : Invariant s tasks) : Invariant s Table.empty where
  rows := h.rows
  tasks _ _ ht := by cases ht

/-! ## The steps of a dispatch -/

variable {cfg : WebhookDispatchConfig} {py : Python} {d : WebhookDispatcher py} {now : Datetime}
  {a : TaskAction} {call : Option Call} {phase' : Option Phase}

/-- What a step of a dispatch reports, and where it goes on. -/
structure Follows (s : PgWebhookDeliveryStore) (r : DeliveryRecord) (j : Job)
    (call : Option Call) (phase' : Option Phase) : Prop where
  number : ∀ x, call = some x → x.2.attempt = r.attempts + 1
  silent : call = none → ∀ ph, phase' = some ph → Stands s r j ph
  told : call.isSome → ∀ ph, phase' = some ph → ∀ s' j', Counted s' r j' → Stands s' r j' ph

theorem stands_of_settle {ans : Answers} (h : phase = .sending ans ∨ phase = .posted ans)
    (hstands : Stands s r j phase) : j.attempts = r.attempts := by
  rcases h with rfl | rfl
  · exact hstands
  · exact hstands

theorem number_unhandled {error : String} {x : Call}
    (hx : some (Completion.append, unhandled r now error) = some x) :
    x.2.attempt = r.attempts + 1 :=
  (congrArg (fun x : Call => x.2.attempt) (Option.some.inj hx)).symm

/-- A step that makes no store call. -/
theorem Follows.of_silent (h : ∀ ph, phase' = some ph → Stands s r j ph) :
    Follows s r j none phase' where
  number _ hx := by cases hx
  silent _ := h
  told hsome := by cases hsome

/-- A store call that ends the dispatch. -/
theorem Follows.of_last (h : ∀ x, call = some x → x.2.attempt = r.attempts + 1) :
    Follows s r j call none where
  number := h
  silent _ _ hph := by cases hph
  told _ _ hph := by cases hph

theorem follows_of_moves (h : DispatchMoves cfg d r now phase a call phase')
    (hstands : Stands s r j phase) : Follows s r j call phase' := by
  cases h with
  | start ans =>
    refine .of_silent fun ph hph => ?_
    cases hph
    exact hstands
  | post ans =>
    refine .of_silent fun ph hph => ?_
    cases hph
    exact hstands
  | settled phase ans call hphase hsend =>
    refine .of_last fun x hx => ?_
    rw [← Option.some.inj hx]
    exact (send_transition hsend).attempt
  | raised phase ans ok hphase hraised =>
    refine .of_silent fun ph hph => ?_
    cases hph
    exact Or.inl (stands_of_settle hphase hstands)
  | exhausted error hlimit =>
    refine ⟨fun x hx => number_unhandled hx, (fun hnone => by cases hnone), ?_⟩
    intro _ ph hph s' j' hcounted
    cases hph
    exact ⟨rfl, hcounted⟩
  | left error hlimit => exact .of_last fun x hx => number_unhandled hx
  | appendRaised error => exact .of_silent fun ph hph => by cases hph
  | buried attempt => exact .of_last fun x hx => by rw [← Option.some.inj hx]; exact hstands.1
  | buryRaised attempt => exact .of_silent fun ph hph => by cases hph

/-- A call that takes effect and raises goes on as one that raises. -/
theorem follows_of_lost {returns raises : TaskAction} {call' : Option Call}
    {phase₁ phase₂ : Option Phase} (hreturns : withReply true a = some returns)
    (hraises : withReply false a = some raises)
    (h₁ : DispatchMoves cfg d r now phase returns call phase₁)
    (h₂ : DispatchMoves cfg d r now phase raises call' phase₂)
    (hstands : Stands s r j phase) : Follows s r j call phase₂ := by
  have hsilent : call' = none := by
    cases a <;> cases hraises <;> cases h₂ <;> rfl
  subst hsilent
  have hfollows := follows_of_moves h₂ hstands
  refine ⟨(follows_of_moves h₁ hstands).number, fun _ => hfollows.silent rfl, ?_⟩
  intro _ ph hph s' j' hcounted
  subst hph
  cases a with
  | start ans => cases hraises
  | post => cases hraises
  | settle ok =>
    cases hraises
    cases h₂
    exact Or.inr hcounted
  | append error ok =>
    cases hraises
    cases h₂
  | bury ok =>
    cases hraises
    cases h₂

theorem view_settled {id : DeliveryId} (c : Completion) (attempt : AttemptRecord)
    (hj : view s id = some j) :
    ∃ j', view (report s id c attempt) id = some j' ∧ j'.attempts = attempt.attempt := by
  refine ⟨c.settle counter attempt.attempt j, ?_, settle_attempts counter c attempt.attempt j⟩
  rw [view_report, if_pos rfl, hj, Option.map_some]

/-- A step of a dispatch with a store call. -/
theorem Invariant.reported {id : DeliveryId} {t : Task} {c : Completion} {attempt : AttemptRecord}
    (h : Invariant s tasks) (ht : tasks.find? id = some t) (hj : view s id = some j)
    (hstands : Stands s t.record j t.phase)
    (hfollows : Follows s t.record j (some (c, attempt)) phase') :
    Invariant (report s id c attempt) (setTask tasks id phase') := by
  have hnumber : attempt.attempt = t.record.attempts + 1 := hfollows.number _ rfl
  have hkey : t.record.deliveryId = id := show t.id = id from Table.find?_key ht
  obtain ⟨j', hj', hattempts⟩ := view_settled c attempt hj
  have hother : ∀ id' ≠ id, view (report s id c attempt) id' = view s id' := fun id' hne => by
    rw [view_report, if_neg hne]
  have hpairs := pairs_report s id c attempt
  have hgrows : pairs s ⊆ pairs (report s id c attempt) := by
    rw [hpairs]
    exact List.subset_append_left ..
  constructor
  · intro id' n hmem
    rw [hpairs, List.mem_append, List.mem_singleton, Prod.mk.injEq] at hmem
    by_cases hid : id' = id
    · subst hid
      refine ⟨j', hj', ?_⟩
      rcases hmem with hmem | ⟨-, rfl⟩
      · obtain ⟨j₀, hj₀, hle⟩ := h.rows id' n hmem
        cases hj.symm.trans hj₀
        have hbound : j.attempts ≤ t.record.attempts + 1 := by
          rcases hstands.cases with heq | hcounted
          · exact heq.le.trans (Nat.le_succ _)
          · exact hcounted.1.le
        exact (hle.trans hbound).trans_eq (hattempts.trans hnumber).symm
      · exact hattempts.ge
    · rw [hother id' hid]
      exact h.rows id' n (hmem.resolve_right fun hnew => hid hnew.1)
  · intro id' u hu
    rw [find?_setTask ht] at hu
    split at hu
    case isTrue hid =>
      subst hid
      obtain ⟨ph, hph, rfl⟩ := Option.map_eq_some_iff.mp hu
      refine ⟨j', hj', hfollows.told rfl ph hph _ j' ⟨hattempts.trans hnumber, ?_⟩⟩
      rw [hkey, hpairs, ← hnumber]
      exact List.mem_append_right _ (List.mem_singleton_self _)
    case isFalse hid =>
      obtain ⟨j₀, hj₀, hstands₀⟩ := h.tasks id' u hu
      exact ⟨j₀, (hother id' hid).trans hj₀, hstands₀.grow hgrows rfl⟩

/-- A step of a dispatch without one. -/
theorem Invariant.advance {id : DeliveryId} {t : Task} (h : Invariant s tasks)
    (ht : tasks.find? id = some t) (hj : view s id = some j)
    (hfollows : Follows s t.record j none phase') : Invariant s (setTask tasks id phase') where
  rows := h.rows
  tasks id' u hu := by
    rw [find?_setTask ht] at hu
    split at hu
    case isTrue hid =>
      subst hid
      obtain ⟨ph, hph, rfl⟩ := Option.map_eq_some_iff.mp hu
      exact ⟨j, hj, hfollows.silent rfl ph hph⟩
    case isFalse => exact h.tasks id' u hu

/-! ## Steps and runs -/

abbrev pg : LeaseQueue := pgQueue.toLeaseQueue

/-- The step of a dispatch that a label is about. -/
def action : LostReplies.Label Unit → Option TaskAction
  | .engine (.act _ _ (.task _ a)) => some a
  | .lost _ _ _ a => some a
  | _ => none

/-- A call of `_quarantine` for an attempt that the row has counted: `mark_dead` comes after
`append_attempt`, and `append_attempt` may come after a call of `send`. -/
def recounts (r : DeliveryRecord) (j : Job) : TaskAction → Bool
  | .bury _ => true
  | .append .. => r.attempts < j.attempts
  | _ => false

/-- Such a call takes effect. -/
def Repeats (cfg : WebhookDispatchConfig) (d : WebhookDispatcher py) (w : World pg Unit)
    (l : LostReplies.Label Unit) : Prop :=
  (effective cfg d w l).any (fun x => (view w.store x.1.deliveryId).any fun j =>
    (action l).any (recounts x.1 j)) = true

instance (cfg : WebhookDispatchConfig) (d : WebhookDispatcher py) (w : World pg Unit)
    (l : LostReplies.Label Unit) : Decidable (Repeats cfg d w l) := by
  unfold Repeats
  infer_instance

theorem recounts_iff {x : Call} (h : DispatchMoves cfg d r now phase a (some x) phase')
    (hstands : Stands s r j phase) : recounts r j a = true ↔ r.attempts < j.attempts := by
  cases h with
  | settled phase ans call hphase hsend =>
    exact iff_of_false Bool.false_ne_true (stands_of_settle hphase hstands).le.not_gt
  | exhausted error hlimit => exact decide_eq_true_iff
  | left error hlimit => exact decide_eq_true_iff
  | buried attempt =>
    refine iff_of_true rfl ?_
    rw [hstands.2.1]
    exact Nat.lt_succ_self _

/-- A step of a dispatch: the invariant, and what is left of the table's uniqueness. -/
theorem dispatch_reports {id : DeliveryId} {t : Task} {phase₁ : Option Phase}
    (h : Invariant s tasks) (ht : tasks.find? id = some t)
    (hmoves : DispatchMoves cfg d t.record now t.phase a call phase₁)
    (hfollows : ∀ j, Stands s t.record j t.phase → Follows s t.record j call phase')
    (hcall : execute pg s id call = some s') :
    Invariant s' (setTask tasks id phase') ∧ ((pairs s').Nodup ↔ (pairs s).Nodup ∧
      ¬call.any (fun _ =>
        (view s t.record.deliveryId).any fun j => recounts t.record j a) = true) := by
  obtain ⟨j, hj, hstands⟩ := h.tasks id t ht
  cases call with
  | none =>
    cases hcall
    exact ⟨h.advance ht hj (hfollows j hstands), (and_iff_left nofun).symm⟩
  | some x =>
    obtain ⟨c, attempt⟩ := x
    rw [eq_of_complete hcall]
    have hnumber : attempt.attempt = t.record.attempts + 1 := (hfollows j hstands).number _ rfl
    have hkey : t.record.deliveryId = id := show t.id = id from Table.find?_key ht
    refine ⟨h.reported ht hj hstands (hfollows j hstands), ?_⟩
    rw [pairs_report, List.nodup_append_comm, List.singleton_append, List.nodup_cons, and_comm,
      Option.any_some, hkey, hj, Option.any_some, recounts_iff hmoves hstands, hnumber, ← hkey]
    rw [← hkey] at hj
    rw [h.mem_iff hj hstands]

/-- A step without a dispatch adds no row. -/
theorem quiet_reports {w : World pg Unit} {l : LostReplies.Label Unit}
    (hpairs : pairs s' = pairs w.store) (hl : effective cfg d w l = none) :
    (pairs s').Nodup ↔ (pairs w.store).Nodup ∧ ¬Repeats cfg d w l := by
  rw [hpairs, Repeats, hl, Option.any_none]
  exact (and_iff_left Bool.false_ne_true).symm

theorem Invariant.claim {rs : List DeliveryRecord} {ttl n : Nat} {ids : List DeliveryId}
    (h : Invariant s tasks) (hclaim : claimBatch s now ttl n ids = some (rs, s')) :
    Invariant s' (waitingTasks rs) where
  rows := by
    have hkept : Invariant s' tasks := h.keep (pairs_congr (attempts_claimBatch hclaim))
      fun id j hj => by
        obtain ⟨j', hj', hattempts, -⟩ := pg.claim_present hclaim hj
        exact ⟨j', hj', hattempts⟩
    exact hkept.rows
  tasks id t ht := by
    rw [find?_waitingTasks] at ht
    obtain ⟨r, hr, rfl⟩ := Option.map_eq_some_iff.mp ht
    obtain ⟨-, hin, -⟩ := pg.view_claim s now ttl n ids rs s' hclaim
    obtain ⟨j, e, -, -, hattempts, -, hj⟩ := hin r (List.mem_of_find?_eq_some hr)
    have hid : r.deliveryId = id := by simpa using List.find?_some hr
    subst hid
    exact ⟨{ j with status := .inFlight, lease := some e }, hj, hattempts.symm⟩

theorem Invariant.enqueue (h : Invariant s tasks) (rs : List DeliveryRecord) :
    Invariant (insertRows s rs) tasks :=
  h.keep (pairs_congr rfl) fun id j hj => by
    rw [view_insertRows, hj]
    exact ⟨j, rfl, rfl⟩

theorem Invariant.reclaim (h : Invariant s tasks) (now : Datetime) :
    Invariant (reclaimStale s now).2 tasks :=
  h.keep (pairs_congr rfl) fun id j hj => by
    obtain ⟨j', hj', hattempts, -⟩ := pg.reclaim_present s now hj
    exact ⟨j', hj', hattempts⟩

/-- What holds between the steps of the engine. -/
def Good (w : World pg Unit) : Prop := Invariant w.store (w.ticks ()).inflight

theorem good_update {w : World pg Unit} {i : Unit} {tk : Tick} {log : Log}
    (h : Invariant s tk.inflight) : Good ⟨s, Function.update w.ticks i tk, w.enqueued, log⟩ := by
  cases i
  show Invariant s (Function.update w.ticks () tk ()).inflight
  rw [Function.update_self]
  exact h

theorem engine_reports {w w' : World pg Unit} {l : Engine.Label Unit} (hinv : Good w)
    (h : Engine.step pg cfg d w l = some w') :
    Good w' ∧ ((pairs w'.store).Nodup ↔ (pairs w.store).Nodup ∧ ¬Repeats cfg d w (.engine l)) := by
  cases l with
  | enqueue rs =>
    obtain ⟨-, h⟩ := Option.ite_none_right_eq_some.mp h
    obtain ⟨s, hs, rfl⟩ := Option.map_eq_some_iff.mp h
    obtain rfl := eq_of_enqueueMany hs
    exact ⟨hinv.enqueue rs, quiet_reports (pairs_congr rfl) rfl⟩
  | act i now a =>
    obtain ⟨⟨s, tk, log⟩, hs, rfl⟩ := Option.map_eq_some_iff.mp h
    have hinv : Invariant w.store (w.ticks i).inflight := hinv
    generalize htick : w.ticks i = tk₀ at hinv hs
    cases tick_moves hs with
    | reclaim => exact ⟨good_update (hinv.reclaim now), quiet_reports (pairs_congr rfl) rfl⟩
    | reclaimRaised => exact ⟨good_update hinv, quiet_reports rfl rfl⟩
    | claim pick rs s hclaim =>
      exact ⟨good_update (hinv.claim hclaim),
        quiet_reports (pairs_congr (attempts_claimBatch hclaim)) rfl⟩
    | claimRaised pick => exact ⟨good_update hinv, quiet_reports rfl rfl⟩
    | task tasks id a t call phase s ht hstep hcall =>
      have hmoves := dispatch_moves hstep
      obtain ⟨hkept, hrows⟩ := dispatch_reports hinv ht hmoves
        (fun j hstands => follows_of_moves hmoves hstands) hcall
      refine ⟨good_update hkept, hrows.trans (and_congr_right fun _ => not_congr ?_)⟩
      have hfind : (w.ticks i).inflight.find? id = some t := by rw [htick]; exact ht
      rw [Repeats, effective, called_eq hfind hstep, Option.any_map]
      rfl
    | finish tasks hempty => exact ⟨good_update hinv.idle, quiet_reports rfl rfl⟩

theorem lost_reports {w w' : World pg Unit} {i : Unit} {now : Datetime} {id : DeliveryId}
    {a : TaskAction} (hinv : Good w) (h : lostStep cfg d w i now id a = some w') :
    Good w' ∧ ((pairs w'.store).Nodup ↔
      (pairs w.store).Nodup ∧ ¬Repeats cfg d w (.lost i now id a)) := by
  obtain ⟨tasks, t, returns, raises, call, phase, call', phase', s, htick, ht, hreturns, hraises,
    hx, hy, hs, rfl⟩ := lost_moves h
  have hinv : Invariant w.store (w.ticks i).inflight := hinv
  rw [htick] at hinv
  have hmoves := dispatch_moves hx
  obtain ⟨hkept, hrows⟩ := dispatch_reports hinv ht hmoves
    (fun j hstands => follows_of_lost hreturns hraises hmoves (dispatch_moves hy) hstands) hs
  refine ⟨good_update hkept, hrows.trans (and_congr_right fun _ => not_congr ?_)⟩
  have hfind : (w.ticks i).inflight.find? id = some t := by rw [htick]; exact ht
  have hsame : ∀ j, recounts t.record j returns = recounts t.record j a := fun j => by
    cases a <;> cases hreturns <;> rfl
  rw [Repeats, effective, hreturns, Option.bind_some, called_eq hfind hx, Option.any_map]
  simp only [hsame]
  rfl

/-- **Step lemma.** -/
theorem step_reports {w w' : World pg Unit} {l : LostReplies.Label Unit} (hinv : Good w)
    (h : LostReplies.step pg cfg d w l = some w') :
    Good w' ∧ ((pairs w'.store).Nodup ↔ (pairs w.store).Nodup ∧ ¬Repeats cfg d w l) := by
  cases l with
  | engine l => exact engine_reports hinv h
  | lost i now id a => exact lost_reports hinv h

theorem good_init : Good (init pg Unit) where
  rows _ _ h := by cases h
  tasks _ _ h := by cases h

/-- **No attempt has two rows** after a run, if and only if no step of it repeats one. -/
theorem one_row_iff (cfg : WebhookDispatchConfig) (d : WebhookDispatcher py)
    (ls : List (LostReplies.Label Unit)) (w : World pg Unit)
    (h : run (LostReplies.step pg cfg d) (init pg Unit) ls = some w) :
    OneRowEach w.store ↔
      Along (LostReplies.step pg cfg d) (fun u l => ¬Repeats cfg d u l) (init pg Unit) ls := by
  have hlast := (last_iff_along (I := Good) (fun u l v hu hv => step_reports hu hv) good_init h).2
  exact (oneRowEach_iff w.store).trans (hlast.trans (and_iff_right List.nodup_nil))

theorem one_row_iff_two_tries : ∃ w,
    run (LostReplies.step pg {} exampleDispatcher) (init pg Unit)
      (Attempts.sentAtTheSecondTry.map .engine) = some w ∧
    pairs w.store = [("d", 1), ("d", 2)] ∧ OneRowEach w.store := by
  obtain ⟨w, hw, hpairs⟩ := (Option.any_eq_true ..).mp (by decide +kernel :
    (run (LostReplies.step pg {} exampleDispatcher) (init pg Unit)
      (Attempts.sentAtTheSecondTry.map .engine)).any (fun w =>
        decide (pairs w.store = [("d", 1), ("d", 2)])) = true)
  exact ⟨w, hw, of_decide_eq_true hpairs,
    (one_row_iff {} exampleDispatcher _ w hw).mpr (by decide +kernel)⟩

/-- The last dispatch of an unknown profile reports its attempt twice. -/
theorem two_rows_for_an_attempt : ∃ w,
    run (LostReplies.step pg Quarantine.twoAttempts exampleDispatcher) (init pg Unit)
      (Quarantine.raisedTwice.map .engine) = some w ∧
    pairs w.store = [("d", 1), ("d", 2), ("d", 2)] ∧ ¬OneRowEach w.store := by
  obtain ⟨w, hw, hpairs⟩ := (Option.any_eq_true ..).mp (by decide +kernel :
    (run (LostReplies.step pg Quarantine.twoAttempts exampleDispatcher) (init pg Unit)
      (Quarantine.raisedTwice.map .engine)).any (fun w =>
        decide (pairs w.store = [("d", 1), ("d", 2), ("d", 2)])) = true)
  have hpairs := of_decide_eq_true hpairs
  refine ⟨w, hw, hpairs, fun hrows => ?_⟩
  have hnodup : (pairs w.store).Nodup := (oneRowEach_iff w.store).mp hrows
  rw [hpairs] at hnodup
  exact absurd hnodup (by decide)

end WebhookEngine.AttemptRows
