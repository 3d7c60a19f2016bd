import Mathlib.Logic.Function.Basic
import WebhookEngine.Lib.Run

/-!
# Transactions with row locks

Transactions at READ COMMITTED over rows with a key. A statement sees the newest
committed version of the rows it locks, can lock a row only while no other
transaction holds it, and writes new versions that nobody else sees before the commit.
The locks are held to commit or abort. What the statements of a transaction are is a
`Program`; its state `π` is all the transaction remembers between two statements.

The table `owner` gives each row one holder at most, so mutual exclusion needs no proof.

* `rows_of_step`: a committed row changes only with the commit of its holder;
* `known_run`: what a transaction knows of a row it holds stays true of the newest
  committed version;
* `prog_run`: what the statements keep of a transaction's own state;
* `owner_active_run`: only transactions that go on hold locks;
* `finished_run`: a finished transaction stays as it is;
* `erased_run`: a transaction that does not commit leaves no trace.
-/

namespace Lib.RowLocks

variable {κ ρ τ π ℓ : Type} [DecidableEq κ] [DecidableEq τ]

/-- What a statement does: the rows it locks, the versions it writes, and the state
of the transaction after it. -/
structure Effect (κ ρ π : Type) where
  locks : List κ := []
  writes : List (κ × ρ) := []
  next : π

def Effect.keys (e : Effect κ ρ π) : List κ := e.locks ++ e.writes.map (·.1)

/-- The states a transaction may begin in, its statements, and whether all are done. A
statement is `none` when it is not the next, or would not act like this on the rows. -/
structure Program (κ ρ π ℓ : Type) where
  initial : π → Bool
  statement : π → ℓ → (κ → Option ρ) → Option (Effect κ ρ π)
  complete : π → Bool

inductive Tx (κ ρ π : Type) where
  | fresh
  | active (prog : π) (writes : List (κ × ρ))
  | committed (prog : π)
  | aborted
  deriving DecidableEq

/-- The newest committed versions, the holders of the row locks, the transactions. -/
structure State (κ ρ τ π : Type) where
  rows : κ → Option ρ
  owner : κ → Option τ
  tx : τ → Tx κ ρ π

def start (rows : κ → Option ρ) : State κ ρ τ π := ⟨rows, fun _ => none, fun _ => .fresh⟩

inductive Label (τ π ℓ : Type) where
  | begin (t : τ) (prog : π)
  | exec (t : τ) (l : ℓ)
  | commit (t : τ)
  | abort (t : τ)

def Label.tx : Label τ π ℓ → τ
  | .begin t _ | .exec t _ | .commit t | .abort t => t

/-- The rows once the writes, newest first, are committed. -/
def overlay (writes : List (κ × ρ)) (rows : κ → Option ρ) (k : κ) : Option ρ :=
  ((writes.find? fun x => x.1 = k).map (·.2)).or (rows k)

def lockAll (owner : κ → Option τ) (t : τ) (keys : List κ) (k : κ) : Option τ :=
  if k ∈ keys then some t else owner k

def release (owner : κ → Option τ) (t : τ) (k : κ) : Option τ :=
  if owner k = some t then none else owner k

/-- No other transaction holds the row. -/
def free (owner : κ → Option τ) (t : τ) (k : κ) : Bool :=
  (owner k).all fun u => decide (u = t)

def step (p : Program κ ρ π ℓ) (s : State κ ρ τ π) : Label τ π ℓ → Option (State κ ρ τ π)
  | .begin t prog =>
    match s.tx t with
    | .fresh =>
      if p.initial prog then some { s with tx := Function.update s.tx t (.active prog []) }
      else none
    | _ => none
  | .exec t l =>
    match s.tx t with
    | .active prog writes =>
      (p.statement prog l s.rows).bind fun e =>
        if e.keys.all (free s.owner t) then
          some { s with
            owner := lockAll s.owner t e.keys
            tx := Function.update s.tx t (.active e.next (e.writes ++ writes)) }
        else none
    | _ => none
  | .commit t =>
    match s.tx t with
    | .active prog writes =>
      if p.complete prog then
        some
          { rows := overlay writes s.rows
            owner := release s.owner t
            tx := Function.update s.tx t (.committed prog) }
      else none
    | _ => none
  | .abort t =>
    match s.tx t with
    | .active _ _ =>
      some { s with owner := release s.owner t, tx := Function.update s.tx t .aborted }
    | _ => none

/-! ## Steps -/

variable {p : Program κ ρ π ℓ}

/-- What a step can do. -/
inductive Moves (p : Program κ ρ π ℓ) (s : State κ ρ τ π) :
    Label τ π ℓ → State κ ρ τ π → Prop where
  | begin (t : τ) (prog : π) (ht : s.tx t = .fresh) (hinitial : p.initial prog = true) :
      Moves p s (.begin t prog) { s with tx := Function.update s.tx t (.active prog []) }
  | exec (t : τ) (l : ℓ) (prog : π) (writes : List (κ × ρ)) (e : Effect κ ρ π)
      (ht : s.tx t = .active prog writes) (he : p.statement prog l s.rows = some e)
      (hfree : ∀ k ∈ e.keys, free s.owner t k = true) :
      Moves p s (.exec t l)
        { s with
          owner := lockAll s.owner t e.keys
          tx := Function.update s.tx t (.active e.next (e.writes ++ writes)) }
  | commit (t : τ) (prog : π) (writes : List (κ × ρ)) (ht : s.tx t = .active prog writes)
      (hcomplete : p.complete prog = true) :
      Moves p s (.commit t)
        { rows := overlay writes s.rows
          owner := release s.owner t
          tx := Function.update s.tx t (.committed prog) }
  | abort (t : τ) (prog : π) (writes : List (κ × ρ)) (ht : s.tx t = .active prog writes) :
      Moves p s (.abort t)
        { s with owner := release s.owner t, tx := Function.update s.tx t .aborted }

theorem moves_iff {s s' : State κ ρ τ π} {l : Label τ π ℓ} :
    step p s l = some s' ↔ Moves p s l s' := by
  constructor
  · intro h
    rw [step.eq_def] at h
    split at h
    · split at h
      next ht =>
        obtain ⟨hinitial, h⟩ := Option.ite_none_right_eq_some.mp h
        cases h
        exact .begin _ _ ht hinitial
      · cases h
    · split at h
      next ht =>
        obtain ⟨e, he, h⟩ := Option.bind_eq_some_iff.mp h
        obtain ⟨hfree, h⟩ := Option.ite_none_right_eq_some.mp h
        cases h
        exact .exec _ _ _ _ e ht he (List.all_eq_true.mp hfree)
      · cases h
    · split at h
      next ht =>
        obtain ⟨hcomplete, h⟩ := Option.ite_none_right_eq_some.mp h
        cases h
        exact .commit _ _ _ ht hcomplete
      · cases h
    · split at h
      next ht =>
        cases h
        exact .abort _ _ _ ht
      · cases h
  · intro h
    cases h with
    | begin t prog ht hinitial => simp only [step, ht, hinitial, if_true]
    | exec t l prog writes e ht he hfree =>
      simp only [step, ht, he, Option.bind_some, List.all_eq_true.mpr hfree, if_true]
    | commit t prog writes ht hcomplete => simp only [step, ht, hcomplete, if_true]
    | abort t prog writes ht => simp only [step, ht]

/-! ## Locks -/

omit [DecidableEq κ] in
theorem free_iff {owner : κ → Option τ} {t : τ} {k : κ} :
    free owner t k = true ↔ ∀ u, owner k = some u → u = t := by
  rw [free]
  cases owner k with
  | none => simp
  | some u => simp

omit [DecidableEq κ] in
theorem mem_keys_of_mem_writes {e : Effect κ ρ π} {x : κ × ρ} (hx : x ∈ e.writes) :
    x.1 ∈ e.keys :=
  List.mem_append_right _ (List.mem_map_of_mem hx)

omit [DecidableEq τ] in
theorem lockAll_of_mem {owner : κ → Option τ} {t : τ} {keys : List κ} {k : κ} (hk : k ∈ keys) :
    lockAll owner t keys k = some t := if_pos hk

/-- A lock that is held survives the statements of all transactions. -/
theorem lockAll_of_held {owner : κ → Option τ} {t u : τ} {keys : List κ} {k : κ}
    (hfree : ∀ k ∈ keys, free owner t k = true) (hu : owner k = some u) :
    lockAll owner t keys k = some u := by
  rw [lockAll]
  split
  case isTrue hk => rw [free_iff.mp (hfree k hk) u hu]
  case isFalse => exact hu

omit [DecidableEq κ] in
theorem release_of_held {owner : κ → Option τ} {t u : τ} {k : κ} (hu : owner k = some u)
    (hne : u ≠ t) : release owner t k = some u := by
  rw [release, if_neg, hu]
  rw [hu, Option.some_inj]
  exact hne

omit [DecidableEq τ] in
theorem owner_of_lockAll {owner : κ → Option τ} {t u : τ} {keys : List κ} {k : κ}
    (h : lockAll owner t keys k = some u) : u = t ∨ owner k = some u := by
  rw [lockAll] at h
  split at h
  · exact Or.inl (Option.some_inj.mp h).symm
  · exact Or.inr h

omit [DecidableEq κ] in
theorem owner_of_release {owner : κ → Option τ} {t u : τ} {k : κ}
    (h : release owner t k = some u) : owner k = some u ∧ u ≠ t := by
  rw [release] at h
  split at h
  case isTrue => cases h
  case isFalse hk =>
    refine ⟨h, ?_⟩
    rintro rfl
    exact hk h

theorem overlay_of_mem {writes : List (κ × ρ)} {k : κ} (hk : k ∈ writes.map (·.1))
    (rows : κ → Option ρ) : ∃ v, (k, v) ∈ writes ∧ overlay writes rows k = some v := by
  rw [overlay]
  cases hf : writes.find? fun x => x.1 = k with
  | none =>
    obtain ⟨x, hx, rfl⟩ := List.mem_map.mp hk
    simpa using List.find?_eq_none.mp hf x hx
  | some x =>
    have hkey : x.1 = k := by simpa using List.find?_some hf
    refine ⟨x.2, ?_, rfl⟩
    rw [← hkey]
    exact List.mem_of_find?_eq_some hf

/-- The committed version of a row after an overlay: one of the writes, or the old one. -/
theorem overlay_cases (writes : List (κ × ρ)) (rows : κ → Option ρ) (k : κ) :
    overlay writes rows k = rows k ∨ ∃ v, (k, v) ∈ writes ∧ overlay writes rows k = some v := by
  by_cases hk : k ∈ writes.map (·.1)
  · exact Or.inr (overlay_of_mem hk rows)
  · left
    have hnone : (writes.find? fun x => x.1 = k) = none := by
      rw [List.find?_eq_none]
      intro x hx he
      exact hk (List.mem_map.mpr ⟨x, hx, by simpa using he⟩)
    rw [overlay, hnone, Option.map_none, Option.none_or]

/-! ## Committed rows -/

/-- A transaction holds the rows it has written. -/
def Held (s : State κ ρ τ π) : Prop :=
  ∀ t prog writes, s.tx t = .active prog writes → ∀ x ∈ writes, s.owner x.1 = some t

/-- The transactions that the step is not about. -/
theorem tx_of_step {s s' : State κ ρ τ π} {l : Label τ π ℓ} (h : Moves p s l s') {u : τ}
    (hu : u ≠ l.tx) : s'.tx u = s.tx u := by
  cases h <;> exact Function.update_of_ne hu ..

/-- The locks of the transactions that the step is not about. -/
theorem owner_of_step {s s' : State κ ρ τ π} {l : Label τ π ℓ} (h : Moves p s l s') {u : τ}
    {k : κ} (hk : s.owner k = some u) (hu : u ≠ l.tx) : s'.owner k = some u := by
  cases h with
  | begin t prog ht hinitial => exact hk
  | exec t l prog writes e ht he hfree => exact lockAll_of_held hfree hk
  | commit t prog writes ht hcomplete => exact release_of_held hk hu
  | abort t prog writes ht => exact release_of_held hk hu

/-- What the step leaves of the transaction it is about, if that goes on. -/
theorem active_of_step {s s' : State κ ρ τ π} {l : Label τ π ℓ} (h : Moves p s l s') {prog : π}
    {writes : List (κ × ρ)} (ht : s'.tx l.tx = .active prog writes) :
    (p.initial prog = true ∧ writes = []) ∨ ∃ st prog₀ writes₀ e,
      l = .exec l.tx st ∧ s.tx l.tx = .active prog₀ writes₀ ∧ p.statement prog₀ st s.rows = some e ∧
      (∀ k ∈ e.keys, free s.owner l.tx k = true) ∧ prog = e.next ∧ writes = e.writes ++ writes₀ ∧
      s'.owner = lockAll s.owner l.tx e.keys := by
  cases h with
  | begin t prog ht' hinitial =>
    cases (Function.update_self ..).symm.trans ht
    exact Or.inl ⟨hinitial, rfl⟩
  | exec t st prog₀ writes₀ e ht' he hfree =>
    cases (Function.update_self ..).symm.trans ht
    exact Or.inr ⟨st, prog₀, writes₀, e, rfl, ht', he, hfree, rfl, rfl, rfl⟩
  | commit t prog ht' hcomplete => cases (Function.update_self ..).symm.trans ht
  | abort t prog writes ht' => cases (Function.update_self ..).symm.trans ht

theorem held_step {s s' : State κ ρ τ π} {l : Label τ π ℓ} (hs : Held s) (h : Moves p s l s') :
    Held s' := by
  intro u prog writes hu x hx
  by_cases hul : u = l.tx
  · subst hul
    rcases active_of_step h hu with ⟨-, rfl⟩ |
      ⟨st, prog₀, writes₀, e, -, ht, -, hfree, -, rfl, ho⟩
    · cases hx
    · rw [ho]
      rcases List.mem_append.mp hx with hx | hx
      · exact lockAll_of_mem (mem_keys_of_mem_writes hx)
      · exact lockAll_of_held hfree (hs _ prog₀ writes₀ ht x hx)
  · rw [tx_of_step h hul] at hu
    exact owner_of_step h (hs u prog writes hu x hx) hul

/-- **Frame.** A committed row changes only when the transaction that holds it
commits a write to it. -/
theorem rows_of_step {s s' : State κ ρ τ π} {l : Label τ π ℓ} (hs : Held s) (h : Moves p s l s')
    (k : κ) : s'.rows k = s.rows k ∨ ∃ t prog writes v, l = .commit t ∧
      s.tx t = .active prog writes ∧ s'.tx t = .committed prog ∧ s.owner k = some t ∧
      (k, v) ∈ writes ∧ s'.rows k = some v := by
  cases h with
  | begin t prog ht hinitial => exact Or.inl rfl
  | exec t l prog writes e ht he hfree => exact Or.inl rfl
  | abort t prog writes ht => exact Or.inl rfl
  | commit t prog writes ht hcomplete =>
    rcases overlay_cases writes s.rows k with hsame | ⟨v, hv, hrow⟩
    · exact Or.inl hsame
    · exact Or.inr ⟨t, prog, writes, v, rfl, ht, Function.update_self ..,
        hs t prog writes ht (k, v) hv, hv, hrow⟩

/-! ## What a transaction knows -/

/-- A transaction holds the rows it is concerned with, `C`, and knows `F` of their
newest committed versions. -/
def Known (C : π → List (κ × ρ) → κ → Prop) (F : π → List (κ × ρ) → κ → Option ρ → Prop)
    (s : State κ ρ τ π) : Prop :=
  ∀ t prog writes, s.tx t = .active prog writes → ∀ k, C prog writes k →
    s.owner k = some t ∧ F prog writes k (s.rows k)

/-- The statements justify what is known: a statement concerns itself with a row it
locks or has locked, and knows what it knew or sees. -/
structure Learns (p : Program κ ρ π ℓ) (C : π → List (κ × ρ) → κ → Prop)
    (F : π → List (κ × ρ) → κ → Option ρ → Prop) : Prop where
  initial : ∀ prog k, p.initial prog = true → ¬ C prog [] k
  concern : ∀ prog writes st rows e k, p.statement prog st rows = some e →
    C e.next (e.writes ++ writes) k → k ∈ e.keys ∨ C prog writes k
  fact : ∀ prog writes st rows e k, p.statement prog st rows = some e →
    C e.next (e.writes ++ writes) k → (C prog writes k → F prog writes k (rows k)) →
    F e.next (e.writes ++ writes) k (rows k)

variable {C : π → List (κ × ρ) → κ → Prop} {F : π → List (κ × ρ) → κ → Option ρ → Prop}

theorem known_step (hp : Learns p C F) {s s' : State κ ρ τ π} {l : Label τ π ℓ} (hheld : Held s)
    (hs : Known C F s) (h : Moves p s l s') : Known C F s' := by
  intro u prog writes hu k hk
  by_cases hul : u = l.tx
  · subst hul
    rcases active_of_step h hu with ⟨hinitial, rfl⟩ |
      ⟨st, prog₀, writes₀, e, -, ht, he, hfree, rfl, rfl, ho⟩
    · exact absurd hk (hp.initial prog k hinitial)
    · have hrows : s'.rows k = s.rows k := by
        rcases rows_of_step hheld h k with hsame | ⟨t, prog, writes, v, rfl, -, hfinal, -⟩
        · exact hsame
        · rw [Label.tx, hfinal] at hu
          cases hu
      rw [ho, hrows]
      constructor
      · rcases hp.concern prog₀ writes₀ st s.rows e k he hk with hkey | hold
        · exact lockAll_of_mem hkey
        · exact lockAll_of_held hfree (hs _ prog₀ writes₀ ht k hold).1
      · exact hp.fact prog₀ writes₀ st s.rows e k he hk
          fun hold => (hs _ prog₀ writes₀ ht k hold).2
  · rw [tx_of_step h hul] at hu
    obtain ⟨howner, hold⟩ := hs u prog writes hu k hk
    refine ⟨owner_of_step h howner hul, ?_⟩
    rcases rows_of_step hheld h k with hsame | ⟨t, _, _, v, rfl, -, -, howner', -⟩
    · rwa [hsame]
    · rw [howner] at howner'
      exact absurd (Option.some_inj.mp howner') hul

/-- Both hold in every state of every run. -/
theorem known_run (hp : Learns p C F) {rows : κ → Option ρ} {as : List (Label τ π ℓ)}
    {s : State κ ρ τ π} (h : Run.run (step p) (start rows) as = some s) : Held s ∧ Known C F s := by
  refine Run.run_invariant (I := fun s => Held s ∧ Known C F s)
    (fun _ _ _ hs hstep => ⟨held_step hs.1 (moves_iff.mp hstep),
      known_step hp hs.1 hs.2 (moves_iff.mp hstep)⟩) ⟨?_, ?_⟩ h
  · intro t prog writes ht
    cases ht
  · intro t prog writes ht
    cases ht

/-! ## Transactions by themselves -/

/-- The transaction has begun and goes on. -/
def Tx.isActive : Tx κ ρ π → Bool
  | .active _ _ => true
  | _ => false

/-- The state of a transaction that goes on or has committed. -/
def Tx.prog : Tx κ ρ π → Option π
  | .active prog _ | .committed prog => some prog
  | _ => none

omit [DecidableEq κ] in
theorem update_tx (f : τ → Tx κ ρ π) (t : τ) (x : Tx κ ρ π) : Function.update f t x t = x :=
  Function.update_self ..

theorem prog_step {P : π → Prop} (hinitial : ∀ prog, p.initial prog = true → P prog)
    (hstatement : ∀ prog st rows e, P prog → p.statement prog st rows = some e → P e.next)
    {s s' : State κ ρ τ π} {l : Label τ π ℓ} (hs : ∀ t prog, (s.tx t).prog = some prog → P prog)
    (h : Moves p s l s') {t : τ} {prog : π} (ht : (s'.tx t).prog = some prog) : P prog := by
  by_cases htl : t = l.tx
  · subst htl
    cases h with
    | begin t prog₀ ht' hprog =>
      cases (congrArg Tx.prog (update_tx ..)).symm.trans ht
      exact hinitial _ hprog
    | exec t st prog₀ writes e ht' he hfree =>
      cases (congrArg Tx.prog (update_tx ..)).symm.trans ht
      exact hstatement prog₀ st s.rows e (hs t prog₀ (by rw [ht']; rfl)) he
    | commit t prog₀ writes ht' hcomplete =>
      cases (congrArg Tx.prog (update_tx ..)).symm.trans ht
      exact hs t _ (by rw [ht']; rfl)
    | abort t prog₀ writes ht' =>
      cases (congrArg Tx.prog (update_tx ..)).symm.trans ht
  · rw [tx_of_step h htl] at ht
    exact hs t prog ht

/-- What the initial states of a transaction have, and its statements keep, holds of every
transaction that goes on or has committed. -/
theorem prog_run {P : π → Prop} (hinitial : ∀ prog, p.initial prog = true → P prog)
    (hstatement : ∀ prog st rows e, P prog → p.statement prog st rows = some e → P e.next)
    {rows : κ → Option ρ} {as : List (Label τ π ℓ)} {s : State κ ρ τ π}
    (h : Run.run (step p) (start rows) as = some s) :
    ∀ t prog, (s.tx t).prog = some prog → P prog := by
  refine Run.run_invariant (I := fun s => ∀ t prog, (s.tx t).prog = some prog → P prog)
    (fun _ _ _ hs hstep _ _ => prog_step hinitial hstatement hs (moves_iff.mp hstep)) ?_ h
  intro t prog ht
  cases ht

/-- Who holds a lock goes on. -/
theorem owner_active_step {s s' : State κ ρ τ π} {l : Label τ π ℓ}
    (hs : ∀ k u, s.owner k = some u → (s.tx u).isActive = true) (h : Moves p s l s') {k : κ} {u : τ}
    (hu : s'.owner k = some u) : (s'.tx u).isActive = true := by
  by_cases hul : u = l.tx
  · subst hul
    cases h with
    | begin t prog ht hinitial => exact congrArg Tx.isActive (update_tx ..)
    | exec t st prog writes e ht he hfree => exact congrArg Tx.isActive (update_tx ..)
    | commit t prog writes ht hcomplete => exact absurd rfl (owner_of_release hu).2
    | abort t prog writes ht => exact absurd rfl (owner_of_release hu).2
  · rw [tx_of_step h hul]
    cases h with
    | begin t prog ht hinitial => exact hs k u hu
    | exec t st prog writes e ht he hfree => exact hs k u ((owner_of_lockAll hu).resolve_left hul)
    | commit t prog writes ht hcomplete => exact hs k u (owner_of_release hu).1
    | abort t prog writes ht => exact hs k u (owner_of_release hu).1

theorem owner_active_run {rows : κ → Option ρ} {as : List (Label τ π ℓ)} {s : State κ ρ τ π}
    (h : Run.run (step p) (start rows) as = some s) :
    ∀ k u, s.owner k = some u → (s.tx u).isActive = true := by
  refine Run.run_invariant (I := fun s => ∀ k u, s.owner k = some u → (s.tx u).isActive = true)
    (fun _ _ _ hs hstep _ _ => owner_active_step hs (moves_iff.mp hstep)) ?_ h
  intro k u hu
  cases hu

/-! ## Finished transactions -/

theorem commit_moves {s s' : State κ ρ τ π} {t : τ} (h : Moves p s (.commit t) s') :
    ∃ prog writes, s.tx t = .active prog writes ∧ p.complete prog = true ∧
      s'.tx t = .committed prog := by
  cases h with
  | commit t prog writes ht hcomplete =>
    exact ⟨prog, writes, ht, hcomplete, Function.update_self ..⟩

/-- Only its commit makes a transaction committed. -/
theorem committed_of_step {s s' : State κ ρ τ π} {l : Label τ π ℓ} (h : Moves p s l s') {prog : π}
    (ht : s'.tx l.tx = .committed prog) :
    l = .commit l.tx ∧ ∃ writes, s.tx l.tx = .active prog writes := by
  cases h with
  | begin t prog ht' hinitial => cases (Function.update_self ..).symm.trans ht
  | exec t l prog writes e ht' he hfree => cases (Function.update_self ..).symm.trans ht
  | commit t prog writes ht' hcomplete =>
    cases (Function.update_self ..).symm.trans ht
    exact ⟨rfl, writes, ht'⟩
  | abort t prog writes ht' => cases (Function.update_self ..).symm.trans ht

/-- Committed or aborted. -/
def Tx.finished : Tx κ ρ π → Bool
  | .committed _ | .aborted => true
  | _ => false

theorem finished_step {s s' : State κ ρ τ π} {l : Label τ π ℓ} (h : Moves p s l s') {t : τ}
    (ht : (s.tx t).finished = true) : s'.tx t = s.tx t := by
  apply tx_of_step h
  rintro rfl
  cases h with
  | begin t prog ht' hinitial => simp [Label.tx, ht', Tx.finished] at ht
  | exec t l prog writes e ht' he hfree => simp [Label.tx, ht', Tx.finished] at ht
  | commit t prog writes ht' hcomplete => simp [Label.tx, ht', Tx.finished] at ht
  | abort t prog writes ht' => simp [Label.tx, ht', Tx.finished] at ht

theorem finished_run {as : List (Label τ π ℓ)} {s s' : State κ ρ τ π} {t : τ}
    (ht : (s.tx t).finished = true) (h : Run.run (step p) s as = some s') :
    s'.tx t = s.tx t := by
  have hinv := Run.run_invariant (I := fun u => u.tx t = s.tx t)
    (fun u l v hu huv => (finished_step (moves_iff.mp huv) (hu ▸ ht)).trans hu) rfl h
  exact hinv

/-! ## Erasing a transaction -/

/-- `s'` is `s` without the transaction `t`. -/
structure Erased (t : τ) (s s' : State κ ρ τ π) : Prop where
  rows : s'.rows = s.rows
  owner : ∀ k, s'.owner k = release s.owner t k
  tx : ∀ u, u ≠ t → s'.tx u = s.tx u

omit [DecidableEq κ] in
theorem erased_start {rows : κ → Option ρ} (t : τ) :
    Erased t (start rows : State κ ρ τ π) (start rows) where
  rows := rfl
  owner k := by simp [start, release]
  tx _ _ := rfl

omit [DecidableEq κ] in
theorem free_release {owner : κ → Option τ} {t u : τ} {k : κ} (h : free owner u k = true) :
    free (release owner t) u k = true := by
  rw [free_iff] at h ⊢
  intro v hv
  rw [release] at hv
  split at hv
  · cases hv
  · exact h v hv

theorem release_lockAll_self {owner : κ → Option τ} {t : τ} {keys : List κ}
    (hfree : ∀ k ∈ keys, free owner t k = true) (k : κ) :
    release (lockAll owner t keys) t k = release owner t k := by
  by_cases hk : k ∈ keys
  · have hself := free_iff.mp (hfree k hk)
    cases ho : owner k with
    | none => simp [release, lockAll, hk, ho]
    | some u => simp [release, lockAll, hk, ho, hself u ho]
  · simp [release, lockAll, hk]

omit [DecidableEq κ] in
theorem release_release (owner : κ → Option τ) (t u : τ) (k : κ) :
    release (release owner t) u k = release (release owner u) t k := by
  simp only [release]
  split <;> split <;> simp_all

omit [DecidableEq κ] in
theorem release_self (owner : κ → Option τ) (t : τ) (k : κ) :
    release (release owner t) t k = release owner t k := by
  simp only [release]
  split <;> simp_all

theorem release_lockAll_other {owner : κ → Option τ} {t u : τ} (hu : u ≠ t) (keys : List κ)
    (k : κ) : release (lockAll owner u keys) t k = lockAll (release owner t) u keys k := by
  by_cases hk : k ∈ keys <;> simp [release, lockAll, hk, hu]

/-- A step of the erased transaction other than its commit. -/
theorem erased_step_self {t : τ} {s s₁ s' : State κ ρ τ π} {l : Label τ π ℓ} (he : Erased t s s')
    (h : Moves p s l s₁) (hl : l.tx = t) (hcommit : l ≠ .commit t) : Erased t s₁ s' := by
  subst hl
  refine ⟨?_, fun k => ?_, fun u hu => (he.tx u hu).trans (tx_of_step h hu).symm⟩
  · cases h with
    | commit t prog writes ht hcomplete => exact absurd rfl hcommit
    | _ => exact he.rows
  · rw [he.owner k]
    cases h with
    | begin t prog ht hinitial => rfl
    | exec t l prog writes e ht he' hfree => exact (release_lockAll_self hfree k).symm
    | commit t prog writes ht hcomplete => exact absurd rfl hcommit
    | abort t prog writes ht => exact (release_self s.owner t k).symm

/-- A step of another transaction. -/
theorem erased_step_other {t : τ} {s s₁ s' : State κ ρ τ π} {l : Label τ π ℓ} (he : Erased t s s')
    (h : Moves p s l s₁) (hl : l.tx ≠ t) : ∃ s₁', Moves p s' l s₁' ∧ Erased t s₁ s₁' := by
  have howner : s'.owner = release s.owner t := funext he.owner
  cases h with
  | begin u prog ht hinitial =>
    refine ⟨_, .begin u prog ((he.tx u hl).trans ht) hinitial, he.rows, he.owner, fun v hv => ?_⟩
    simp only [Function.update_apply, he.tx v hv]
  | exec u l prog writes e ht hstatement hfree =>
    refine ⟨_, .exec u l prog writes e ((he.tx u hl).trans ht) (by rw [he.rows, hstatement]) ?_,
      he.rows, fun k => ?_, fun v hv => ?_⟩
    · intro k hk
      rw [howner]
      exact free_release (hfree k hk)
    · rw [howner]
      exact (release_lockAll_other hl e.keys k).symm
    · simp only [Function.update_apply, he.tx v hv]
  | commit u prog writes ht hcomplete =>
    refine ⟨_, .commit u prog writes ((he.tx u hl).trans ht) hcomplete, ?_, fun k => ?_,
      fun v hv => ?_⟩
    · simp only [he.rows]
    · rw [howner]
      exact release_release s.owner t u k
    · simp only [Function.update_apply, he.tx v hv]
  | abort u prog writes ht =>
    refine ⟨_, .abort u prog writes ((he.tx u hl).trans ht), he.rows, fun k => ?_, fun v hv => ?_⟩
    · rw [howner]
      exact release_release s.owner t u k
    · simp only [Function.update_apply, he.tx v hv]

/-- **A transaction that does not commit leaves no trace**: without its steps the
others do the same and leave the same rows. -/
theorem erased_run {t : τ} {as : List (Label τ π ℓ)} {s w s' : State κ ρ τ π}
    (he : Erased t s s') (h : Run.run (step p) s as = some w)
    (ht : ∀ prog, w.tx t ≠ .committed prog) :
    ∃ w', Run.run (step p) s' (as.filter fun l => l.tx ≠ t) = some w' ∧ Erased t w w' := by
  induction as generalizing s s' with
  | nil =>
    cases h
    exact ⟨s', rfl, he⟩
  | cons l as ih =>
    obtain ⟨u, hu, hw⟩ := Run.run_cons_some.mp h
    have hmoves := moves_iff.mp hu
    by_cases hl : l.tx = t
    · have hcommit : l ≠ .commit t := by
        rintro rfl
        obtain ⟨prog, writes, -, -, hself⟩ := commit_moves hmoves
        exact ht prog ((finished_run (by rw [hself]; rfl) hw).trans hself)
      obtain ⟨w', hw', he'⟩ := ih (erased_step_self he hmoves hl hcommit) hw
      exact ⟨w', by rwa [List.filter_cons_of_neg (by simpa using hl)], he'⟩
    · obtain ⟨u', hu', he'⟩ := erased_step_other he hmoves hl
      obtain ⟨w', hw', hew⟩ := ih he' hw
      refine ⟨w', ?_, hew⟩
      rw [List.filter_cons_of_pos (by simpa using hl)]
      exact Run.run_cons_some.mpr ⟨u', moves_iff.mpr hu', hw'⟩

end Lib.RowLocks
