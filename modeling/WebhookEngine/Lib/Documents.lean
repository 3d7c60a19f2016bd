import Mathlib.Logic.Function.Basic
import WebhookEngine.Lib.Run
import WebhookEngine.Lib.Table

/-!
# Documents under concurrent clients

A collection of documents, and any number of clients whose calls are sequences of commands. A
command is atomic on one document: it may look at all of them and write one. Between the
commands of a call the other clients go on; a client may leave at any time, its call finished or
not. No command deletes a document.

* `step_moves`: what one step can do;
* `freed_between`: a property of one document ends by a command that writes it;
* `run_alone`: a call whose commands run without another's in between;
* `put_modify`, `put_insert`, `alone_update`: the statements of a table, command by command.
-/

namespace Lib.Documents

open Lib.Run

variable {τ κ ν π γ : Type*}

/-- What a command does: the document it writes, and what is left of the call. -/
structure Effect (κ ν π : Type*) where
  write : Option (κ × ν) := none
  next : π

/-- The calls of a client, cut into their commands; a command may leave a choice open. -/
structure Program (κ ν π γ : Type*) where
  initial : π → Bool
  command : π → γ → (κ → Option ν) → Option (Effect κ ν π)

structure State (τ κ ν π : Type*) where
  docs : κ → Option ν
  clients : τ → Option π

inductive Label (τ π γ : Type*) where
  | begin (t : τ) (prog : π)
  | exec (t : τ) (c : γ)
  | leave (t : τ)

def start (docs : κ → Option ν) : State τ κ ν π := ⟨docs, fun _ => none⟩

variable [DecidableEq τ] [DecidableEq κ]

def put (docs : κ → Option ν) : Option (κ × ν) → κ → Option ν
  | none => docs
  | some (k, v) => Function.update docs k (some v)

variable (P : Program κ ν π γ)

def step (s : State τ κ ν π) : Label τ π γ → Option (State τ κ ν π)
  | .begin t prog =>
    match s.clients t with
    | none =>
      if P.initial prog then some { s with clients := Function.update s.clients t (some prog) }
      else none
    | some _ => none
  | .exec t c =>
    (s.clients t).bind fun prog => (P.command prog c s.docs).map fun e =>
      ⟨put s.docs e.write, Function.update s.clients t (some e.next)⟩
  | .leave t => some { s with clients := Function.update s.clients t none }

/-- What one step can do. -/
inductive Moves (s : State τ κ ν π) : Label τ π γ → State τ κ ν π → Prop where
  | begin (t : τ) (prog : π) (hidle : s.clients t = none) (hinitial : P.initial prog = true) :
      Moves s (.begin t prog) { s with clients := Function.update s.clients t (some prog) }
  | exec (t : τ) (c : γ) (prog : π) (e : Effect κ ν π) (hprog : s.clients t = some prog)
      (he : P.command prog c s.docs = some e) :
      Moves s (.exec t c) ⟨put s.docs e.write, Function.update s.clients t (some e.next)⟩
  | leave (t : τ) : Moves s (.leave t) { s with clients := Function.update s.clients t none }

variable {P}

theorem step_moves {s s' : State τ κ ν π} {l : Label τ π γ} (h : step P s l = some s') :
    Moves P s l s' := by
  cases l with
  | begin t prog =>
    rw [step] at h
    split at h
    next hidle =>
      obtain ⟨hinitial, h⟩ := Option.ite_none_right_eq_some.mp h
      cases h
      exact .begin t prog hidle hinitial
    · cases h
  | exec t c =>
    obtain ⟨prog, hprog, h⟩ := Option.bind_eq_some_iff.mp h
    obtain ⟨e, he, rfl⟩ := Option.map_eq_some_iff.mp h
    exact .exec t c prog e hprog he
  | leave t =>
    cases h
    exact .leave t

theorem put_of_write {docs : κ → Option ν} {write : Option (κ × ν)} {k : κ}
    (h : put docs write k ≠ docs k) : ∃ v, write = some (k, v) ∧ put docs write k = some v := by
  cases write with
  | none => exact absurd rfl h
  | some w =>
    obtain ⟨k', v⟩ := w
    by_cases hk : k = k'
    · subst hk
      exact ⟨v, rfl, Function.update_self ..⟩
    · exact absurd (Function.update_of_ne hk ..) h

/-- A document changes only by a command that writes it. -/
theorem doc_of_step {s s' : State τ κ ν π} {l : Label τ π γ} (h : step P s l = some s') {k : κ}
    (hne : s'.docs k ≠ s.docs k) : ∃ t c prog e v, l = .exec t c ∧ s.clients t = some prog ∧
      P.command prog c s.docs = some e ∧ e.write = some (k, v) ∧ s'.docs k = some v := by
  cases step_moves h with
  | begin t prog hidle hinitial => exact absurd rfl hne
  | leave t => exact absurd rfl hne
  | exec t c prog e hprog he =>
    obtain ⟨v, hwrite, hv⟩ := put_of_write hne
    exact ⟨t, c, prog, e, v, rfl, hprog, he, hwrite, hv⟩

/-- The document of the key has the property. -/
def At (K : ν → Prop) (k : κ) (s : State τ κ ν π) : Prop := ∃ v, s.docs k = some v ∧ K v

/-- **A property of one document ends by a command that writes it**, after some of the steps
of the run: the document still has it before, and has it no longer after. -/
theorem freed_between {K : ν → Prop} {k : κ} {s s' : State τ κ ν π} {as : List (Label τ π γ)}
    (hs : At K k s) (hs' : ¬ At K k s') (h : run (step P) s as = some s') :
    ∃ bs t c cs u prog e v v', as = bs ++ .exec t c :: cs ∧ run (step P) s bs = some u ∧
      u.clients t = some prog ∧ u.docs k = some v ∧ K v ∧ P.command prog c u.docs = some e ∧
      e.write = some (k, v') ∧ ¬ K v' := by
  obtain ⟨bs, a, cs, u, x, rfl, hu, hstep, -, hbefore, hafter⟩ :=
    run_flip (Q := fun s => ¬ At K k s) (not_not.mpr hs) hs' h
  obtain ⟨v, hv, hK⟩ := not_not.mp hbefore
  have hne : x.docs k ≠ u.docs k := fun he => hafter ⟨v, he.trans hv, hK⟩
  obtain ⟨t, c, prog, e, v', rfl, hprog, he, hwrite, hv'⟩ := doc_of_step hstep hne
  exact ⟨bs, t, c, cs, u, prog, e, v, v', rfl, hu, hprog, hv, hK, he, hwrite,
    fun hK' => hafter ⟨v', hv', hK'⟩⟩

/-! ## A call alone -/

variable (P)

/-- The commands of one call, and nothing in between. -/
def alone : π → (κ → Option ν) → List γ → Option (π × (κ → Option ν))
  | prog, docs, [] => some (prog, docs)
  | prog, docs, c :: cs =>
    (P.command prog c docs).bind fun e => alone e.next (put docs e.write) cs

variable {P}

theorem run_alone {s : State τ κ ν π} {t : τ} {prog prog' : π} {docs' : κ → Option ν}
    {cs : List γ} (ht : s.clients t = some prog)
    (h : alone P prog s.docs cs = some (prog', docs')) :
    run (step P) s (cs.map (Label.exec t)) =
      some ⟨docs', Function.update s.clients t (some prog')⟩ := by
  induction cs generalizing s prog with
  | nil =>
    cases h
    rw [List.map_nil, run_nil, Function.update_eq_self_iff.mpr ht.symm]
  | cons c cs ih =>
    obtain ⟨e, he, h⟩ := Option.bind_eq_some_iff.mp h
    have hstep : step P s (.exec t c) =
        some ⟨put s.docs e.write, Function.update s.clients t (some e.next)⟩ := by
      rw [step, ht, Option.bind_some, he, Option.map_some]
    rw [List.map_cons]
    refine run_cons_some.mpr ⟨_, hstep, ?_⟩
    rw [ih (Function.update_self ..) h, Function.update_idem]

/-! ## Tables -/

section Tables

variable {key : ν → κ}

theorem put_some {docs docs' : κ → Option ν} {k : κ} {v : ν}
    (h : ∀ j, docs' j = if j = k then some v else docs j) : put docs (some (k, v)) = docs' := by
  funext j
  rw [put, Function.update_apply, h j]

theorem put_modify (t : Table key) (k : κ) (f : ν → ν) (hf : ∀ r, key (f r) = key r) :
    put t.find? ((t.find? k).map fun r => (k, f r)) = (t.modify k f hf).find? := by
  cases hr : t.find? k with
  | none =>
    funext j
    rw [Table.find?_modify]
    by_cases hj : j = k
    · rw [if_pos hj, hj, hr]
      exact hr
    · rw [if_neg hj]
      rfl
  | some r =>
    refine put_some fun j => ?_
    rw [Table.find?_modify]
    by_cases hj : j = k
    · rw [if_pos hj, if_pos hj, hj, hr, Option.map_some]
    · rw [if_neg hj, if_neg hj]

theorem put_insert (t : Table key) (r : ν) :
    put t.find? (if (t.find? (key r)).isNone then some (key r, r) else none) =
      (t.insert r).find? := by
  cases hr : t.find? (key r) with
  | none =>
    refine put_some fun j => ?_
    rw [Table.find?_insert]
    by_cases hj : j = key r
    · rw [if_pos hj, hj, hr, if_pos rfl, Option.none_or]
    · rw [if_neg hj, if_neg (Ne.symm hj), Option.or_none]
  | some r' =>
    rw [Table.insert_of_find? (by rw [hr]; rfl)]
    rfl

/-- One command for each row of a list of rows. -/
theorem alone_rows {c : κ → γ} {prog : Nat → π} {q : ν → Bool} {f : ν → ν} {rows : List ν}
    (hcommand : ∀ (docs : κ → Option ν) n r, docs (key r) = some r → q r = true →
      P.command (prog n) (c (key r)) docs =
        some { write := some (key r, f r), next := prog (n + 1) })
    {docs : κ → Option ν} (hn : (rows.map key).Nodup)
    (hrows : ∀ r ∈ rows, docs (key r) = some r ∧ q r = true) (n : Nat) :
    alone P (prog n) docs (rows.map fun r => c (key r)) = some (prog (n + rows.length),
      fun k => if k ∈ rows.map key then (docs k).map f else docs k) := by
  induction rows generalizing docs n with
  | nil => rfl
  | cons r rows ih =>
    obtain ⟨hnew, hn⟩ := List.nodup_cons.mp hn
    obtain ⟨⟨hr, hq⟩, hrest⟩ := List.forall_mem_cons.mp hrows
    have hother : ∀ k, k ≠ key r → put docs (some (key r, f r)) k = docs k :=
      fun k hk => Function.update_of_ne hk ..
    have hleft : ∀ r' ∈ rows, put docs (some (key r, f r)) (key r') = some r' ∧ q r' = true := by
      intro r' hr'
      rw [hother _ fun he => hnew (he ▸ List.mem_map_of_mem hr')]
      exact hrest r' hr'
    rw [List.map_cons, alone, hcommand docs n r hr hq, Option.bind_some, ih hn hleft,
      List.length_cons, Nat.add_assoc, Nat.add_comm 1]
    refine congrArg (fun docs => some (prog _, docs)) (funext fun k => ?_)
    by_cases hk : k = key r
    · subst hk
      rw [if_neg hnew, if_pos (List.mem_map_of_mem (List.mem_cons_self ..)), hr]
      exact Function.update_self ..
    · rw [hother k hk]
      simp [hk]

/-- **An update, row by row.** -/
theorem alone_update {c : κ → γ} {prog : Nat → π} {q : ν → Bool} {f : ν → ν} (t : Table key)
    (hf : ∀ r, key (f r) = key r)
    (hcommand : ∀ (docs : κ → Option ν) n r, docs (key r) = some r → q r = true →
      P.command (prog n) (c (key r)) docs =
        some { write := some (key r, f r), next := prog (n + 1) }) :
    alone P (prog 0) t.find? ((t.rows.filter q).map fun r => c (key r)) =
      some (prog (t.rows.filter q).length, (t.update q f hf).find?) := by
  rw [alone_rows hcommand (t.nodup_keys_filter q) fun r hr =>
    ⟨Table.find?_of_mem (List.mem_of_mem_filter hr), List.of_mem_filter hr⟩, Nat.zero_add]
  refine congrArg (fun docs => some (prog _, docs)) (funext fun k => ?_)
  rw [Table.find?_update]
  cases hr : t.find? k with
  | none => rw [Option.map_none, Option.map_none, ite_self]
  | some r =>
    simp only [Table.mem_keys_filter, hr, Option.map_some, Option.any_some]
    split <;> rfl

end Tables

end Lib.Documents
