import Mathlib.Data.List.Nodup

/-!
# Values nested through lists and dictionaries

`Agree p` relates two values that differ only in what they hold under keys with `p`, at any
depth; `Equal` is `Agree` with no such key, the equality of lists and dictionaries. The order
of the entries of a dictionary has no part in either.

* `equal_of_agree`: what agrees with a value that holds no key with `p` is equal to it;
* `differs_of_holds`: a value that holds one agrees with a value that is not equal to it.
-/

namespace Lib

/-- A value: `atom` is all that is neither a list nor a dictionary. -/
inductive Tree (κ α : Type*) where
  | atom (a : α)
  | list (xs : List (Tree κ α))
  | dict (items : List (κ × Tree κ α))

namespace Tree

variable {κ α : Type*}

/-- The keys of every dictionary are pairwise distinct. -/
inductive WellFormed : Tree κ α → Prop where
  | atom (a : α) : WellFormed (.atom a)
  | list (xs : List (Tree κ α)) (h : ∀ x ∈ xs, WellFormed x) : WellFormed (.list xs)
  | dict (items : List (κ × Tree κ α)) (hn : (items.map Prod.fst).Nodup)
      (h : ∀ e ∈ items, WellFormed e.2) : WellFormed (.dict items)

/-- Two values that differ only in what is held under a key with `p`. -/
inductive Agree (p : κ → Prop) : Tree κ α → Tree κ α → Prop where
  | atom (a : α) : Agree p (.atom a) (.atom a)
  | list (xs ys : List (Tree κ α)) (hlen : xs.length = ys.length)
      (h : ∀ (i : Nat) (x y : Tree κ α), xs[i]? = some x → ys[i]? = some y → Agree p x y) :
      Agree p (.list xs) (.list ys)
  | dict (xs ys : List (κ × Tree κ α))
      (hkeys : ∀ k, k ∈ xs.map Prod.fst ↔ k ∈ ys.map Prod.fst)
      (h : ∀ (k : κ) (x y : Tree κ α), ¬ p k → (k, x) ∈ xs → (k, y) ∈ ys → Agree p x y) :
      Agree p (.dict xs) (.dict ys)

def Equal : Tree κ α → Tree κ α → Prop := Agree fun _ => False

/-- A dictionary in the value has a key with `p`. -/
inductive Holds (p : κ → Prop) : Tree κ α → Prop where
  | list (xs : List (Tree κ α)) (i : Nat) (x : Tree κ α) (hx : xs[i]? = some x) (h : Holds p x) :
      Holds p (.list xs)
  | key (items : List (κ × Tree κ α)) (k : κ) (x : Tree κ α) (hx : (k, x) ∈ items) (h : p k) :
      Holds p (.dict items)
  | dict (items : List (κ × Tree κ α)) (k : κ) (x : Tree κ α) (hx : (k, x) ∈ items)
      (h : Holds p x) : Holds p (.dict items)

variable {p : κ → Prop}

/-- The entry of a key in a dictionary with distinct keys. -/
theorem entry_unique {items : List (κ × Tree κ α)} (hn : (items.map Prod.fst).Nodup) {k : κ}
    {x y : Tree κ α} (hx : (k, x) ∈ items) (hy : (k, y) ∈ items) : x = y := by
  have he := List.inj_on_of_nodup_map hn hx hy rfl
  exact (Prod.mk.inj he).2

theorem agree_refl {v : Tree κ α} (hv : v.WellFormed) : Agree p v v := by
  induction hv with
  | atom a => exact .atom a
  | list xs h ih =>
    refine .list xs xs rfl fun i x y hx hy => ?_
    rw [hx, Option.some_inj] at hy
    subst hy
    exact ih x (List.mem_of_getElem? hx)
  | dict items hn h ih =>
    refine .dict items items (fun _ => Iff.rfl) fun k x y _ hx hy => ?_
    obtain rfl := entry_unique hn hx hy
    exact ih (k, x) hx

/-- Where no key has `p`, what agrees is equal. -/
theorem equal_of_agree {v v' : Tree κ α} (h : Agree p v v') (hfree : ¬ v.Holds p) : v.Equal v' := by
  induction h with
  | atom a => exact .atom a
  | list xs ys hlen h ih =>
    refine .list xs ys hlen fun i x y hx hy => ih i x y hx hy ?_
    exact fun hh => hfree (.list xs i x hx hh)
  | dict xs ys hkeys h ih =>
    refine .dict xs ys hkeys fun k x y _ hx hy => ih k x y ?_ hx hy ?_
    · exact fun hk => hfree (.key xs k x hx hk)
    · exact fun hh => hfree (.dict xs k x hx hh)

theorem Equal.symm {v w : Tree κ α} (h : v.Equal w) : w.Equal v := by
  induction h with
  | atom a => exact .atom a
  | list xs ys hlen h ih => exact .list ys xs hlen.symm fun i y x hy hx => ih i x y hx hy
  | dict xs ys hkeys h ih =>
    exact .dict ys xs (fun k => (hkeys k).symm) fun k y x hk hy hx => ih k x y hk hx hy

theorem Equal.trans {u v w : Tree κ α} (h : u.Equal v) (h' : v.Equal w) : u.Equal w := by
  induction h generalizing w with
  | atom a => exact h'
  | list xs ys hlen h ih =>
    obtain _ | ⟨_, zs, hlen', h'⟩ | _ := h'
    refine .list xs zs (hlen.trans hlen') fun i x z hx hz => ?_
    obtain ⟨hi, -⟩ := List.getElem?_eq_some_iff.mp hx
    have hy := List.getElem?_eq_getElem (hlen ▸ hi)
    exact ih i x _ hx hy (h' i _ z hy hz)
  | dict xs ys hkeys h ih =>
    obtain _ | _ | ⟨_, zs, hkeys', h'⟩ := h'
    refine .dict xs zs (fun k => (hkeys k).trans (hkeys' k)) fun k x z hk hx hz => ?_
    obtain ⟨⟨k', y⟩, hy, rfl⟩ := List.mem_map.mp ((hkeys k).mp (List.mem_map_of_mem hx))
    exact ih k' x y hk hx hy (h' k' y z hk hy hz)

theorem eq_of_equal_atom {a b : α} (h : (Tree.atom a : Tree κ α).Equal (.atom b)) : a = b := by
  cases h
  rfl

/-- Equal dictionaries have equal entries. -/
theorem equal_entry {xs ys : List (κ × Tree κ α)} (h : (Tree.dict xs).Equal (.dict ys)) {k : κ}
    {x y : Tree κ α} (hx : (k, x) ∈ xs) (hy : (k, y) ∈ ys) : x.Equal y := by
  obtain _ | _ | ⟨_, _, _, hentries⟩ := h
  exact hentries k x y not_false hx hy

/-! ## Another value at one place -/

/-- A value of another kind. -/
def other : Tree κ α → Tree κ α
  | .list _ => .dict []
  | _ => .list []

theorem wellFormed_other (v : Tree κ α) : v.other.WellFormed := by
  cases v with
  | list xs => exact .dict [] List.nodup_nil (by simp)
  | atom a => exact .list [] (by simp)
  | dict items => exact .list [] (by simp)

theorem not_equal_other (v : Tree κ α) : ¬ v.Equal v.other := by
  intro h
  cases v <;> cases h

variable [DecidableEq κ]

/-- `items[k] = v` for a key of the dictionary. -/
def assign (items : List (κ × Tree κ α)) (k : κ) (v : Tree κ α) : List (κ × Tree κ α) :=
  items.map fun e => if e.1 = k then (k, v) else e

theorem keys_assign (items : List (κ × Tree κ α)) (k : κ) (v : Tree κ α) :
    (assign items k v).map Prod.fst = items.map Prod.fst := by
  rw [assign, List.map_map]
  refine List.map_congr_left fun e _ => ?_
  by_cases he : e.1 = k
  · simp [he]
  · simp [he]

theorem mem_assign {items : List (κ × Tree κ α)} {k : κ} {v x : Tree κ α} (hx : (k, x) ∈ items) :
    (k, v) ∈ assign items k v :=
  List.mem_map.mpr ⟨(k, x), hx, if_pos rfl⟩

/-- An entry after the assignment is the new one, or an entry before. -/
theorem of_mem_assign {items : List (κ × Tree κ α)} {k j : κ} {v y : Tree κ α}
    (hy : (j, y) ∈ assign items k v) : (j = k ∧ y = v) ∨ (j ≠ k ∧ (j, y) ∈ items) := by
  obtain ⟨e, he, heq⟩ := List.mem_map.mp hy
  by_cases hk : e.1 = k
  · rw [if_pos hk, Prod.mk.injEq] at heq
    exact .inl ⟨heq.1.symm, heq.2.symm⟩
  · rw [if_neg hk] at heq
    subst heq
    exact .inr ⟨hk, he⟩

theorem wellFormed_assign {items : List (κ × Tree κ α)} (h : (Tree.dict items).WellFormed) (k : κ)
    {v : Tree κ α} (hv : v.WellFormed) : (Tree.dict (assign items k v)).WellFormed := by
  obtain _ | _ | ⟨_, hn, hwf⟩ := h
  refine .dict _ (by rwa [keys_assign]) ?_
  rintro ⟨j, y⟩ hy
  rcases of_mem_assign hy with ⟨-, rfl⟩ | ⟨-, hy⟩
  · exact hv
  · exact hwf (j, y) hy

/-- Assigning a value that agrees, or any value to a key with `p`, gives a dictionary that
agrees. -/
theorem agree_assign {items : List (κ × Tree κ α)} (h : (Tree.dict items).WellFormed) {k : κ}
    {x v : Tree κ α} (hx : (k, x) ∈ items) (hv : p k ∨ Agree p x v) :
    Agree p (.dict items) (.dict (assign items k v)) := by
  obtain _ | _ | ⟨_, hn, hwf⟩ := h
  refine .dict _ _ (fun j => by rw [keys_assign]) fun j y z hj hy hz => ?_
  rcases of_mem_assign hz with ⟨rfl, rfl⟩ | ⟨-, hz⟩
  · obtain rfl := entry_unique hn hx hy
    exact hv.resolve_left hj
  · obtain rfl := entry_unique hn hy hz
    exact agree_refl (hwf (j, y) hy)

/-- A value that holds a key with `p` agrees with one that is not equal to it. -/
theorem differs_of_holds {v : Tree κ α} (hv : v.WellFormed) (h : v.Holds p) :
    ∃ v', v'.WellFormed ∧ Agree p v v' ∧ ¬ v.Equal v' := by
  induction h with
  | list xs i x hx h ih =>
    obtain _ | ⟨_, hwf⟩ | _ := hv
    obtain ⟨x', hx', hagree, hne⟩ := ih (hwf x (List.mem_of_getElem? hx))
    have hi : i < xs.length := (List.getElem?_eq_some_iff.mp hx).1
    refine ⟨.list (xs.set i x'), .list _ fun y hy => ?_, .list _ _ (by simp) fun j y z hy hz => ?_,
      fun he => ?_⟩
    · rcases List.mem_or_eq_of_mem_set hy with hy | rfl
      · exact hwf y hy
      · exact hx'
    · by_cases hj : j = i
      · subst hj
        rw [hx, Option.some_inj] at hy
        rw [List.getElem?_set_self hi, Option.some_inj] at hz
        rwa [← hy, ← hz]
      · rw [List.getElem?_set_ne (Ne.symm hj), hy, Option.some_inj] at hz
        subst hz
        exact agree_refl (hwf y (List.mem_of_getElem? hy))
    · obtain _ | ⟨_, _, _, hitems⟩ | _ := he
      exact hne (hitems i x x' hx (List.getElem?_set_self hi))
  | key items k x hx h =>
    exact ⟨_, wellFormed_assign hv k (wellFormed_other x), agree_assign hv hx (.inl h),
      fun he => not_equal_other x (equal_entry he hx (mem_assign hx))⟩
  | dict items k x hx h ih =>
    have hwf : x.WellFormed := by
      obtain _ | _ | ⟨_, hn, hwf⟩ := hv
      exact hwf (k, x) hx
    obtain ⟨x', hx', hagree, hne⟩ := ih hwf
    exact ⟨_, wellFormed_assign hv k hx', agree_assign hv hx (.inr hagree),
      fun he => hne (equal_entry he hx (mem_assign hx))⟩

end Tree

end Lib
