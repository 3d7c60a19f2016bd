import Mathlib.Data.List.Forall2
import Mathlib.Data.List.Nodup

/-!
# Tables with a primary key

A `Table key` is a list of rows whose keys are pairwise distinct: a database
table with a primary key, or a dictionary in insertion order whose values carry
their key. A dictionary with separate values is a table of pairs (`Dict`).

The operations are those of an `INSERT .. ON CONFLICT DO NOTHING` (`insert`), an
assignment (`put`), an `UPDATE .. WHERE` (`update`, `modify`) and a `DELETE`
(`filter`, `erase`). Each comes with the equation of `find?` after it, so that a proof
about one key never looks at the list of rows.
-/

namespace Lib

/-- Rows with pairwise distinct keys, in insertion order. -/
structure Table {ρ κ : Type*} (key : ρ → κ) where
  rows : List ρ
  nodup : (rows.map key).Nodup

/-- A dictionary in insertion order. -/
abbrev Dict (κ ν : Type*) := Table (Prod.fst : κ × ν → κ)

namespace Table

variable {ρ κ : Type*} {key : ρ → κ}

def empty : Table key := ⟨[], List.nodup_nil⟩

theorem eq_of_rows {t t' : Table key} (h : t.rows = t'.rows) : t = t' := by
  obtain ⟨rows, nodup⟩ := t
  simp only at h
  subst h
  rfl

variable [DecidableEq κ]

def find? (t : Table key) (k : κ) : Option ρ := t.rows.find? fun r => key r = k

@[simp] theorem find?_empty (k : κ) : (empty : Table key).find? k = none := rfl

theorem find?_eq_some {t : Table key} {k : κ} {r : ρ} :
    t.find? k = some r ↔ r ∈ t.rows ∧ key r = k := by
  constructor
  · intro h
    exact ⟨List.mem_of_find?_eq_some h, by simpa using List.find?_some h⟩
  · rintro ⟨hm, rfl⟩
    obtain ⟨rows, nodup⟩ := t
    simp only [find?] at hm ⊢
    induction rows with
    | nil => simp at hm
    | cons x rows ih =>
      rw [List.map_cons, List.nodup_cons] at nodup
      rcases List.mem_cons.mp hm with rfl | hm
      · simp
      · have hne : key x ≠ key r := fun e => nodup.1 (e ▸ List.mem_map_of_mem hm)
        simpa [List.find?_cons, hne] using ih nodup.2 hm

theorem find?_key {t : Table key} {k : κ} {r : ρ} (h : t.find? k = some r) : key r = k :=
  (find?_eq_some.mp h).2

theorem find?_of_mem {t : Table key} {r : ρ} (h : r ∈ t.rows) : t.find? (key r) = some r :=
  find?_eq_some.mpr ⟨h, rfl⟩

/-- A list of rows with distinct keys, searched for the key of one of them. -/
theorem find?_rows {rs : List ρ} (hn : (rs.map key).Nodup) {r : ρ} (hr : r ∈ rs) :
    rs.find? (fun x => key x = key r) = some r :=
  find?_of_mem (t := (⟨rs, hn⟩ : Table key)) hr

theorem find?_eq_none {t : Table key} {k : κ} : t.find? k = none ↔ k ∉ t.rows.map key := by
  simp [find?, List.find?_eq_none]

/-! ### The keys of a selection -/

omit [DecidableEq κ] in
theorem nodup_keys_filter (t : Table key) (p : ρ → Bool) : ((t.rows.filter p).map key).Nodup :=
  t.nodup.sublist (List.filter_sublist.map key)

theorem mem_keys_filter {t : Table key} {p : ρ → Bool} {k : κ} :
    k ∈ (t.rows.filter p).map key ↔ (t.find? k).any p = true := by
  rw [List.mem_map, Option.any_eq_true]
  constructor
  · rintro ⟨r, hr, rfl⟩
    obtain ⟨hr, hp⟩ := List.mem_filter.mp hr
    exact ⟨r, find?_of_mem hr, hp⟩
  · rintro ⟨r, hr, hp⟩
    obtain ⟨hr, hk⟩ := find?_eq_some.mp hr
    exact ⟨r, List.mem_filter.mpr ⟨hr, hp⟩, hk⟩

/-- Without the rows of a front, what is left is the rest. -/
theorem filter_not_mem_take {rows : List ρ} (hn : (rows.map key).Nodup) (n : Nat) :
    (rows.filter fun r => key r ∉ (rows.take n).map key) = rows.drop n := by
  rw [← List.take_append_drop n rows, List.map_append, List.nodup_append] at hn
  have htake : ((rows.take n).filter fun r => key r ∉ (rows.take n).map key) = [] := by
    refine List.filter_eq_nil_iff.mpr fun r hr => ?_
    rw [decide_eq_true_eq, not_not]
    exact List.mem_map_of_mem hr
  have hdrop : ((rows.drop n).filter fun r => key r ∉ (rows.take n).map key) = rows.drop n := by
    refine List.filter_eq_self.mpr fun r hr => decide_eq_true fun hmem => ?_
    exact hn.2.2 _ hmem _ (List.mem_map_of_mem hr) rfl
  calc (rows.filter fun r => key r ∉ (rows.take n).map key)
      = ((rows.take n ++ rows.drop n).filter fun r => key r ∉ (rows.take n).map key) := by
        rw [List.take_append_drop]
    _ = rows.drop n := by rw [List.filter_append, htake, hdrop, List.nil_append]

/-- Two selections with the same keys are of one length. -/
theorem length_filter_eq {ρ' : Type*} {key' : ρ' → κ} {t : Table key} {t' : Table key'}
    {p : ρ → Bool} {p' : ρ' → Bool} (h : ∀ k, (t.find? k).any p = (t'.find? k).any p') :
    (t.rows.filter p).length = (t'.rows.filter p').length := by
  have hperm := (List.perm_ext_iff_of_nodup (nodup_keys_filter t p) (nodup_keys_filter t' p')).mpr
    fun k => by rw [mem_keys_filter, mem_keys_filter, h k]
  simpa using hperm.length_eq

/-! ### Statements -/

/-- `UPDATE SET f WHERE p`; the update does not touch the key. -/
def update (t : Table key) (p : ρ → Bool) (f : ρ → ρ) (hf : ∀ r, key (f r) = key r) :
    Table key where
  rows := t.rows.map fun r => if p r then f r else r
  nodup := by
    have e : (t.rows.map fun r => if p r then f r else r).map key = t.rows.map key := by
      rw [List.map_map]
      apply List.map_congr_left
      intro r _
      simp only [Function.comp_apply]
      split
      · exact hf r
      · rfl
    rw [e]
    exact t.nodup

theorem find?_update (t : Table key) (p : ρ → Bool) (f : ρ → ρ) (hf : ∀ r, key (f r) = key r)
    (k : κ) : (t.update p f hf).find? k = (t.find? k).map fun r => if p r then f r else r := by
  simp only [find?, update, List.find?_map]
  congr 2
  funext r
  simp only [Function.comp_apply]
  split
  · rw [hf]
  · rfl

omit [DecidableEq κ] in
/-- The update puts no row among those with `q`. -/
theorem filter_update (t : Table key) (p q : ρ → Bool) (f : ρ → ρ)
    (hf : ∀ r, key (f r) = key r) (hq : ∀ r, q (f r) = false) :
    (t.update p f hf).rows.filter q = t.rows.filter fun r => !p r && q r := by
  obtain ⟨rows, nodup⟩ := t
  simp only [update]
  clear nodup
  induction rows with
  | nil => rfl
  | cons r rows ih =>
    rw [List.map_cons, List.filter_cons, List.filter_cons, ih]
    cases hp : p r with
    | false => rw [if_neg Bool.false_ne_true, Bool.not_false, Bool.true_and]
    | true =>
      rw [if_pos rfl, hq, Bool.not_true, Bool.false_and, if_neg Bool.false_ne_true,
        if_neg Bool.false_ne_true]

omit [DecidableEq κ] in
theorem mem_update {t : Table key} {p : ρ → Bool} {f : ρ → ρ} {hf : ∀ r, key (f r) = key r}
    {x : ρ} (h : x ∈ (t.update p f hf).rows) : x ∈ t.rows ∨ ∃ r ∈ t.rows, x = f r := by
  obtain ⟨r, hr, rfl⟩ := List.mem_map.mp h
  split
  · exact Or.inr ⟨r, hr, rfl⟩
  · exact Or.inl hr

omit [DecidableEq κ] in
/-- An update that finds no row. -/
theorem update_of_none {t : Table key} {p : ρ → Bool} {f : ρ → ρ} {hf : ∀ r, key (f r) = key r}
    (h : ∀ r ∈ t.rows, p r = false) : t.update p f hf = t := by
  refine eq_of_rows ((List.map_congr_left fun r hr => ?_).trans (List.map_id t.rows))
  rw [if_neg (Bool.eq_false_iff.mp (h r hr)), id]

/-- An update whose condition is about the key. -/
theorem find?_update_key (t : Table key) (p : κ → Bool) (f : ρ → ρ) (hf : ∀ r, key (f r) = key r)
    (k : κ) : (t.update (fun r => p (key r)) f hf).find? k =
      if p k then (t.find? k).map f else t.find? k := by
  rw [find?_update]
  cases h : t.find? k with
  | none => simp
  | some r =>
    rw [Option.map_some, find?_key h]
    split <;> rfl

/-- `UPDATE SET f WHERE key = k`. -/
def modify (t : Table key) (k : κ) (f : ρ → ρ) (hf : ∀ r, key (f r) = key r) : Table key :=
  t.update (fun r => key r = k) f hf

theorem find?_modify (t : Table key) (k j : κ) (f : ρ → ρ) (hf : ∀ r, key (f r) = key r) :
    (t.modify k f hf).find? j = if j = k then (t.find? j).map f else t.find? j := by
  rw [modify, find?_update_key t (fun x => decide (x = k)) f hf j]
  simp only [decide_eq_true_eq]

omit [DecidableEq κ] in
/-- Two updates of different keys are one. -/
theorem update_update_key (t : Table key) (p p' : κ → Bool) (f : ρ → ρ)
    (hf : ∀ r, key (f r) = key r) (h : ∀ k, p k = true → p' k = false) :
    (t.update (fun r => p (key r)) f hf).update (fun r => p' (key r)) f hf =
      t.update (fun r => p (key r) || p' (key r)) f hf := by
  refine eq_of_rows ((List.map_map ..).trans (List.map_congr_left fun r _ => ?_))
  simp only [Function.comp_apply]
  by_cases hp : p (key r) = true
  · simp [hp, hf, h _ hp]
  · simp [hp]

/-- `INSERT .. ON CONFLICT DO NOTHING`. -/
def insert (t : Table key) (r : ρ) : Table key :=
  if h : key r ∈ t.rows.map key then t else
    ⟨t.rows ++ [r], by
      rw [List.map_append, List.nodup_append]
      refine ⟨t.nodup, List.nodup_singleton _, ?_⟩
      rintro a ha b hb rfl
      obtain rfl : a = key r := by simpa using hb
      exact h ha⟩

theorem find?_insert (t : Table key) (r : ρ) (k : κ) :
    (t.insert r).find? k = (t.find? k).or (if key r = k then some r else none) := by
  unfold insert
  split
  case isTrue h =>
    by_cases hk : key r = k
    · subst hk
      cases hf : t.find? (key r) with
      | none => exact absurd h (find?_eq_none.mp hf)
      | some x => simp
    · simp [hk]
  case isFalse =>
    simp only [find?, List.find?_append, List.find?_singleton, decide_eq_true_eq]

/-- Insert a batch, row by row. -/
def insertMany (t : Table key) (rs : List ρ) : Table key := rs.foldl insert t

theorem find?_insertMany (t : Table key) (rs : List ρ) (k : κ) :
    (t.insertMany rs).find? k = (t.find? k).or (rs.find? fun r => key r = k) := by
  induction rs generalizing t with
  | nil => simp [insertMany]
  | cons r rs ih =>
    have h := ih (t.insert r)
    simp only [insertMany, List.foldl_cons] at h ⊢
    rw [h, find?_insert, Option.or_assoc, List.find?_cons]
    by_cases hk : key r = k <;> simp [hk]

theorem rows_insert (t : Table key) (r : ρ) :
    (t.insert r).rows = if (t.find? (key r)).isSome then t.rows else t.rows ++ [r] := by
  unfold insert
  by_cases hm : key r ∈ t.rows.map key
  · have hfind : t.find? (key r) ≠ none := fun h => find?_eq_none.mp h hm
    rw [dif_pos hm, if_pos (Option.isSome_iff_ne_none.mpr hfind)]
  · have hfind := find?_eq_none.mpr hm
    rw [dif_neg hm, if_neg (by rw [hfind]; simp)]

theorem mem_insert {t : Table key} {r x : ρ} (h : x ∈ (t.insert r).rows) : x ∈ t.rows ∨ x = r := by
  rw [rows_insert] at h
  split at h
  · exact Or.inl h
  · exact (List.mem_append.mp h).imp_right List.mem_singleton.mp

theorem front_insert (t : Table key) (r : ρ) : t.rows <+: (t.insert r).rows := by
  unfold insert
  split
  · exact List.prefix_refl _
  · exact List.prefix_append _ _

theorem front_insertMany (t : Table key) (rs : List ρ) :
    t.rows <+: (t.insertMany rs).rows := by
  induction rs generalizing t with
  | nil => exact List.prefix_refl _
  | cons r rs ih => exact (t.front_insert r).trans (ih (t.insert r))

theorem insert_of_find? {t : Table key} {r : ρ} (h : (t.find? (key r)).isSome = true) :
    t.insert r = t := by
  have hmem : key r ∈ t.rows.map key := by
    by_contra hnot
    rw [find?_eq_none.mpr hnot] at h
    cases h
  exact dif_pos hmem

theorem insertMany_append (t : Table key) (rs rs' : List ρ) :
    t.insertMany (rs ++ rs') = (t.insertMany rs).insertMany rs' := List.foldl_append

/-- Assignment: replace the row of this key in place, or append it. -/
def put (t : Table key) (r : ρ) : Table key :=
  if key r ∈ t.rows.map key then
    { rows := t.rows.map fun x => if key x = key r then r else x
      nodup := by
        have e : (t.rows.map fun x => if key x = key r then r else x).map key =
            t.rows.map key := by
          rw [List.map_map]
          apply List.map_congr_left
          intro x _
          simp only [Function.comp_apply]
          split
          next h => exact h.symm
          · rfl
        rw [e]
        exact t.nodup }
  else t.insert r

theorem find?_put (t : Table key) (r : ρ) (k : κ) :
    (t.put r).find? k = if key r = k then some r else t.find? k := by
  unfold put
  split
  case isTrue hm =>
    have e : (t.rows.map fun x => if key x = key r then r else x).find? (fun x => key x = k) =
        (t.rows.find? fun x => key x = k).map fun x => if key x = key r then r else x := by
      rw [List.find?_map]
      congr 2
      funext x
      simp only [Function.comp_apply]
      split
      next h => rw [h]
      · rfl
    simp only [find?, e]
    by_cases hk : key r = k
    · subst hk
      obtain ⟨x, hx, hxr⟩ := List.mem_map.mp hm
      have hf := find?_eq_some.mpr (⟨hx, hxr⟩ : x ∈ t.rows ∧ key x = key r)
      simp only [find?] at hf
      simp [hf, hxr]
    · cases hf : t.rows.find? (fun x => key x = k) with
      | none => simp [hk]
      | some x =>
        have hx : key x = k := by simpa using List.find?_some hf
        have hne : key x ≠ key r := by rw [hx]; exact fun e => hk e.symm
        simp [hk, hne]
  case isFalse hm =>
    rw [find?_insert]
    by_cases hk : key r = k
    · subst hk
      rw [find?_eq_none.mpr hm]
      simp
    · simp [hk]

theorem mem_put {t : Table key} {r x : ρ} :
    x ∈ (t.put r).rows ↔ x = r ∨ x ∈ t.rows ∧ key x ≠ key r := by
  have hmem : ∀ {t : Table key}, x ∈ t.rows ↔ t.find? (key x) = some x :=
    ⟨find?_of_mem, fun h => (find?_eq_some.mp h).1⟩
  rw [hmem, hmem, find?_put]
  by_cases hk : key r = key x
  · rw [if_pos hk, Option.some_inj]
    simp [hk, eq_comm]
  · rw [if_neg hk]
    constructor
    · exact fun h => Or.inr ⟨h, Ne.symm hk⟩
    · rintro (rfl | ⟨h, -⟩)
      · exact absurd rfl hk
      · exact h

omit [DecidableEq κ] in
/-- A row is the only one with `p` when all rows with `p` have its key. -/
theorem filter_eq_singleton {t : Table key} {p : ρ → Bool} {r : ρ} (hr : r ∈ t.rows)
    (hp : p r = true) : t.rows.filter p = [r] ↔ ∀ x ∈ t.rows, p x = true → key x = key r := by
  constructor
  · intro h x hx hpx
    have hmem : x ∈ t.rows.filter p := List.mem_filter.mpr ⟨hx, hpx⟩
    rw [h] at hmem
    rw [List.mem_singleton.mp hmem]
  · intro h
    have hnodup := (t.nodup_keys_filter p).of_map
    have hall : ∀ x ∈ t.rows.filter p, x = r := by
      intro x hx
      obtain ⟨hx, hpx⟩ := List.mem_filter.mp hx
      exact List.inj_on_of_nodup_map t.nodup hx hr (h x hx hpx)
    have hmem : r ∈ t.rows.filter p := List.mem_filter.mpr ⟨hr, hp⟩
    refine List.perm_singleton.mp ((List.perm_ext_iff_of_nodup hnodup (List.nodup_singleton r)).mpr
      fun x => ?_)
    rw [List.mem_singleton]
    exact ⟨hall x, fun hx => hx ▸ hmem⟩

/-- The assignment of a row that is there. -/
theorem put_self {t : Table key} {r : ρ} (h : r ∈ t.rows) : t.put r = t := by
  have hm : key r ∈ t.rows.map key := List.mem_map_of_mem h
  have hrows : (t.rows.map fun x => if key x = key r then r else x) = t.rows.map id := by
    apply List.map_congr_left
    intro x hx
    split
    case isTrue hk =>
      have hfind := find?_of_mem hx
      rw [hk, find?_of_mem h] at hfind
      exact Option.some_inj.mp hfind
    case isFalse => rfl
  rw [List.map_id] at hrows
  rw [put, if_pos hm]
  obtain ⟨rows, nodup⟩ := t
  simp only [mk.injEq]
  exact hrows

/-- Assign a batch, row by row. -/
def putMany (t : Table key) (rs : List ρ) : Table key := rs.foldl put t

theorem find?_putMany_of_not_mem (t : Table key) (rs : List ρ) (k : κ) (h : ∀ r ∈ rs, key r ≠ k) :
    (t.putMany rs).find? k = t.find? k := by
  induction rs generalizing t with
  | nil => rfl
  | cons r rs ih =>
    have hr : key r ≠ k := h r (List.mem_cons_self ..)
    have htail := ih (t.put r) fun x hx => h x (List.mem_cons_of_mem _ hx)
    rw [find?_put, if_neg hr] at htail
    exact htail

theorem find?_putMany_of_mem (t : Table key) (rs : List ρ) (hn : (rs.map key).Nodup) {r : ρ}
    (h : r ∈ rs) : (t.putMany rs).find? (key r) = some r := by
  induction rs generalizing t with
  | nil => simp at h
  | cons x rs ih =>
    rw [List.map_cons, List.nodup_cons] at hn
    rcases List.mem_cons.mp h with rfl | h
    · have hfresh : ∀ y ∈ rs, key y ≠ key r := fun y hy e =>
        hn.1 (e ▸ List.mem_map_of_mem hy)
      have hput := find?_putMany_of_not_mem (t.put r) rs (key r) hfresh
      rw [find?_put, if_pos rfl] at hput
      exact hput
    · exact ih (t.put x) hn.2 h

/-- `DELETE WHERE NOT p`. -/
def filter (t : Table key) (p : ρ → Bool) : Table key where
  rows := t.rows.filter p
  nodup := t.nodup.sublist (List.filter_sublist.map key)

theorem find?_filter (t : Table key) (p : ρ → Bool) (k : κ) :
    (t.filter p).find? k = (t.find? k).filter p := by
  cases hf : t.find? k with
  | none =>
    rw [Option.filter_none, find?_eq_none]
    intro hm
    obtain ⟨r, hr, rfl⟩ := List.mem_map.mp hm
    exact find?_eq_none.mp hf (List.mem_map_of_mem (List.mem_of_mem_filter hr))
  | some r =>
    obtain ⟨hr, rfl⟩ := find?_eq_some.mp hf
    by_cases hp : p r = true
    · rw [Option.filter_some_pos hp]
      exact find?_of_mem (List.mem_filter.mpr ⟨hr, hp⟩)
    · rw [Option.filter_some, if_neg hp, find?_eq_none]
      intro hm
      obtain ⟨x, hx, hxr⟩ := List.mem_map.mp hm
      obtain ⟨hx, hpx⟩ := List.mem_filter.mp hx
      have hxs := find?_of_mem hx
      rw [hxr, hf] at hxs
      cases hxs
      exact hp hpx

/-- `DELETE` of one key. -/
def erase (t : Table key) (k : κ) : Table key := t.filter fun r => key r ≠ k

theorem find?_erase (t : Table key) (k j : κ) :
    (t.erase k).find? j = if j = k then none else t.find? j := by
  rw [erase, find?_filter]
  cases hf : t.find? j with
  | none => simp
  | some r =>
    obtain rfl := find?_key hf
    by_cases h : key r = k <;> simp [h]

/-- The row of a key, and the rows of the others. -/
theorem perm_erase {t : Table key} {k : κ} {r : ρ} (h : t.find? k = some r) :
    t.rows.Perm (r :: (t.erase k).rows) := by
  have hmem : ∀ x, x ∈ (t.erase k).rows ↔ x ∈ t.rows ∧ key x ≠ k := by
    intro x
    rw [erase, filter, List.mem_filter, decide_eq_true_eq]
  obtain ⟨hr, hkey⟩ := find?_eq_some.mp h
  have hnodup : (r :: (t.erase k).rows).Nodup :=
    List.nodup_cons.mpr ⟨fun hx => ((hmem r).mp hx).2 hkey, List.Nodup.of_map _ (t.erase k).nodup⟩
  refine (List.perm_ext_iff_of_nodup (List.Nodup.of_map _ t.nodup) hnodup).mpr fun x => ?_
  rw [List.mem_cons, hmem]
  constructor
  · intro hx
    by_cases hxk : key x = k
    · have hfind := find?_eq_some.mpr ⟨hx, hxk⟩
      exact .inl (Option.some.inj (hfind.symm.trans h))
    · exact .inr ⟨hx, hxk⟩
  · rintro (rfl | ⟨hx, -⟩)
    · exact hr
    · exact hx

theorem erase_modify (t : Table key) (k : κ) (f : ρ → ρ) (hf : ∀ r, key (f r) = key r) :
    (t.modify k f hf).erase k = t.erase k := by
  refine eq_of_rows ?_
  simp only [erase, filter, modify, update, List.filter_map]
  have hother : ∀ r, ((fun r => decide (key r ≠ k)) ∘
      fun r => if decide (key r = k) = true then f r else r) r = decide (key r ≠ k) := by
    intro r
    by_cases hk : key r = k <;> simp [hk, hf]
  rw [funext hother]
  refine (List.map_congr_left fun r hr => ?_).trans (List.map_id _)
  have hk : key r ≠ k := of_decide_eq_true (List.mem_filter.mp hr).2
  rw [if_neg (by simpa using hk), id]

theorem perm_modify {t : Table key} {k : κ} {r : ρ} (h : t.find? k = some r) (f : ρ → ρ)
    (hf : ∀ r, key (f r) = key r) :
    (t.modify k f hf).rows.Perm (f r :: (t.erase k).rows) := by
  have hfind : (t.modify k f hf).find? k = some (f r) := by rw [find?_modify, if_pos rfl, h]; rfl
  rw [← erase_modify t k f hf]
  exact perm_erase hfind

/-! ### The order of insertion -/

omit [DecidableEq κ] in
theorem keys_update (t : Table key) (p : ρ → Bool) (f : ρ → ρ) (hf : ∀ r, key (f r) = key r) :
    (t.update p f hf).rows.map key = t.rows.map key := by
  rw [update, List.map_map]
  refine List.map_congr_left fun r _ => ?_
  simp only [Function.comp_apply]
  split
  · exact hf r
  · rfl

/-- The keys are those of `log`, each at the place of its first occurrence. -/
structure InsertedBy (t : Table key) (log : List κ) : Prop where
  mem : ∀ k, k ∈ t.rows.map key ↔ k ∈ log
  ordered : (t.rows.map key).Pairwise fun k k' => log.idxOf k < log.idxOf k'

theorem insertedBy_empty : (empty : Table key).InsertedBy [] :=
  ⟨fun _ => Iff.rfl, List.Pairwise.nil⟩

theorem InsertedBy.congr {t t' : Table key} {log : List κ} (h : t.InsertedBy log)
    (hkeys : t'.rows.map key = t.rows.map key) : t'.InsertedBy log where
  mem := by
    rw [hkeys]
    exact h.mem
  ordered := by
    rw [hkeys]
    exact h.ordered

theorem InsertedBy.insert {t : Table key} {log : List κ} (h : t.InsertedBy log) (r : ρ) :
    (t.insert r).InsertedBy (log ++ [key r]) := by
  have hold : (t.rows.map key).Pairwise fun k k' =>
      (log ++ [key r]).idxOf k < (log ++ [key r]).idxOf k' := by
    refine h.ordered.imp_of_mem fun hk hk' hlt => ?_
    rwa [List.idxOf_append_of_mem ((h.mem _).mp hk), List.idxOf_append_of_mem ((h.mem _).mp hk')]
  by_cases hr : key r ∈ t.rows.map key
  · have hsame : t.insert r = t := dif_pos hr
    rw [hsame]
    refine ⟨fun k => ?_, hold⟩
    rw [h.mem, List.mem_append, List.mem_singleton]
    refine ⟨Or.inl, ?_⟩
    rintro (hk | rfl)
    · exact hk
    · exact (h.mem _).mp hr
  · have hnew : key r ∉ log := fun hlog => hr ((h.mem _).mpr hlog)
    have hkeys : (t.insert r).rows.map key = t.rows.map key ++ [key r] := by
      rw [Table.insert, dif_neg hr, List.map_append, List.map_singleton]
    constructor
    · intro k
      rw [hkeys, List.mem_append, List.mem_append, h.mem]
    · rw [hkeys]
      refine List.pairwise_append.mpr ⟨hold, List.pairwise_singleton _ _, fun k hk k' hk' => ?_⟩
      rw [List.mem_singleton.mp hk', List.idxOf_append_of_notMem hnew,
        List.idxOf_append_of_mem ((h.mem k).mp hk)]
      exact Nat.lt_add_right _ (List.idxOf_lt_length_of_mem ((h.mem k).mp hk))

theorem InsertedBy.insertMany {t : Table key} {log : List κ} (h : t.InsertedBy log) (rs : List ρ) :
    (t.insertMany rs).InsertedBy (log ++ rs.map key) := by
  induction rs generalizing t log with
  | nil =>
    rw [List.map_nil, List.append_nil]
    exact h
  | cons r rs ih =>
    have hrest := ih (h.insert r)
    rwa [List.append_assoc] at hrest

/-! ### Two tables, row by row -/

section Rel

variable {ρ' : Type*} {key' : ρ' → κ} {R : ρ → ρ' → Prop} {t : Table key} {t' : Table key'}

omit [DecidableEq κ] in
theorem rel_keys (hkey : ∀ r r', R r r' → key' r' = key r) (h : List.Forall₂ R t.rows t'.rows) :
    t'.rows.map key' = t.rows.map key := by
  generalize t.rows = rows, t'.rows = rows' at h ⊢
  induction h with
  | nil => rfl
  | cons hR _ ih => rw [List.map_cons, List.map_cons, hkey _ _ hR, ih]

theorem rel_find? (hkey : ∀ r r', R r r' → key' r' = key r) (h : List.Forall₂ R t.rows t'.rows)
    (k : κ) : Option.Rel R (t.find? k) (t'.find? k) := by
  simp only [find?]
  generalize t.rows = rows, t'.rows = rows' at h ⊢
  induction h with
  | nil => exact .none
  | @cons r r' rows rows' hR _ ih =>
    rw [List.find?_cons, List.find?_cons, hkey r r' hR]
    split
    · exact .some hR
    · exact ih

theorem rel_insert (hkey : ∀ r r', R r r' → key' r' = key r) (h : List.Forall₂ R t.rows t'.rows)
    {r : ρ} {r' : ρ'} (hk : key' r' = key r) (hnew : t.find? (key r) = none → R r r') :
    List.Forall₂ R (t.insert r).rows (t'.insert r').rows := by
  have hkeys := rel_keys hkey h
  unfold insert
  by_cases hm : key r ∈ t.rows.map key
  · rw [dif_pos hm, dif_pos (by rw [hk, hkeys]; exact hm)]
    exact h
  · rw [dif_neg hm, dif_neg (by rw [hk, hkeys]; exact hm)]
    exact List.rel_append h (.cons (hnew (find?_eq_none.mpr hm)) .nil)

omit [DecidableEq κ] in
theorem rel_update (h : List.Forall₂ R t.rows t'.rows) {p : ρ → Bool} {p' : ρ' → Bool}
    (hp : ∀ r r', R r r' → p' r' = p r) {f : ρ → ρ} {f' : ρ' → ρ'}
    (hf : ∀ r, key (f r) = key r) (hf' : ∀ r, key' (f' r) = key' r)
    (hR : ∀ r r', R r r' → p r = true → R (f r) (f' r')) :
    List.Forall₂ R (t.update p f hf).rows (t'.update p' f' hf').rows := by
  refine List.rel_map (fun r r' hr => ?_) h
  simp only [hp r r' hr]
  split
  case isTrue hpr => exact hR r r' hr hpr
  case isFalse => exact hr

end Rel

end Table

end Lib
