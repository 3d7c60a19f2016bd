import Mathlib.Data.List.Sort

/-!
# Sorting by a key

A stable sort by a key orders a list by the key, and what has one key by the place that it had
before. This order determines the result.

* `pairwise_insertionSort_byKey`: insertion sort is stable;
* `eq_of_byKey`: two lists of the same elements in this order are equal.
-/

namespace Lib.Sorting

variable {α κ : Type*} [LinearOrder κ]

/-- By the key, then by the relation `R`. -/
def ByKey (key : α → κ) (R : α → α → Prop) (a b : α) : Prop :=
  key a < key b ∨ key a = key b ∧ R a b

variable {key : α → κ} {R : α → α → Prop}

theorem ByKey.le {a b : α} (h : ByKey key R a b) : key a ≤ key b := by
  rcases h with h | ⟨h, -⟩
  · exact h.le
  · exact h.le

theorem ByKey.asymm (hR : ∀ a b, R a b → ¬ R b a) {a b : α} (h : ByKey key R a b) :
    ¬ ByKey key R b a := by
  rintro (hlt | ⟨heq, hba⟩)
  · exact absurd h.le (not_le.mpr hlt)
  · rcases h with hlt | ⟨-, hab⟩
    · exact absurd heq hlt.ne'
    · exact hR a b hab hba

/-- An element that stood before all the others is inserted before those of its key. -/
theorem pairwise_orderedInsert [DecidableRel fun a b => key a ≤ key b] {a : α} {l : List α}
    (ha : ∀ b ∈ l, R a b) (hl : l.Pairwise (ByKey key R)) :
    (l.orderedInsert (fun a b => key a ≤ key b) a).Pairwise (ByKey key R) := by
  induction l with
  | nil => exact List.pairwise_singleton _ _
  | cons b l ih =>
    obtain ⟨hb, htail⟩ := List.pairwise_cons.mp hl
    rw [List.orderedInsert_cons]
    split
    case isTrue hle =>
      refine List.pairwise_cons.mpr ⟨fun c hc => ?_, hl⟩
      have hbc : key b ≤ key c := by
        rcases List.mem_cons.mp hc with rfl | hc
        · exact le_refl _
        · exact (hb c hc).le
      rcases (hle.trans hbc).lt_or_eq with hlt | heq
      · exact Or.inl hlt
      · exact Or.inr ⟨heq, ha c hc⟩
    case isFalse hlt =>
      refine List.pairwise_cons.mpr ⟨fun c hc => ?_, ih (fun c hc => ?_) htail⟩
      · rcases (List.mem_orderedInsert _).mp hc with rfl | hc
        · exact Or.inl (not_le.mp hlt)
        · exact hb c hc
      · exact ha c (List.mem_cons_of_mem _ hc)

/-- Insertion sort is stable. -/
theorem pairwise_insertionSort_byKey [DecidableRel fun a b => key a ≤ key b] {l : List α}
    (h : l.Pairwise R) : (l.insertionSort fun a b => key a ≤ key b).Pairwise (ByKey key R) := by
  induction l with
  | nil => exact List.Pairwise.nil
  | cons a l ih =>
    obtain ⟨ha, htail⟩ := List.pairwise_cons.mp h
    rw [List.insertionSort_cons]
    refine pairwise_orderedInsert (fun b hb => ?_) (ih htail)
    exact ha b ((List.mem_insertionSort _).mp hb)

/-- The order determines the list. -/
theorem eq_of_byKey (hR : ∀ a b, R a b → ¬ R b a) {l l' : List α} (hperm : l.Perm l')
    (h : l.Pairwise (ByKey key R)) (h' : l'.Pairwise (ByKey key R)) : l = l' :=
  hperm.eq_of_pairwise (fun _ _ _ _ hab hba => absurd hba (ByKey.asymm hR hab)) h h'

end Lib.Sorting
