import Mathlib.Data.Finset.Card
import Mathlib.Data.List.Nodup
import Mathlib.Logic.Relation

/-!
# Depth-first search

The search enters each node that it has not seen, notes it, and goes on with the nodes next to
it before it returns to those it had left. The list of nodes seen, in the order in which they
were entered, is the result; the number of nested calls is bounded by fuel.

* `searchAll_induction`: the rule for the searches that end;
* `found_of_search`: what was found is closed, and reachable from where the search began;
* `search_isSome`: as much fuel as there are nodes not seen is enough;
* `mem_search_iff`: a search from nothing finds what is reachable.
-/

namespace Lib.Search

open Relation

variable {ν : Type*} [DecidableEq ν]

/-- A node, if it is new, and then what is found from it by `rec`. -/
def visit (rec : List ν → ν → Option (List ν)) (seen : List ν) (v : ν) : Option (List ν) :=
  if v ∈ seen then some seen else rec (seen ++ [v]) v

/-- The nodes next to `v`, one after the other; `none` when the fuel is spent. -/
def search (next : ν → List ν) : Nat → List ν → ν → Option (List ν)
  | 0, _, _ => none
  | fuel + 1, seen, v => (next v).foldlM (visit (search next fuel)) seen

/-- All of `todo`. -/
def searchAll (next : ν → List ν) (fuel : Nat) (seen todo : List ν) : Option (List ν) :=
  todo.foldlM (visit (search next fuel)) seen

variable {next : ν → List ν}

theorem search_succ (fuel : Nat) (seen : List ν) (v : ν) :
    search next (fuel + 1) seen v = searchAll next fuel seen (next v) := rfl

theorem searchAll_seen {fuel : Nat} {seen todo : List ν} {v : ν} (h : v ∈ seen) :
    searchAll next fuel seen (v :: todo) = searchAll next fuel seen todo := by
  rw [searchAll, List.foldlM_cons, visit, if_pos h]
  rfl

theorem searchAll_new {fuel : Nat} {seen todo : List ν} {v : ν} (h : v ∉ seen) :
    searchAll next fuel seen (v :: todo) =
      (search next fuel (seen ++ [v]) v).bind fun seen' => searchAll next fuel seen' todo := by
  rw [searchAll, List.foldlM_cons, visit, if_neg h]
  rfl

/-- **Search rule.** A search that ends has nothing to do, or goes on after a node that it has
seen, or enters a new node with less fuel and goes on after that. -/
theorem searchAll_induction {P : Nat → List ν → List ν → List ν → Prop}
    (hnil : ∀ fuel seen, P fuel seen [] seen)
    (hseen : ∀ {fuel seen todo seen' v}, v ∈ seen → P fuel seen todo seen' →
      P fuel seen (v :: todo) seen')
    (hnew : ∀ {fuel seen todo seen₁ seen₂ v}, v ∉ seen → P fuel (seen ++ [v]) (next v) seen₁ →
      P (fuel + 1) seen₁ todo seen₂ → P (fuel + 1) seen (v :: todo) seen₂)
    {fuel : Nat} {seen todo seen' : List ν} (h : searchAll next fuel seen todo = some seen') :
    P fuel seen todo seen' := by
  induction fuel generalizing seen todo seen' with
  | zero =>
    induction todo with
    | nil =>
      cases h
      exact hnil 0 _
    | cons v todo ih =>
      by_cases hv : v ∈ seen
      · rw [searchAll_seen hv] at h
        exact hseen hv (ih h)
      · rw [searchAll_new hv] at h
        cases h
  | succ fuel ihfuel =>
    induction todo generalizing seen with
    | nil =>
      cases h
      exact hnil (fuel + 1) _
    | cons v todo ih =>
      by_cases hv : v ∈ seen
      · rw [searchAll_seen hv] at h
        exact hseen hv (ih h)
      · rw [searchAll_new hv] at h
        obtain ⟨seen₁, h₁, h₂⟩ := Option.bind_eq_some_iff.mp h
        exact hnew hv (ihfuel h₁) (ih h₂)

/-! ## What is found -/

/-- From `seen` and the nodes `todo`, `seen'` was found. -/
structure Found (next : ν → List ν) (seen todo seen' : List ν) : Prop where
  front : seen <+: seen'
  nodup : seen.Nodup → seen'.Nodup
  entered : ∀ v ∈ todo, v ∈ seen'
  closed : ∀ v ∈ seen', v ∉ seen → ∀ w ∈ next v, w ∈ seen'
  reached : ∀ v ∈ seen', v ∉ seen → ∃ u ∈ todo, ReflTransGen (fun a b => b ∈ next a) u v

omit [DecidableEq ν] in
theorem found_nil (seen : List ν) : Found next seen [] seen where
  front := List.prefix_refl _
  nodup h := h
  entered _ hv := absurd hv List.not_mem_nil
  closed _ hv hnew := absurd hv hnew
  reached _ hv hnew := absurd hv hnew

omit [DecidableEq ν] in
theorem found_seen {seen todo seen' : List ν} {v : ν} (hv : v ∈ seen)
    (h : Found next seen todo seen') : Found next seen (v :: todo) seen' where
  front := h.front
  nodup := h.nodup
  entered w hw := by
    rcases List.mem_cons.mp hw with rfl | hw
    · exact h.front.subset hv
    · exact h.entered w hw
  closed := h.closed
  reached w hw hnew := by
    obtain ⟨u, hu, hreach⟩ := h.reached w hw hnew
    exact ⟨u, List.mem_cons_of_mem _ hu, hreach⟩

omit [DecidableEq ν] in
/-- A new node, what is found from it, and then the rest. -/
theorem found_new {seen todo seen₁ seen₂ : List ν} {v : ν} (hv : v ∉ seen)
    (h₁ : Found next (seen ++ [v]) (next v) seen₁) (h₂ : Found next seen₁ todo seen₂) :
    Found next seen (v :: todo) seen₂ := by
  have hfront : seen ++ [v] <+: seen₂ := h₁.front.trans h₂.front
  have hmem : v ∈ seen₂ := hfront.subset (List.mem_append_right _ (List.mem_singleton_self v))
  refine
    { front := (List.prefix_append _ _).trans hfront
      nodup := fun h => h₂.nodup (h₁.nodup ?_)
      entered := fun w hw => ?_
      closed := fun x hx hnew w hw => ?_
      reached := fun x hx hnew => ?_ }
  · rw [List.nodup_append]
    refine ⟨h, List.nodup_singleton v, fun a ha b hb => ?_⟩
    rw [List.mem_singleton.mp hb]
    rintro rfl
    exact hv ha
  · rcases List.mem_cons.mp hw with rfl | hw
    · exact hmem
    · exact h₂.entered w hw
  · by_cases hx₁ : x ∈ seen₁
    · by_cases hxv : x = v
      · exact h₂.front.subset (h₁.entered w (hxv ▸ hw))
      · have hold : x ∉ seen ++ [v] := by simp [hnew, hxv]
        exact h₂.front.subset (h₁.closed x hx₁ hold w hw)
    · exact h₂.closed x hx hx₁ w hw
  · by_cases hx₁ : x ∈ seen₁
    · by_cases hxv : x = v
      · exact ⟨v, List.mem_cons_self, hxv ▸ .refl⟩
      · have hold : x ∉ seen ++ [v] := by simp [hnew, hxv]
        obtain ⟨u, hu, hreach⟩ := h₁.reached x hx₁ hold
        exact ⟨v, List.mem_cons_self, .head hu hreach⟩
    · obtain ⟨u, hu, hreach⟩ := h₂.reached x hx hx₁
      exact ⟨u, List.mem_cons_of_mem _ hu, hreach⟩

theorem found_of_search {fuel : Nat} {seen todo seen' : List ν}
    (h : searchAll next fuel seen todo = some seen') : Found next seen todo seen' :=
  searchAll_induction (P := fun _ => Found next) (fun _ => found_nil)
    (fun hv h => found_seen hv h) (fun hv h₁ h₂ => found_new hv h₁ h₂) h

/-! ## Enough fuel -/

/-- The nodes of a finite set that were not seen. -/
def unseen (nodes : Finset ν) (seen : List ν) : Finset ν := nodes.filter (· ∉ seen)

theorem card_unseen_le {nodes : Finset ν} {seen seen' : List ν} (h : seen ⊆ seen') :
    (unseen nodes seen').card ≤ (unseen nodes seen).card :=
  Finset.card_le_card (Finset.monotone_filter_right _ fun _ _ hnot hmem => hnot (h hmem))

theorem card_unseen_lt {nodes : Finset ν} {seen : List ν} {v : ν} (hv : v ∈ nodes)
    (hnew : v ∉ seen) : (unseen nodes (seen ++ [v])).card < (unseen nodes seen).card := by
  refine Finset.card_lt_card ⟨?_, fun hsub => ?_⟩
  · exact Finset.monotone_filter_right _ fun _ _ hnot hmem =>
      hnot (List.mem_append_left _ hmem)
  · have hmem : v ∈ unseen nodes (seen ++ [v]) := hsub (Finset.mem_filter.mpr ⟨hv, hnew⟩)
    exact (Finset.mem_filter.mp hmem).2 (List.mem_append_right _ (List.mem_singleton_self v))

/-- The calls are nested no deeper than there are nodes that were not seen. -/
theorem search_isSome {nodes : Finset ν} (hnext : ∀ v, ∀ w ∈ next v, w ∈ nodes) {fuel : Nat}
    {seen todo : List ν} (htodo : ∀ v ∈ todo, v ∈ nodes)
    (hfuel : (unseen nodes seen).card ≤ fuel) :
    ∃ seen', searchAll next fuel seen todo = some seen' := by
  induction fuel generalizing seen todo with
  | zero =>
    induction todo with
    | nil => exact ⟨seen, rfl⟩
    | cons v todo ih =>
      have hv : v ∈ seen := by
        by_contra hnew
        have hlt := card_unseen_lt (htodo v List.mem_cons_self) hnew
        omega
      rw [searchAll_seen hv]
      exact ih fun w hw => htodo w (List.mem_cons_of_mem _ hw)
  | succ fuel ihfuel =>
    induction todo generalizing seen with
    | nil => exact ⟨seen, rfl⟩
    | cons v todo ih =>
      have hrest : ∀ w ∈ todo, w ∈ nodes := fun w hw => htodo w (List.mem_cons_of_mem _ hw)
      by_cases hv : v ∈ seen
      · rw [searchAll_seen hv]
        exact ih hrest hfuel
      · have hlt := card_unseen_lt (htodo v List.mem_cons_self) hv
        have hless : (unseen nodes (seen ++ [v])).card ≤ fuel := by omega
        obtain ⟨seen₁, h₁⟩ := ihfuel (hnext v) hless
        have hsub : seen ⊆ seen₁ := fun x hx =>
          (found_of_search h₁).front.subset (List.mem_append_left _ hx)
        rw [searchAll_new hv, search_succ, h₁, Option.bind_some]
        exact ih hrest ((card_unseen_le hsub).trans hfuel)

/-- A search from nothing finds what is reachable. -/
theorem mem_search_iff {fuel : Nat} {todo seen : List ν}
    (h : searchAll next fuel [] todo = some seen) (v : ν) :
    v ∈ seen ↔ ∃ u ∈ todo, ReflTransGen (fun a b => b ∈ next a) u v := by
  have hfound := found_of_search h
  constructor
  · exact fun hv => hfound.reached v hv List.not_mem_nil
  · rintro ⟨u, hu, hreach⟩
    induction hreach with
    | refl => exact hfound.entered u hu
    | tail _ hstep ih => exact hfound.closed _ ih List.not_mem_nil _ hstep

end Lib.Search
