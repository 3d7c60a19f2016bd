import WebhookEngine.Lib.JsonReader

/-!
# One text for each JSON value

With `sort_keys=True`, the text of a value is that of the value with its keys sorted.

* `loads_dumps`: the text reads as the value with its keys sorted;
* `dumps_eq_iff`: two values have one text if and only if they are equal.
-/

namespace Lib.Json

variable {floats : Floats}

/-! ## Sorted keys -/

mutual

/-- The value with the keys of each dictionary in order. -/
def sorted : Value → Value
  | .atom a => .atom a
  | .list xs => .list (sortedList xs)
  | .dict items => .dict (sortKeys (sortedItems items))

def sortedList : List Value → List Value
  | [] => []
  | x :: xs => sorted x :: sortedList xs

def sortedItems : List (Str × Value) → List (Str × Value)
  | [] => []
  | (k, x) :: items => (k, sorted x) :: sortedItems items

end

theorem sortedList_eq_map (xs : List Value) : sortedList xs = xs.map sorted := by
  induction xs with
  | nil => rfl
  | cons x xs ih => rw [sortedList, ih, List.map_cons]

theorem sortedItems_eq_map (items : List (Str × Value)) :
    sortedItems items = items.map fun e => (e.1, sorted e.2) := by
  induction items with
  | nil => rfl
  | cons e items ih => rw [sortedItems, ih, List.map_cons]

theorem dumpsList_eq_map (xs : List Value) : dumpsList xs = xs.map dumps := by
  induction xs with
  | nil => rfl
  | cons x xs ih => rw [dumpsList, ih, List.map_cons]

theorem mem_sorted {items : List (Str × Value)} {e : Str × Value} :
    e ∈ sortKeys (sortedItems items) ↔ ∃ x, (e.1, x) ∈ items ∧ sorted x = e.2 := by
  rw [sortKeys, (List.perm_insertionSort _ _).mem_iff, sortedItems_eq_map, List.mem_map]
  constructor
  · rintro ⟨⟨k, x⟩, hx, rfl⟩
    exact ⟨x, hx, rfl⟩
  · rintro ⟨x, hx, he⟩
    exact ⟨(e.1, x), hx, Prod.ext rfl he⟩

theorem keys_sorted (items : List (Str × Value)) :
    ((sortKeys (sortedItems items)).map Prod.fst).Perm (items.map Prod.fst) := by
  refine ((List.perm_insertionSort _ _).map _).trans (List.Perm.of_eq ?_)
  rw [sortedItems_eq_map, List.map_map]
  rfl

theorem readable_sorted {v : Value} (h : Readable floats v) : Readable floats (sorted v) := by
  induction h with
  | atom a h => exact .atom a h
  | list xs h ih =>
    refine .list _ fun y hy => ?_
    rw [sortedList_eq_map] at hy
    obtain ⟨x, hx, rfl⟩ := List.mem_map.mp hy
    exact ih x hx
  | dict items hn hkeys h ih =>
    refine .dict _ ((keys_sorted items).nodup_iff.mpr hn) ?_ ?_
    · intro e he
      obtain ⟨x, hx, -⟩ := mem_sorted.mp he
      exact hkeys (e.1, x) hx
    · intro e he
      obtain ⟨x, hx, hsorted⟩ := mem_sorted.mp he
      rw [← hsorted]
      exact ih _ hx

theorem wellFormed_of_readable {v : Value} (h : Readable floats v) : v.WellFormed := by
  induction h with
  | atom a h => exact .atom a
  | list xs h ih => exact .list xs ih
  | dict items hn hkeys h ih => exact .dict items hn ih

theorem equal_sorted {v : Value} (h : v.WellFormed) : v.Equal (sorted v) := by
  induction h with
  | atom a => exact .atom a
  | list xs h ih =>
    refine .list _ _ (by rw [sortedList_eq_map, List.length_map]) fun i x y hx hy => ?_
    rw [sortedList_eq_map, List.getElem?_map, hx, Option.map_some, Option.some_inj] at hy
    subst hy
    exact ih x (List.mem_of_getElem? hx)
  | dict items hn h ih =>
    refine .dict _ _ (fun k => (keys_sorted items).mem_iff.symm) fun k x y _ hx hy => ?_
    obtain ⟨x', hx', rfl⟩ := mem_sorted.mp hy
    obtain rfl := Tree.entry_unique hn hx hx'
    exact ih (k, x) hx

theorem write_list (xs : List Value) :
    write compact (.list xs) = '[' :: (commas (xs.map (write compact)) ++ [']']) := by
  have hitems : ∀ x xs, write compact x ++ writeItems compact xs =
      commas ((x :: xs).map (write compact)) := by
    intro x xs
    induction xs generalizing x with
    | nil => exact List.append_nil _
    | cons y ys ih =>
      rw [List.map_cons, List.map_cons, commas, ← List.map_cons, ← ih y, writeItems]
      · rfl
      · simp
  cases xs with
  | nil => rfl
  | cons x xs => rw [write, ← hitems, List.append_assoc]

theorem write_dict (items : List (Str × Value)) : write compact (.dict items) =
    '{' :: (commas (items.map fun e => entry (e.1, write compact e.2)) ++ ['}']) := by
  have hitems : ∀ e items, entry (e.1, write compact e.2) ++ writeMembers compact items =
      commas ((e :: items).map fun e => entry (e.1, write compact e.2)) := by
    intro e items
    induction items generalizing e with
    | nil => exact List.append_nil _
    | cons e' items ih =>
      have hrest := ih e'
      rw [List.map_cons] at hrest
      rw [List.map_cons, List.map_cons, commas, ← hrest, writeMembers]
      · simp only [entry, List.append_assoc, List.cons_append]
        rfl
      · simp
  cases items with
  | nil => rfl
  | cons e items =>
    rw [← hitems, write, entry]
    simp only [List.append_assoc, List.cons_append]
    rfl

/-- `sort_keys=True` writes the value with its keys sorted. -/
theorem dumps_eq_write (v : Value) (h : v.WellFormed) : dumps v = write compact (sorted v) := by
  induction h with
  | atom a => rfl
  | list xs h ih =>
    rw [dumps, sorted, write_list, dumpsList_eq_map, sortedList_eq_map, List.map_map]
    rw [List.map_congr_left (g := write compact ∘ sorted) fun x hx => ih x hx]
  | dict items hn h ih =>
    have hsort : ∀ {α : Type} (f : Value → α), sortKeys (items.map fun e => (e.1, f e.2)) =
        (sortKeys items).map fun e => (e.1, f e.2) := by
      intro α f
      exact (List.map_insertionSort (fun a b : Str × Value => notAfter a.1 b.1 = true)
        (s := fun a b : Str × α => notAfter a.1 b.1 = true)
        (fun e => (e.1, f e.2)) items fun _ _ _ _ => Iff.rfl).symm
    rw [dumps, sorted, write_dict, dumpsItems_eq_map, sortedItems_eq_map, hsort, hsort,
      List.map_map, List.map_map]
    refine congrArg (fun texts => '{' :: (commas texts ++ ['}'])) (List.map_congr_left ?_)
    intro e he
    have hmem : e ∈ items := (List.perm_insertionSort _ items).mem_iff.mp he
    exact congrArg (fun text => entry (e.1, text)) (ih e hmem)

/-- **The text of a value reads as the value with its keys sorted.** -/
theorem loads_dumps {v : Value} (h : Readable floats v) :
    loads floats (dumps v) = some (sorted v) := by
  rw [dumps_eq_write v (wellFormed_of_readable h)]
  exact loads_write (readable_sorted h)

/-- The same for the bytes of a dictionary. -/
theorem loadsBytes_dumps {items : List (Str × Value)} (h : Readable floats (.dict items))
    (other : List UInt8 → Option Value) :
    loadsBytes floats other (encode (dumps (.dict items))) = some (sorted (.dict items)) := by
  rw [dumps_eq_write _ (wellFormed_of_readable h)]
  exact loadsBytes_write (readable_sorted h) other compact

theorem encode_dumps_inj {v w : Value} (h : encode (dumps v) = encode (dumps w)) :
    dumps v = dumps w := by
  rw [← decode_encode (isAscii_dumps v), h, decode_encode (isAscii_dumps w)]

/-! ## Equal values -/

theorem notAfter_total (s t : Str) : notAfter s t = true ∨ notAfter t s = true := by
  induction s generalizing t with
  | nil => exact .inl rfl
  | cons x xs ih =>
    cases t with
    | nil => exact .inr rfl
    | cons y ys =>
      simp only [notAfter, Bool.or_eq_true, Bool.and_eq_true, decide_eq_true_eq]
      rcases lt_trichotomy x y with h | rfl | h
      · exact .inl (.inl h)
      · exact (ih ys).imp (fun h => .inr ⟨rfl, h⟩) fun h => .inr ⟨rfl, h⟩
      · exact .inr (.inl h)

theorem notAfter_antisymm {s t : Str} (h : notAfter s t = true) (h' : notAfter t s = true) :
    s = t := by
  induction s generalizing t with
  | nil =>
    cases t with
    | nil => rfl
    | cons y ys => cases h'
  | cons x xs ih =>
    cases t with
    | nil => cases h
    | cons y ys =>
      simp only [notAfter, Bool.or_eq_true, Bool.and_eq_true, decide_eq_true_eq] at h h'
      rcases h with h | ⟨rfl, h⟩
      · rcases h' with h' | ⟨rfl, -⟩
        · exact absurd h' (lt_asymm h)
        · exact absurd h (lt_irrefl y)
      · rcases h' with h' | ⟨-, h'⟩
        · exact absurd h' (lt_irrefl x)
        · rw [ih h h']

theorem notAfter_trans {s t u : Str} (h : notAfter s t = true) (h' : notAfter t u = true) :
    notAfter s u = true := by
  induction s generalizing t u with
  | nil => rfl
  | cons x xs ih =>
    cases t with
    | nil => cases h
    | cons y ys =>
      cases u with
      | nil => cases h'
      | cons z zs =>
        simp only [notAfter, Bool.or_eq_true, Bool.and_eq_true, decide_eq_true_eq] at h h' ⊢
        rcases h with h | ⟨rfl, h⟩
        · rcases h' with h' | ⟨rfl, -⟩
          · exact .inl (h.trans h')
          · exact .inl h
        · exact h'.imp_right fun ⟨hz, h'⟩ => ⟨hz, ih h h'⟩

/-- Sorted by their keys, dictionaries with the same entries are the same. -/
theorem sortKeys_eq {α : Type} {xs ys : List (Str × α)} (hx : (xs.map Prod.fst).Nodup)
    (hperm : xs.Perm ys) : sortKeys xs = sortKeys ys := by
  have hsorted : ∀ l : List (Str × α),
      (sortKeys l).Pairwise fun a b => notAfter a.1 b.1 = true := by
    intro l
    have : Std.Total fun a b : Str × α => notAfter a.1 b.1 = true :=
      ⟨fun a b => notAfter_total a.1 b.1⟩
    have : IsTrans (Str × α) fun a b => notAfter a.1 b.1 = true :=
      ⟨fun _ _ _ => notAfter_trans⟩
    exact List.pairwise_insertionSort _ l
  have hsame : (sortKeys xs).Perm (sortKeys ys) :=
    (List.perm_insertionSort _ xs).trans (hperm.trans (List.perm_insertionSort _ ys).symm)
  refine hsame.eq_of_pairwise (fun a b ha hb hab hba => ?_) (hsorted xs) (hsorted ys)
  have ha : a ∈ xs := (List.perm_insertionSort _ xs).mem_iff.mp ha
  have hb : b ∈ xs := hperm.mem_iff.mpr ((List.perm_insertionSort _ ys).mem_iff.mp hb)
  exact List.inj_on_of_nodup_map hx ha hb (notAfter_antisymm hab hba)

theorem sorted_eq_of_equal {v w : Value} (hv : v.WellFormed) (hw : w.WellFormed)
    (h : v.Equal w) : sorted v = sorted w := by
  induction h with
  | atom a => rfl
  | list xs ys hlen h ih =>
    obtain _ | ⟨_, hxs⟩ | _ := hv
    obtain _ | ⟨_, hys⟩ | _ := hw
    rw [sorted, sorted, sortedList_eq_map, sortedList_eq_map]
    refine congrArg Tree.list (List.ext_getElem (by simpa using hlen) fun i hi hi' => ?_)
    rw [List.length_map] at hi hi'
    rw [List.getElem_map, List.getElem_map]
    exact ih i _ _ (List.getElem?_eq_getElem hi) (List.getElem?_eq_getElem hi')
      (hxs _ (List.getElem_mem hi)) (hys _ (List.getElem_mem hi'))
  | dict xs ys hkeys h ih =>
    obtain _ | _ | ⟨_, hnx, hxs⟩ := hv
    obtain _ | _ | ⟨_, hny, hys⟩ := hw
    have hnodup : ∀ {items : List (Str × Value)}, (items.map Prod.fst).Nodup →
        ((sortedItems items).map Prod.fst).Nodup := by
      intro items hn
      rw [sortedItems_eq_map, List.map_map]
      exact hn
    have hentry : ∀ {items : List (Str × Value)} {k : Str} {y : Value},
        (k, y) ∈ sortedItems items ↔ ∃ x, (k, x) ∈ items ∧ sorted x = y := by
      intro items k y
      rw [sortedItems_eq_map, List.mem_map]
      constructor
      · rintro ⟨⟨k', x⟩, hx, he⟩
        cases he
        exact ⟨x, hx, rfl⟩
      · rintro ⟨x, hx, rfl⟩
        exact ⟨(k, x), hx, rfl⟩
    rw [sorted, sorted]
    refine congrArg Tree.dict (sortKeys_eq (hnodup hnx) ?_)
    rw [List.perm_ext_iff_of_nodup (hnodup hnx).of_map (hnodup hny).of_map]
    rintro ⟨k, z⟩
    rw [hentry, hentry]
    constructor
    · rintro ⟨x, hx, rfl⟩
      obtain ⟨⟨k', y⟩, hy, rfl⟩ := List.mem_map.mp ((hkeys k).mp (List.mem_map_of_mem hx))
      exact ⟨y, hy, (ih k' x y not_false hx hy (hxs _ hx) (hys _ hy)).symm⟩
    · rintro ⟨y, hy, rfl⟩
      obtain ⟨⟨k', x⟩, hx, rfl⟩ := List.mem_map.mp ((hkeys k).mpr (List.mem_map_of_mem hy))
      exact ⟨x, hx, ih k' x y not_false hx hy (hxs _ hx) (hys _ hy)⟩

theorem equal_iff_sorted_eq {v w : Value} (hv : v.WellFormed) (hw : w.WellFormed) :
    v.Equal w ↔ sorted v = sorted w := by
  refine ⟨sorted_eq_of_equal hv hw, fun h => ?_⟩
  have hsorted := equal_sorted hv
  rw [h] at hsorted
  exact hsorted.trans (equal_sorted hw).symm

/-- **Two values have one text if and only if they are equal.** -/
theorem dumps_eq_iff {v w : Value} (hv : Readable floats v) (hw : Readable floats w) :
    dumps v = dumps w ↔ v.Equal w := by
  rw [equal_iff_sorted_eq (wellFormed_of_readable hv) (wellFormed_of_readable hw)]
  constructor
  · intro h
    have hloads := loads_dumps hv
    rw [h, loads_dumps hw, Option.some_inj] at hloads
    exact hloads.symm
  · intro h
    rw [dumps_eq_write v (wellFormed_of_readable hv), h,
      ← dumps_eq_write w (wellFormed_of_readable hw)]

end Lib.Json
