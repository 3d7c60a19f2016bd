import Mathlib.Algebra.GroupWithZero.Nat
import Mathlib.Data.List.Sort
import WebhookEngine.Lib.Text
import WebhookEngine.Lib.Tree

/-!
# The text of a JSON value

`json.dumps(value, separators=(",", ":"), sort_keys=True)` of Python: no blanks, the keys
of a dictionary in the order of their code points, and all text that is not printable ASCII
escaped.

* `isAscii_dumps`: the text is ASCII;
* `length_encode`: so each of its characters is one byte of UTF-8;
* `length_dumps_dict`: how long the text of a dictionary is.
-/

namespace Lib.Json

open Text

/-! ## Values -/

/-- A `str`: its code points, those of lone surrogates among them. -/
abbrev Str := List Nat

def ofString (s : String) : Str := s.toList.map Char.toNat

def IsAscii (s : List Char) : Prop := ∀ c ∈ s, c.toNat < 128

/-- What is neither a list nor a dictionary; a `float` is given by its `repr`. -/
inductive Atom where
  | null
  | bool (b : Bool)
  | int (n : Int)
  | float (repr : List Char) (ascii : IsAscii repr)
  | str (s : Str)

abbrev Value := Tree Str Atom

/-- `str | None`. -/
def optional (s : Option String) : Value :=
  match s with
  | none => .atom .null
  | some s => .atom (.str (ofString s))

/-! ## Escapes -/

def hexDigit (n : Nat) : Char := Nat.digitChar (n % 16)

/-- `"\\u{0:04x}".format(n)`. -/
def unicodeEscape (n : Nat) : List Char :=
  ['\\', 'u', hexDigit (n / 4096), hexDigit (n / 256), hexDigit (n / 16), hexDigit n]

/-- `ESCAPE_DCT`. -/
def shortEscapes : List (Nat × Char) := [
  (0x5c, '\\'), (0x22, '"'), (0x08, 'b'), (0x0c, 'f'), (0x0a, 'n'), (0x0d, 'r'), (0x09, 't')]

/-- One code point; above the first plane it is a pair of surrogates. -/
def escape (n : Nat) : List Char :=
  match shortEscapes.find? fun e => e.1 = n with
  | some e => ['\\', e.2]
  | none =>
    if 0x20 ≤ n ∧ n < 0x7f then [Char.ofNat n]
    else if n < 0x10000 then unicodeEscape n
    else
      unicodeEscape (0xd800 + (n - 0x10000) / 0x400) ++
        unicodeEscape (0xdc00 + (n - 0x10000) % 0x400)

def quote (s : Str) : List Char := '"' :: (s.flatMap escape ++ ['"'])

/-! ## The text -/

def Atom.dumps : Atom → List Char
  | .null => "null".toList
  | .bool true => "true".toList
  | .bool false => "false".toList
  | .int n => Text.str n
  | .float repr _ => repr
  | .str s => quote s

def commas : List (List Char) → List Char
  | [] => []
  | [text] => text
  | text :: texts => text ++ ',' :: commas texts

/-- `<=` of two texts: by the first code point in which they differ. -/
def notAfter : Str → Str → Bool
  | [], _ => true
  | _ :: _, [] => false
  | x :: xs, y :: ys => decide (x < y) || (decide (x = y) && notAfter xs ys)

/-- The entries of a dictionary, sorted by their keys. -/
def sortKeys {α : Type} (items : List (Str × α)) : List (Str × α) :=
  items.insertionSort fun a b => notAfter a.1 b.1

def entry (item : Str × List Char) : List Char := quote item.1 ++ ':' :: item.2

mutual

def dumps : Value → List Char
  | .atom a => a.dumps
  | .list xs => '[' :: (commas (dumpsList xs) ++ [']'])
  | .dict items => '{' :: (commas ((sortKeys (dumpsItems items)).map entry) ++ ['}'])

def dumpsList : List Value → List (List Char)
  | [] => []
  | x :: xs => dumps x :: dumpsList xs

def dumpsItems : List (Str × Value) → List (Str × List Char)
  | [] => []
  | (k, x) :: items => (k, dumps x) :: dumpsItems items

end

/-- `text.encode()`. -/
def encode (text : List Char) : List UInt8 := text.flatMap String.utf8EncodeChar

/-! ## Everything is ASCII -/

theorem isAscii_append {s t : List Char} (hs : IsAscii s) (ht : IsAscii t) : IsAscii (s ++ t) :=
  List.forall_mem_append.mpr ⟨hs, ht⟩

theorem isAscii_cons {c : Char} {s : List Char} (hc : c.toNat < 128) (hs : IsAscii s) :
    IsAscii (c :: s) :=
  List.forall_mem_cons.mpr ⟨hc, hs⟩

theorem isAscii_of_all {s : List Char} (h : s.all (fun c => decide (c.toNat < 128)) = true) :
    IsAscii s := fun c hc => of_decide_eq_true (List.all_eq_true.mp h c hc)

theorem isAscii_unicodeEscape (n : Nat) : IsAscii (unicodeEscape n) := by
  have hdigit : ∀ k < 16, (Nat.digitChar k).toNat < 128 := by decide
  have hhex : ∀ k, (hexDigit k).toNat < 128 := fun k => hdigit _ (Nat.mod_lt k (by decide))
  intro c hc
  simp only [unicodeEscape, List.mem_cons, List.not_mem_nil, or_false] at hc
  rcases hc with rfl | rfl | rfl | rfl | rfl | rfl
  · decide
  · decide
  · exact hhex _
  · exact hhex _
  · exact hhex _
  · exact hhex _

theorem isAscii_escape (n : Nat) : IsAscii (escape n) := by
  have hshort : ∀ e ∈ shortEscapes, e.2.toNat < 128 := by decide
  have hprint : ∀ k < 127, (Char.ofNat k).toNat < 128 := by decide
  unfold escape
  split
  next e he =>
    exact isAscii_cons (by decide)
      (isAscii_cons (hshort e (List.mem_of_find?_eq_some he)) (isAscii_of_all rfl))
  · split_ifs with h
    · exact isAscii_cons (hprint n h.2) (isAscii_of_all rfl)
    · exact isAscii_unicodeEscape n
    · exact isAscii_append (isAscii_unicodeEscape _) (isAscii_unicodeEscape _)

theorem isAscii_quote (s : Str) : IsAscii (quote s) := by
  refine isAscii_cons (by decide) (isAscii_append ?_ (isAscii_of_all rfl))
  intro c hc
  obtain ⟨n, -, hn⟩ := List.mem_flatMap.mp hc
  exact isAscii_escape n c hn

theorem isAscii_str (n : Int) : IsAscii (Text.str n) := by
  intro c hc
  rcases isDigit_or_minus_of_mem_str hc with hd | rfl
  · exact lt_of_le_of_lt (toNat_of_isDigit hd).2 (by decide)
  · decide

theorem isAscii_atom (a : Atom) : IsAscii a.dumps := by
  cases a with
  | null => exact isAscii_of_all rfl
  | bool b => cases b <;> exact isAscii_of_all rfl
  | int n => exact isAscii_str n
  | float repr ascii => exact ascii
  | str s => exact isAscii_quote s

theorem isAscii_commas {texts : List (List Char)} (h : ∀ t ∈ texts, IsAscii t) :
    IsAscii (commas texts) := by
  fun_induction commas texts with
  | case1 => exact isAscii_of_all rfl
  | case2 text => exact h text (List.mem_singleton_self text)
  | case3 text texts _ ih =>
    obtain ⟨htext, htexts⟩ := List.forall_mem_cons.mp h
    exact isAscii_append htext (isAscii_cons (by decide) (ih htexts))

theorem isAscii_sorted {items : List (Str × List Char)} (h : ∀ e ∈ items, IsAscii e.2) :
    ∀ t ∈ (sortKeys items).map entry, IsAscii t := by
  intro t ht
  obtain ⟨e, he, rfl⟩ := List.mem_map.mp ht
  have hmem : e ∈ items := (List.perm_insertionSort _ items).mem_iff.mp he
  exact isAscii_append (isAscii_quote e.1) (isAscii_cons (by decide) (h e hmem))

mutual

theorem isAscii_dumps : ∀ v : Value, IsAscii (dumps v)
  | .atom a => isAscii_atom a
  | .list xs => isAscii_cons (by decide)
      (isAscii_append (isAscii_commas (isAscii_dumpsList xs)) (isAscii_of_all rfl))
  | .dict items => isAscii_cons (by decide)
      (isAscii_append (isAscii_commas (isAscii_sorted (isAscii_dumpsItems items)))
        (isAscii_of_all rfl))

theorem isAscii_dumpsList : ∀ xs : List Value, ∀ t ∈ dumpsList xs, IsAscii t
  | [] => fun _ h => by cases h
  | x :: xs => List.forall_mem_cons.mpr ⟨isAscii_dumps x, isAscii_dumpsList xs⟩

theorem isAscii_dumpsItems : ∀ items : List (Str × Value), ∀ e ∈ dumpsItems items, IsAscii e.2
  | [] => fun _ h => by cases h
  | (_, x) :: items => List.forall_mem_cons.mpr ⟨isAscii_dumps x, isAscii_dumpsItems items⟩

end

theorem length_encode {text : List Char} (h : IsAscii text) :
    (encode text).length = text.length := by
  induction text with
  | nil => rfl
  | cons c text ih =>
    obtain ⟨hc, htext⟩ := List.forall_mem_cons.mp h
    have hsize : c.utf8Size = 1 := by
      rw [Char.utf8Size_eq_one_iff, UInt32.le_iff_toNat_le]
      exact Nat.le_of_lt_succ hc
    rw [encode, List.flatMap_cons, List.length_append, String.length_utf8EncodeChar, hsize,
      ← encode, ih htext, List.length_cons, Nat.add_comm]

/-! ## Lengths -/

theorem length_commas (texts : List (List Char)) (h : texts ≠ []) :
    (commas texts).length + 1 = (texts.map fun t => t.length + 1).sum := by
  fun_induction commas texts with
  | case1 => exact absurd rfl h
  | case2 text => simp
  | case3 text texts hne ih =>
    rw [List.map_cons, List.sum_cons, ← ih hne, List.length_append, List.length_cons]
    omega

theorem dumpsItems_eq_map (items : List (Str × Value)) :
    dumpsItems items = items.map fun e => (e.1, dumps e.2) := by
  induction items with
  | nil => rfl
  | cons e items ih => rw [dumpsItems, ih, List.map_cons]

/-- Each entry adds its key, its value, a colon, and a comma or the closing brace. -/
theorem length_dumps_dict {items : List (Str × Value)} (h : items ≠ []) :
    (dumps (.dict items)).length =
      1 + (items.map fun e => (quote e.1).length + (dumps e.2).length + 2).sum := by
  have hperm : (sortKeys (dumpsItems items)).Perm (dumpsItems items) :=
    List.perm_insertionSort _ _
  have hne : (sortKeys (dumpsItems items)).map entry ≠ [] := by
    rw [Ne, List.map_eq_nil_iff, ← List.length_eq_zero_iff, hperm.length_eq, dumpsItems_eq_map,
      List.length_map, List.length_eq_zero_iff]
    exact h
  have hsum : (((sortKeys (dumpsItems items)).map entry).map fun t => t.length + 1).sum =
      (items.map fun e => (quote e.1).length + (dumps e.2).length + 2).sum := by
    rw [((hperm.map entry).map _).sum_nat, dumpsItems_eq_map, List.map_map, List.map_map]
    refine congrArg List.sum (List.map_congr_left fun e _ => ?_)
    simp only [Function.comp_apply, entry, List.length_append, List.length_cons]
    omega
  rw [dumps, List.length_cons, List.length_append, List.length_singleton, length_commas _ hne,
    hsum]
  omega

end Lib.Json
