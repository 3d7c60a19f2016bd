import Mathlib.Algebra.Group.Nat.Defs
import Mathlib.Data.List.Basic
import Mathlib.Data.List.DropRight

/-!
# Text, as Python's `str` methods cut it

Functions on lists of characters: `partition` and `rpartition` at a character,
`strip` and `split` at white space, `lstrip` of a set, printing and reading of
integers. Each comes with what a caller needs to know of the pieces:

* `partition_some`, `partition_none`, `rpartition_some`;
* `split_words`: words joined by one blank are split apart again;
* `join_inj`: three texts joined at one character, the middle one free, are told apart;
* `readInt_str`: `int` reads what `str` prints, `int_str_iff`: within its limit on the digits.
-/

namespace Lib.Text

/-! ## Cutting at a character -/

/-- `s.partition(c)`: the part before the first `c`, and the rest after it if there is one. -/
def partition (c : Char) : List Char → List Char × Option (List Char)
  | [] => ([], none)
  | x :: xs => if x = c then ([], some xs) else (x :: (partition c xs).1, (partition c xs).2)

/-- `s.rpartition(c)`: the part before the last `c` if there is one, and the rest after it. -/
def rpartition (c : Char) (s : List Char) : Option (List Char) × List Char :=
  ((partition c s.reverse).2.map List.reverse, (partition c s.reverse).1.reverse)

theorem partition_of_not_mem {c : Char} {s : List Char} (h : c ∉ s) :
    partition c s = (s, none) := by
  induction s with
  | nil => rfl
  | cons x xs ih =>
    rw [List.mem_cons, not_or] at h
    rw [partition, if_neg (Ne.symm h.1), ih h.2]

theorem partition_append {c : Char} {a : List Char} (h : c ∉ a) (b : List Char) :
    partition c (a ++ c :: b) = (a, some b) := by
  induction a with
  | nil => rw [List.nil_append, partition, if_pos rfl]
  | cons x xs ih =>
    rw [List.mem_cons, not_or] at h
    rw [List.cons_append, partition, if_neg (Ne.symm h.1), ih h.2]

theorem partition_append_of_not_mem {c : Char} {a : List Char} (h : c ∉ a) (b : List Char) :
    partition c (a ++ b) = (a ++ (partition c b).1, (partition c b).2) := by
  induction a with
  | nil => rfl
  | cons x xs ih =>
    rw [List.mem_cons, not_or] at h
    rw [List.cons_append, partition, if_neg (Ne.symm h.1), ih h.2, List.cons_append]

theorem partition_none {c : Char} {s : List Char} (h : (partition c s).2 = none) :
    c ∉ s ∧ (partition c s).1 = s := by
  induction s with
  | nil => exact ⟨List.not_mem_nil, rfl⟩
  | cons x xs ih =>
    rw [partition] at h ⊢
    split at h
    case isTrue => cases h
    case isFalse hx =>
      obtain ⟨hm, he⟩ := ih h
      rw [if_neg hx, he]
      exact ⟨by simp [Ne.symm hx, hm], rfl⟩

theorem partition_some {c : Char} {s b : List Char} (h : (partition c s).2 = some b) :
    s = (partition c s).1 ++ c :: b ∧ c ∉ (partition c s).1 := by
  induction s with
  | nil => cases h
  | cons x xs ih =>
    rw [partition] at h ⊢
    split at h
    case isTrue hx =>
      cases h
      rw [if_pos hx, hx]
      exact ⟨rfl, List.not_mem_nil⟩
    case isFalse hx =>
      obtain ⟨he, hm⟩ := ih h
      rw [if_neg hx]
      exact ⟨congrArg (x :: ·) he, by simp [Ne.symm hx, hm]⟩

/-- The part before the cut never holds the character. -/
theorem not_mem_partition (c : Char) (s : List Char) : c ∉ (partition c s).1 := by
  cases h : (partition c s).2 with
  | none =>
    obtain ⟨hm, he⟩ := partition_none h
    rwa [he]
  | some b => exact (partition_some h).2

theorem mem_of_mem_partition {c x : Char} {s : List Char} (h : x ∈ (partition c s).1) : x ∈ s := by
  cases hp : (partition c s).2 with
  | none => rwa [(partition_none hp).2] at h
  | some b =>
    rw [(partition_some hp).1]
    exact List.mem_append_left _ h

theorem mem_of_mem_behind {c x : Char} {s : List Char} (h : x ∈ (partition c s).2.getD []) :
    x ∈ s := by
  cases hp : (partition c s).2 with
  | none =>
    rw [hp] at h
    cases h
  | some b =>
    rw [hp] at h
    rw [(partition_some hp).1]
    exact List.mem_append_right _ (List.mem_cons_of_mem _ h)

theorem rpartition_of_not_mem {c : Char} {s : List Char} (h : c ∉ s) :
    rpartition c s = (none, s) := by
  rw [rpartition, partition_of_not_mem (by rwa [List.mem_reverse])]
  simp

theorem rpartition_some {c : Char} {s a : List Char} (h : (rpartition c s).1 = some a) :
    s = a ++ c :: (rpartition c s).2 ∧ c ∉ (rpartition c s).2 := by
  obtain ⟨b, hb, rfl⟩ := Option.map_eq_some_iff.mp h
  obtain ⟨he, hm⟩ := partition_some hb
  refine ⟨?_, by rwa [rpartition, List.mem_reverse]⟩
  have hrev := congrArg List.reverse he
  rw [List.reverse_reverse] at hrev
  rw [rpartition]
  simpa using hrev

theorem rpartition_append {c : Char} {b : List Char} (h : c ∉ b) (a : List Char) :
    (rpartition c (a ++ b)).2 = (rpartition c a).2 ++ b := by
  rw [rpartition, rpartition, List.reverse_append,
    partition_append_of_not_mem (by rwa [List.mem_reverse]), List.reverse_append,
    List.reverse_reverse]

/-- The part after the last cut never holds the character. -/
theorem not_mem_rpartition (c : Char) (s : List Char) : c ∉ (rpartition c s).2 := by
  rw [rpartition, List.mem_reverse]
  exact not_mem_partition c s.reverse

theorem mem_of_mem_rpartition {c x : Char} {s : List Char} (h : x ∈ (rpartition c s).2) :
    x ∈ s := by
  rw [rpartition, List.mem_reverse] at h
  exact List.mem_reverse.mp (mem_of_mem_partition h)

/-! ## White space -/

/-- `str.isspace` for one character. -/
def isSpace (c : Char) : Bool :=
  (0x9 ≤ c.toNat && c.toNat ≤ 0xd) || (0x1c ≤ c.toNat && c.toNat ≤ 0x20) ||
    [0x85, 0xa0, 0x1680, 0x2028, 0x2029, 0x202f, 0x205f, 0x3000].contains c.toNat ||
    (0x2000 ≤ c.toNat && c.toNat ≤ 0x200a)

/-- `s.strip()`. -/
def strip (s : List Char) : List Char := (s.dropWhile isSpace).rdropWhile isSpace

/-- `s.split()`, with the word read so far. -/
def splitFrom : List Char → List Char → List (List Char)
  | w, [] => if w = [] then [] else [w]
  | w, x :: xs =>
    if isSpace x then (if w = [] then splitFrom [] xs else w :: splitFrom [] xs)
    else splitFrom (w ++ [x]) xs

/-- `s.split()`: the words between white space. -/
def split (s : List Char) : List (List Char) := splitFrom [] s

theorem splitFrom_word {v : List Char} (hv : ∀ c ∈ v, isSpace c = false) (w : List Char) :
    splitFrom w v = if w ++ v = [] then [] else [w ++ v] := by
  induction v generalizing w with
  | nil => rw [List.append_nil, splitFrom]
  | cons x xs ih =>
    have hx : isSpace x = false := hv x (List.mem_cons_self ..)
    rw [splitFrom, if_neg (by simp [hx]), ih fun c hc => hv c (List.mem_cons_of_mem _ hc)]
    simp

theorem splitFrom_word_append {v : List Char} (hv : ∀ c ∈ v, isSpace c = false) (w : List Char)
    (hne : w ++ v ≠ []) (s : List Char) :
    splitFrom w (v ++ ' ' :: s) = (w ++ v) :: split s := by
  induction v generalizing w with
  | nil =>
    rw [List.append_nil] at hne
    rw [List.nil_append, splitFrom, if_pos (by decide), if_neg hne, List.append_nil, split]
  | cons x xs ih =>
    have hx : isSpace x = false := hv x (List.mem_cons_self ..)
    rw [List.cons_append, splitFrom, if_neg (by simp [hx]),
      ih (fun c hc => hv c (List.mem_cons_of_mem _ hc)) (w ++ [x]) (by simp)]
    simp

theorem split_word {v : List Char} (hv : ∀ c ∈ v, isSpace c = false) (hne : v ≠ []) :
    split v = [v] := by
  rw [split, splitFrom_word hv, List.nil_append, if_neg hne]

/-- Words with one blank between them are split apart again. -/
theorem split_words {v w : List Char} (hv : ∀ c ∈ v, isSpace c = false) (hvne : v ≠ [])
    (hw : ∀ c ∈ w, isSpace c = false) (hwne : w ≠ []) : split (v ++ ' ' :: w) = [v, w] := by
  rw [split, splitFrom_word_append hv [] (by simpa using hvne), split_word hw hwne,
    List.nil_append]

/-! ## Joining -/

/-- Three texts joined at a character are told apart, if the first does not hold the
character and the last has a known length; the one between them may be any text. -/
theorem join_inj {c : Char} {a a' x x' d d' : List Char} (ha : c ∉ a) (ha' : c ∉ a')
    (hd : d.length = d'.length)
    (h : a ++ c :: x ++ c :: d = a' ++ c :: x' ++ c :: d') : a = a' ∧ x = x' ∧ d = d' := by
  obtain ⟨hfront, hlast⟩ := List.append_inj' h (by simp [hd])
  have hparts := congrArg (partition c) hfront
  rw [partition_append ha, partition_append ha', Prod.mk.injEq, Option.some_inj] at hparts
  exact ⟨hparts.1, hparts.2, (List.cons.inj hlast).2⟩

/-! ## Integers -/

/-- `str(n)`. -/
def str : Int → List Char
  | .ofNat n => Nat.toDigits 10 n
  | .negSucc n => '-' :: Nat.toDigits 10 (n + 1)

/-- The code points of the digit zero in each script that has decimal digits. -/
def zeros : List Nat := [
  0x30, 0x660, 0x6f0, 0x7c0, 0x966, 0x9e6, 0xa66, 0xae6, 0xb66, 0xbe6, 0xc66, 0xce6, 0xd66, 0xde6,
  0xe50, 0xed0, 0xf20, 0x1040, 0x1090, 0x17e0, 0x1810, 0x1946, 0x19d0, 0x1a80, 0x1a90, 0x1b50,
  0x1bb0, 0x1c40, 0x1c50, 0xa620, 0xa8d0, 0xa900, 0xa9d0, 0xa9f0, 0xaa50, 0xabf0, 0xff10, 0x104a0,
  0x10d30, 0x11066, 0x110f0, 0x11136, 0x111d0, 0x112f0, 0x11450, 0x114d0, 0x11650, 0x116c0,
  0x11730, 0x118e0, 0x11950, 0x11c50, 0x11d50, 0x11da0, 0x11f50, 0x16a60, 0x16ac0, 0x16b50,
  0x1d7ce, 0x1d7d8, 0x1d7e2, 0x1d7ec, 0x1d7f6, 0x1e140, 0x1e2f0, 0x1e4f0, 0x1e950, 0x1fbf0]

/-- The value of a decimal digit of any script. -/
def digitValue (c : Char) : Option Nat :=
  (zeros.find? fun z => z ≤ c.toNat && c.toNat ≤ z + 9).map fun z => c.toNat - z

/-- The digits after the first, with single underscores between them. -/
def intTail (acc : Nat) : List Char → Option Nat
  | [] => some acc
  | [c] => (digitValue c).map fun d => 10 * acc + d
  | c :: c' :: cs =>
    if c = '_' then (digitValue c').bind fun d => intTail (10 * acc + d) cs
    else (digitValue c).bind fun d => intTail (10 * acc + d) (c' :: cs)

def intDigits : List Char → Option Nat
  | [] => none
  | c :: cs => (digitValue c).bind fun d => intTail d cs

/-- White space as `int` strips it: `isspace`, less the four separators U+001C to U+001F. -/
def isIntSpace (c : Char) : Bool := isSpace c && !(0x1c ≤ c.toNat && c.toNat ≤ 0x1f)

/-- A number written in digits of any script, whatever its length. -/
def readInt (s : List Char) : Option Int :=
  match (s.dropWhile isIntSpace).rdropWhile isIntSpace with
  | [] => none
  | c :: cs =>
    if c = '-' then (intDigits cs).map fun (n : Nat) => -Int.ofNat n
    else if c = '+' then (intDigits cs).map Int.ofNat
    else (intDigits (c :: cs)).map Int.ofNat

/-- `sys.get_int_max_str_digits()`. -/
def maxStrDigits : Nat := 4300

/-- `int(s)`; `none` is the `ValueError`. Leading zeros count as digits, underscores do not. -/
def int (s : List Char) : Option Int :=
  if maxStrDigits < s.countP fun c => (digitValue c).isSome then none else readInt s

theorem toNat_of_isDigit {c : Char} (h : c.isDigit = true) : 48 ≤ c.toNat ∧ c.toNat ≤ 57 := by
  simp only [Char.isDigit, Bool.and_eq_true, decide_eq_true_eq, ge_iff_le, UInt32.le_iff_toNat_le]
    at h
  exact h

theorem digitValue_of_isDigit {c : Char} (h : c.isDigit = true) :
    digitValue c = some (c.toNat - '0'.toNat) := by
  have hrange := toNat_of_isDigit h
  have hfind : zeros.find? (fun z => z ≤ c.toNat && c.toNat ≤ z + 9) = some 0x30 := by
    rw [zeros, List.find?_cons_of_pos]
    simp only [Bool.and_eq_true, decide_eq_true_eq]
    exact hrange
  rw [digitValue, hfind]
  rfl

theorem not_isSpace_of_isDigit {c : Char} (h : c.isDigit = true) : isSpace c = false := by
  have hrange := toNat_of_isDigit h
  simp only [isSpace, List.contains_eq_mem, List.mem_cons, List.not_mem_nil, or_false,
    Bool.or_eq_false_iff, Bool.and_eq_false_iff, decide_eq_false_iff_not]
  omega

theorem intTail_of_isDigit {cs : List Char} (h : ∀ c ∈ cs, c.isDigit = true) (acc : Nat) :
    intTail acc cs = some (Nat.ofDigitChars 10 cs acc) := by
  induction cs generalizing acc with
  | nil => simp [intTail]
  | cons c cs ih =>
    have hc := h c (List.mem_cons_self ..)
    have htail := ih fun x hx => h x (List.mem_cons_of_mem _ hx)
    have hne : c ≠ '_' := by
      rintro rfl
      cases hc
    cases cs with
    | nil => simp [intTail, digitValue_of_isDigit hc, Nat.ofDigitChars_cons]
    | cons c' cs =>
      rw [intTail, if_neg hne, digitValue_of_isDigit hc, Option.bind_some, htail,
        ← Nat.ofDigitChars_cons]

theorem intDigits_toDigits (n : Nat) : intDigits (Nat.toDigits 10 n) = some n := by
  have hd : ∀ c ∈ Nat.toDigits 10 n, c.isDigit = true := fun c hc =>
    Nat.isDigit_of_mem_toDigits (by decide) (by decide) hc
  have hval : Nat.ofDigitChars 10 (Nat.toDigits 10 n) 0 = n := Nat.ofDigitChars_ten_toDigits
  cases hs : Nat.toDigits 10 n with
  | nil => exact absurd hs Nat.toDigits_ne_nil
  | cons c cs =>
    rw [hs] at hd hval
    rw [intDigits, digitValue_of_isDigit (hd c (List.mem_cons_self ..)), Option.bind_some,
      intTail_of_isDigit fun x hx => hd x (List.mem_cons_of_mem _ hx)]
    rw [Nat.ofDigitChars_cons, Nat.mul_zero, Nat.zero_add] at hval
    rw [hval]

theorem intStrip_of_not_space {s : List Char} (h : ∀ c ∈ s, isSpace c = false) :
    (s.dropWhile isIntSpace).rdropWhile isIntSpace = s := by
  have hn : ∀ c ∈ s, isIntSpace c = false := fun c hc => by rw [isIntSpace, h c hc, Bool.false_and]
  have hl : s.dropWhile isIntSpace = s := by
    cases s with
    | nil => rfl
    | cons c cs => rw [List.dropWhile_cons, if_neg (by simp [hn c (List.mem_cons_self ..)])]
  rw [hl, List.rdropWhile_eq_self_iff]
  intro hne
  simp [hn _ (List.getLast_mem hne)]

theorem isDigit_or_minus_of_mem_str {n : Int} {c : Char} (h : c ∈ str n) :
    c.isDigit = true ∨ c = '-' := by
  cases n with
  | ofNat n => exact Or.inl (Nat.isDigit_of_mem_toDigits (by decide) (by decide) h)
  | negSucc n =>
    rcases List.mem_cons.mp h with rfl | h
    · exact Or.inr rfl
    · exact Or.inl (Nat.isDigit_of_mem_toDigits (by decide) (by decide) h)

theorem str_ne_nil (n : Int) : str n ≠ [] := by
  cases n with
  | ofNat n => exact Nat.toDigits_ne_nil
  | negSucc n => exact List.cons_ne_nil _ _

/-- **Round trip.** What `str` prints is read back. -/
theorem readInt_str (n : Int) : readInt (str n) = some n := by
  have hspace : ∀ c ∈ str n, isSpace c = false := by
    intro c hc
    rcases isDigit_or_minus_of_mem_str hc with h | rfl
    · exact not_isSpace_of_isDigit h
    · rfl
  rw [readInt, intStrip_of_not_space hspace]
  cases n with
  | ofNat n =>
    have hd := intDigits_toDigits n
    cases hs : Nat.toDigits 10 n with
    | nil => exact absurd hs Nat.toDigits_ne_nil
    | cons c cs =>
      have hc : c.isDigit = true := Nat.isDigit_of_mem_toDigits (b := 10) (n := n) (by decide)
        (by decide) (by rw [hs]; exact List.mem_cons_self ..)
      have hminus : c ≠ '-' := by rintro rfl; cases hc
      have hplus : c ≠ '+' := by rintro rfl; cases hc
      rw [hs] at hd
      simp only [str, hs, if_neg hminus, if_neg hplus, hd, Option.map_some]
  | negSucc n =>
    simp only [str, if_pos, intDigits_toDigits, Option.map_some]
    rfl

theorem str_inj {n m : Int} (h : str n = str m) : n = m := by
  have hint := congrArg readInt h
  rw [readInt_str, readInt_str, Option.some_inj] at hint
  exact hint

theorem countP_digitValue_str (n : Int) :
    ((str n).countP fun c => (digitValue c).isSome) = (Nat.toDigits 10 n.natAbs).length := by
  have hdigits : ∀ k : Nat, ((Nat.toDigits 10 k).countP fun c => (digitValue c).isSome) =
      (Nat.toDigits 10 k).length := by
    intro k
    rw [List.countP_eq_length]
    intro c hc
    rw [digitValue_of_isDigit (Nat.isDigit_of_mem_toDigits (by decide) (by decide) hc)]
    rfl
  cases n with
  | ofNat n => exact hdigits n
  | negSucc n =>
    rw [str, List.countP_cons_of_neg (by decide)]
    exact hdigits (n + 1)

/-- **`int` takes what `str` prints** exactly within the limit on the digits. -/
theorem int_str_iff (n : Int) :
    int (str n) = some n ↔ (Nat.toDigits 10 n.natAbs).length ≤ maxStrDigits := by
  rw [int, countP_digitValue_str, readInt_str]
  by_cases h : maxStrDigits < (Nat.toDigits 10 n.natAbs).length
  · rw [if_pos h]
    exact iff_of_false (fun he => by cases he) (not_le.mpr h)
  · rw [if_neg h]
    exact iff_of_true rfl (not_lt.mp h)

theorem digits_le_iff (n : Nat) :
    (Nat.toDigits 10 n).length ≤ maxStrDigits ↔ n < 10 ^ maxStrDigits :=
  Nat.length_toDigits_le_iff (by decide) (by decide)

theorem int_str {n : Int} (h : n.natAbs < 10 ^ maxStrDigits) : int (str n) = some n :=
  (int_str_iff n).mpr ((digits_le_iff _).mpr h)

/-- A longer number is refused. -/
theorem int_str_eq_none {n : Int} (h : 10 ^ maxStrDigits ≤ n.natAbs) : int (str n) = none := by
  have hlength : ¬ (Nat.toDigits 10 n.natAbs).length ≤ maxStrDigits := fun hle =>
    not_lt.mpr h ((digits_le_iff _).mp hle)
  rw [int, countP_digitValue_str, if_pos (not_le.mp hlength)]

end Lib.Text
