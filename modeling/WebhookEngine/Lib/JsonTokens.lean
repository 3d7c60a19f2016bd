import WebhookEngine.Lib.Json

/-!
# The strings and the numbers of a JSON text

How `json.loads` of Python reads them, apart from what a number is converted to.

* `scanString_quote`, `scanNumber_append`: what was written is read back;
* `isText_of_scanString`, `isInteger_of_scan`: what is read has the form of what is written.
-/

namespace Lib.Json

open Text

/-! ## Strings -/

def hexValue (c : Char) : Option Nat :=
  if c.isDigit then some (c.toNat - '0'.toNat)
  else if 'a' ≤ c ∧ c ≤ 'f' then some (c.toNat - 'a'.toNat + 10)
  else if 'A' ≤ c ∧ c ≤ 'F' then some (c.toNat - 'A'.toNat + 10)
  else none

/-- The four digits of `\uXXXX`. -/
def scanHex : List Char → Option (Nat × List Char)
  | a :: b :: c :: d :: text =>
    (hexValue a).bind fun a => (hexValue b).bind fun b => (hexValue c).bind fun c =>
      (hexValue d).map fun d => (4096 * a + 256 * b + 16 * c + d, text)
  | _ => none

/-- `BACKSLASH`. -/
def unescape (c : Char) : Option Nat :=
  if c = '/' then some 0x2f else (shortEscapes.find? fun e => e.2 = c).map Prod.fst

/-- What follows a backslash. -/
def scanEscape : List Char → Option (Nat × List Char)
  | [] => none
  | c :: text => if c = 'u' then scanHex text else (unescape c).map fun n => (n, text)

/-- One code unit. -/
def scanUnit : List Char → Option (Nat × List Char)
  | [] => none
  | c :: text =>
    if c = '\\' then scanEscape text
    else if c.toNat < 0x20 then none
    else some (c.toNat, text)

/-- The code units before the quotation mark at the end, and the text after it. -/
def scanUnits : Nat → List Char → Option (Str × List Char)
  | 0, _ => none
  | fuel + 1, text =>
    if text.head? = some '"' then some ([], text.tail)
    else (scanUnit text).bind fun (n, rest) =>
      (scanUnits fuel rest).map fun (units, rest) => (n :: units, rest)

def isHigh (n : Nat) : Bool := 0xd800 ≤ n && n < 0xdc00

def isLow (n : Nat) : Bool := 0xdc00 ≤ n && n < 0xe000

/-- Each pair of surrogates becomes one code point. -/
def joinSurrogates : Str → Str
  | [] => []
  | [n] => [n]
  | h :: l :: s =>
    if isHigh h && isLow l then
      (0x10000 + (h - 0xd800) * 0x400 + (l - 0xdc00)) :: joinSurrogates s
    else h :: joinSurrogates (l :: s)

/-- `scanstring`: the text after a quotation mark. -/
def scanString (text : List Char) : Option (Str × List Char) :=
  (scanUnits (text.length + 1) text).map fun (units, rest) => (joinSurrogates units, rest)

/-! ## Numbers -/

/-- `0|[1-9][0-9]*`. -/
def scanNatural : List Char → Option (List Char × List Char)
  | [] => none
  | c :: text =>
    if c = '0' then some (['0'], text)
    else if c.isDigit then some (c :: text.takeWhile Char.isDigit, text.dropWhile Char.isDigit)
    else none

def scanInteger : List Char → Option (List Char × List Char)
  | [] => none
  | c :: text =>
    if c = '-' then (scanNatural text).map fun (digits, rest) => ('-' :: digits, rest)
    else scanNatural (c :: text)

/-- `(\.[0-9]+)?`. -/
def scanFraction : List Char → List Char × List Char
  | [] => ([], [])
  | c :: text =>
    if c = '.' ∧ text.takeWhile Char.isDigit ≠ [] then
      ('.' :: text.takeWhile Char.isDigit, text.dropWhile Char.isDigit)
    else ([], c :: text)

/-- `[-+]?`. -/
def scanSign : List Char → List Char × List Char
  | [] => ([], [])
  | c :: text => if c = '+' ∨ c = '-' then ([c], text) else ([], c :: text)

/-- `([eE][-+]?[0-9]+)?`. -/
def scanExponent : List Char → List Char × List Char
  | [] => ([], [])
  | c :: text =>
    let digits := (scanSign text).2
    if (c = 'e' ∨ c = 'E') ∧ digits.takeWhile Char.isDigit ≠ [] then
      (c :: ((scanSign text).1 ++ digits.takeWhile Char.isDigit), digits.dropWhile Char.isDigit)
    else ([], c :: text)

/-- `NUMBER_RE`: the integer, the fraction with the exponent, and the text after them. -/
def scanNumber (text : List Char) : Option (List Char × List Char × List Char) :=
  (scanInteger text).map fun (integer, text) =>
    let (fraction, text) := scanFraction text
    let (exponent, rest) := scanExponent text
    (integer, fraction ++ exponent, rest)

/-! ### Their grammar -/

def Digits (ds : List Char) : Prop := ∀ c ∈ ds, c.isDigit = true

def IsNatural (ds : List Char) : Prop :=
  ds = ['0'] ∨ ∃ c cs, ds = c :: cs ∧ c ≠ '0' ∧ Digits ds

def IsInteger (text : List Char) : Prop :=
  IsNatural text ∨ ∃ ds, text = '-' :: ds ∧ IsNatural ds

def IsFraction (text : List Char) : Prop :=
  text = [] ∨ ∃ ds, text = '.' :: ds ∧ ds ≠ [] ∧ Digits ds

def IsExponent (text : List Char) : Prop :=
  text = [] ∨ ∃ e sign ds, text = e :: (sign ++ ds) ∧ (e = 'e' ∨ e = 'E') ∧
    (sign = [] ∨ sign = ['+'] ∨ sign = ['-']) ∧ ds ≠ [] ∧ Digits ds

/-! ## Strings are read back -/

/-- The code units of a code point. -/
def units (n : Nat) : Str :=
  if n < 0x10000 then [n] else [0xd800 + (n - 0x10000) / 0x400, 0xdc00 + (n - 0x10000) % 0x400]

/-- A `str` that `json` gives back: no two surrogates in it make a pair. -/
structure IsText (s : Str) : Prop where
  points : ∀ n ∈ s, n < 0x110000
  unpaired : s.IsChain fun h l => (isHigh h && isLow l) = false

theorem hexValue_hexDigit (n : Nat) : hexValue (hexDigit n) = some (n % 16) := by
  have hdigit : ∀ k < 16, hexValue (Nat.digitChar k) = some k := by decide
  exact hdigit _ (Nat.mod_lt n (by decide))

theorem scanUnit_unicodeEscape {n : Nat} (h : n < 0x10000) (rest : List Char) :
    scanUnit (unicodeEscape n ++ rest) = some (n, rest) := by
  have hvalue :
      4096 * (n / 4096 % 16) + 256 * (n / 256 % 16) + 16 * (n / 16 % 16) + n % 16 = n := by
    omega
  simp only [unicodeEscape, List.cons_append, List.nil_append, scanUnit, if_pos, scanEscape,
    scanHex, hexValue_hexDigit, Option.bind_some, Option.map_some, hvalue]

theorem scanUnit_short {e : Nat × Char} (he : e ∈ shortEscapes) (rest : List Char) :
    scanUnit ('\\' :: e.2 :: rest) = some (e.1, rest) := by
  have hall : ∀ e ∈ shortEscapes, e.2 ≠ 'u' ∧ unescape e.2 = some e.1 := by decide
  obtain ⟨hu, hunescape⟩ := hall e he
  rw [scanUnit, if_pos rfl, scanEscape, if_neg hu, hunescape, Option.map_some]

theorem scanUnit_printable {n : Nat} (hshort : shortEscapes.find? (fun e => e.1 = n) = none)
    (h : 0x20 ≤ n ∧ n < 0x7f) (rest : List Char) :
    scanUnit (Char.ofNat n :: rest) = some (n, rest) ∧ Char.ofNat n ≠ '"' := by
  have hprint : ∀ k < 0x7f, (Char.ofNat k).toNat = k := by decide
  have hne : ∀ e ∈ shortEscapes, e.1 ≠ n := by
    intro e he
    simpa using List.find?_eq_none.mp hshort e he
  have hback : Char.ofNat n ≠ '\\' := by
    intro hc
    exact hne (0x5c, '\\') (by decide) ((hprint n h.2).symm.trans (by rw [hc]; rfl)).symm
  have hquote : Char.ofNat n ≠ '"' := by
    intro hc
    exact hne (0x22, '"') (by decide) ((hprint n h.2).symm.trans (by rw [hc]; rfl)).symm
  refine ⟨?_, hquote⟩
  rw [scanUnit, if_neg hback, hprint n h.2, if_neg (by omega)]

theorem scanUnits_unit {n : Nat} (fuel : Nat) {text rest : List Char}
    (hhead : text.head? ≠ some '"')
    (hunit : scanUnit text = some (n, rest)) : scanUnits (fuel + 1) text =
      (scanUnits fuel rest).map fun (units, rest) => (n :: units, rest) := by
  rw [scanUnits, if_neg hhead, hunit, Option.bind_some]

theorem scanUnits_escape {n : Nat} (h : n < 0x110000) (fuel : Nat) (rest : List Char) :
    scanUnits (fuel + (units n).length) (escape n ++ rest) =
      (scanUnits fuel rest).map fun (s, rest) => (units n ++ s, rest) := by
  unfold escape
  cases hshort : shortEscapes.find? fun e => e.1 = n with
  | some e =>
    have he := List.mem_of_find?_eq_some hshort
    obtain rfl : e.1 = n := by simpa using List.find?_some hshort
    have hsmall : ∀ e ∈ shortEscapes, units e.1 = [e.1] := by decide
    rw [hsmall e he]
    exact scanUnits_unit _ (by simp) (scanUnit_short he rest)
  | none =>
    by_cases hprint : 0x20 ≤ n ∧ n < 0x7f
    · obtain ⟨hunit, hquote⟩ := scanUnit_printable hshort hprint rest
      have hsmall : units n = [n] := if_pos (by omega)
      rw [hsmall]
      simp only [if_pos hprint]
      exact scanUnits_unit _ (by simpa using hquote) hunit
    · simp only [if_neg hprint]
      by_cases hplane : n < 0x10000
      · have hsmall : units n = [n] := if_pos hplane
        rw [if_pos hplane, hsmall]
        exact scanUnits_unit _ (by simp [unicodeEscape]) (scanUnit_unicodeEscape hplane rest)
      · have hpair : units n = [0xd800 + (n - 0x10000) / 0x400, 0xdc00 + (n - 0x10000) % 0x400] :=
          if_neg hplane
        rw [if_neg hplane, hpair, List.append_assoc]
        have hhigh := scanUnits_unit (fuel + 1) (by simp [unicodeEscape])
          (scanUnit_unicodeEscape (n := 0xd800 + (n - 0x10000) / 0x400) (by omega)
            (unicodeEscape (0xdc00 + (n - 0x10000) % 0x400) ++ rest))
        have hlow := scanUnits_unit fuel (by simp [unicodeEscape])
          (scanUnit_unicodeEscape (n := 0xdc00 + (n - 0x10000) % 0x400) (by omega) rest)
        refine hhigh.trans ?_
        rw [hlow, Option.map_map]
        rfl

theorem scanUnits_text {s : Str} (h : ∀ n ∈ s, n < 0x110000) {fuel : Nat}
    (hfuel : (s.flatMap units).length < fuel) (rest : List Char) :
    scanUnits fuel (s.flatMap escape ++ '"' :: rest) = some (s.flatMap units, rest) := by
  induction s generalizing fuel with
  | nil =>
    obtain ⟨fuel, rfl⟩ := Nat.exists_eq_add_of_lt hfuel
    rfl
  | cons n s ih =>
    obtain ⟨hn, hs⟩ := List.forall_mem_cons.mp h
    rw [List.flatMap_cons, List.length_append] at hfuel
    obtain ⟨left, rfl⟩ : ∃ left, fuel = left + (units n).length :=
      ⟨fuel - (units n).length, by omega⟩
    rw [List.flatMap_cons, List.flatMap_cons, List.append_assoc, scanUnits_escape hn,
      ih hs (by omega), Option.map_some]

theorem length_units_le (n : Nat) : (units n).length ≤ (escape n).length := by
  have hescape : ∀ k, (unicodeEscape k).length = 6 := fun _ => rfl
  unfold units escape
  split <;> split <;> (try split_ifs) <;> (simp [hescape]; try omega)

theorem length_flatMap_units (s : Str) : (s.flatMap units).length ≤ (s.flatMap escape).length := by
  induction s with
  | nil => exact le_refl _
  | cons n s ih =>
    rw [List.flatMap_cons, List.flatMap_cons, List.length_append, List.length_append]
    exact Nat.add_le_add (length_units_le n) ih

/-- Nothing begins with a unit that makes a pair with what stands before it. -/
theorem joinSurrogates_cons {h : Nat} {us : Str}
    (hne : ∀ l ∈ us.head?, (isHigh h && isLow l) = false) :
    joinSurrogates (h :: us) = h :: joinSurrogates us := by
  cases us with
  | nil => rfl
  | cons l us => rw [joinSurrogates, if_neg (by rw [hne l rfl]; exact Bool.false_ne_true)]

theorem joinSurrogates_units {s : Str} (h : IsText s) : joinSurrogates (s.flatMap units) = s := by
  obtain ⟨hpoints, hunpaired⟩ := h
  induction s with
  | nil => rfl
  | cons n s ih =>
    obtain ⟨hn, hs⟩ := List.forall_mem_cons.mp hpoints
    have hih := ih hs hunpaired.of_cons
    rw [List.flatMap_cons, units]
    split
    case isTrue hplane =>
      rw [List.singleton_append, joinSurrogates_cons, hih]
      intro l hl
      cases s with
      | nil => cases hl
      | cons m s =>
        rw [List.isChain_cons_cons] at hunpaired
        rw [List.flatMap_cons, units] at hl
        split at hl
        · cases hl
          exact hunpaired.1
        · cases hl
          simp only [isLow, Bool.and_eq_false_iff, decide_eq_false_iff_not]
          have hm := hs m (List.mem_cons_self ..)
          right
          left
          omega
    case isFalse hplane =>
      have hpoint : 0x10000 + (0xd800 + (n - 0x10000) / 0x400 - 0xd800) * 0x400 +
          (0xdc00 + (n - 0x10000) % 0x400 - 0xdc00) = n := by omega
      rw [List.cons_append, List.cons_append, List.nil_append, joinSurrogates, if_pos, hih, hpoint]
      · simp only [isHigh, isLow, Bool.and_eq_true, decide_eq_true_eq]
        omega

/-- **Strings are read back.** -/
theorem scanString_quote {s : Str} (h : IsText s) (rest : List Char) :
    scanString (s.flatMap escape ++ '"' :: rest) = some (s, rest) := by
  have hlength := length_flatMap_units s
  rw [scanString, scanUnits_text h.points (by rw [List.length_append]; omega)]
  exact congrArg some (Prod.ext (joinSurrogates_units h) rfl)

/-! ### What is read is text -/

theorem lt_of_hexValue {c : Char} {n : Nat} (h : hexValue c = some n) : n < 16 := by
  unfold hexValue at h
  split_ifs at h with hdigit hlower hupper
  · cases h
    have hrange := toNat_of_isDigit hdigit
    change c.toNat - 48 < 16
    omega
  · cases h
    have hle : c.toNat ≤ 'f'.toNat := UInt32.le_iff_toNat_le.mp hlower.2
    change c.toNat ≤ 102 at hle
    change c.toNat - 97 + 10 < 16
    omega
  · cases h
    have hle : c.toNat ≤ 'F'.toNat := UInt32.le_iff_toNat_le.mp hupper.2
    change c.toNat ≤ 70 at hle
    change c.toNat - 65 + 10 < 16
    omega

theorem lt_of_scanHex {text rest : List Char} {n : Nat} (h : scanHex text = some (n, rest)) :
    n < 0x10000 := by
  match text, h with
  | a :: b :: c :: d :: text, h =>
    obtain ⟨a, ha, h⟩ := Option.bind_eq_some_iff.mp h
    obtain ⟨b, hb, h⟩ := Option.bind_eq_some_iff.mp h
    obtain ⟨c, hc, h⟩ := Option.bind_eq_some_iff.mp h
    obtain ⟨d, hd, h⟩ := Option.map_eq_some_iff.mp h
    cases h
    have ha := lt_of_hexValue ha
    have hb := lt_of_hexValue hb
    have hc := lt_of_hexValue hc
    have hd := lt_of_hexValue hd
    omega

theorem lt_of_scanUnit {text rest : List Char} {n : Nat} (h : scanUnit text = some (n, rest)) :
    n < 0x110000 := by
  cases text with
  | nil => cases h
  | cons c text =>
    rw [scanUnit] at h
    split_ifs at h with hback hcontrol
    · cases text with
      | nil => cases h
      | cons e text =>
        rw [scanEscape] at h
        split_ifs at h with hu
        · exact (lt_of_scanHex h).trans (by decide)
        · obtain ⟨m, hm, h⟩ := Option.map_eq_some_iff.mp h
          cases h
          have hshort : ∀ x ∈ shortEscapes, x.1 < 0x110000 := by decide
          unfold unescape at hm
          split_ifs at hm with hslash
          · cases hm
            decide
          · obtain ⟨x, hx, rfl⟩ := Option.map_eq_some_iff.mp hm
            exact hshort x (List.mem_of_find?_eq_some hx)
    · cases h
      have hvalid := c.valid
      change c.toNat.isValidChar at hvalid
      unfold Nat.isValidChar at hvalid
      omega

theorem isText_cons {n : Nat} {s : Str} (hn : n < 0x110000) (hs : IsText s)
    (hne : ∀ l ∈ s.head?, (isHigh n && isLow l) = false) : IsText (n :: s) := by
  refine ⟨List.forall_mem_cons.mpr ⟨hn, hs.points⟩, ?_⟩
  cases s with
  | nil => exact .singleton n
  | cons l s => exact List.isChain_cons_cons.mpr ⟨hne l rfl, hs.unpaired⟩

/-- Joining makes no surrogate, and leaves no two that make a pair. -/
theorem isText_joinSurrogates {us : Str} (h : ∀ n ∈ us, n < 0x110000) :
    IsText (joinSurrogates us) ∧
      ∀ l ∈ (joinSurrogates us).head?, us.head? = some l ∨ isLow l = false := by
  fun_induction joinSurrogates us with
  | case1 => exact ⟨⟨fun n hn => (by cases hn), .nil⟩, fun l hl => by cases hl⟩
  | case2 n => exact ⟨⟨h, .singleton n⟩, fun l hl => Or.inl hl⟩
  | case3 high low s hpair ih =>
    obtain ⟨-, h⟩ := List.forall_mem_cons.mp h
    obtain ⟨hs, -⟩ := ih (List.forall_mem_cons.mp h).2
    simp only [isHigh, isLow, Bool.and_eq_true, decide_eq_true_eq] at hpair
    refine ⟨isText_cons (by omega) hs fun l _ => ?_, fun l hl => Or.inr ?_⟩
    · simp only [isHigh, Bool.and_eq_false_iff, decide_eq_false_iff_not]
      omega
    · rw [List.head?_cons, Option.mem_some_iff] at hl
      rw [← hl]
      simp only [isLow, Bool.and_eq_false_iff, decide_eq_false_iff_not]
      omega
  | case4 high low s hpair ih =>
    obtain ⟨hhigh, h⟩ := List.forall_mem_cons.mp h
    obtain ⟨hs, hhead⟩ := ih h
    refine ⟨isText_cons hhigh hs fun l hl => ?_, fun l hl => Or.inl hl⟩
    rcases hhead l hl with hlow | hlow
    · cases hlow
      exact Bool.eq_false_iff.mpr hpair
    · rw [hlow, Bool.and_false]

theorem lt_of_scanUnits {fuel : Nat} {text rest : List Char} {us : Str}
    (h : scanUnits fuel text = some (us, rest)) : ∀ n ∈ us, n < 0x110000 := by
  induction fuel generalizing text us with
  | zero => cases h
  | succ fuel ih =>
    rw [scanUnits] at h
    split_ifs at h with hquote
    · cases h
      exact fun n hn => by cases hn
    · obtain ⟨⟨n, rest'⟩, hunit, h⟩ := Option.bind_eq_some_iff.mp h
      obtain ⟨⟨us', rest''⟩, hrest, h⟩ := Option.map_eq_some_iff.mp h
      cases h
      exact List.forall_mem_cons.mpr ⟨lt_of_scanUnit hunit, ih hrest⟩

theorem isText_of_scanString {text rest : List Char} {s : Str}
    (h : scanString text = some (s, rest)) : IsText s := by
  obtain ⟨⟨us, rest'⟩, hus, h⟩ := Option.map_eq_some_iff.mp h
  cases h
  exact (isText_joinSurrogates (lt_of_scanUnits hus)).1

/-! ## Numbers are read back -/

/-- What may stand after a number. -/
def Ends (rest : List Char) : Prop :=
  ∀ c ∈ rest.head?, c.isDigit = false ∧ c ≠ '.' ∧ c ≠ 'e' ∧ c ≠ 'E'

def NoDigit (rest : List Char) : Prop := ∀ c ∈ rest.head?, c.isDigit = false

theorem takeWhile_digits {ds rest : List Char} (hd : Digits ds) (hr : NoDigit rest) :
    (ds ++ rest).takeWhile Char.isDigit = ds ∧ (ds ++ rest).dropWhile Char.isDigit = rest := by
  rw [List.takeWhile_append_of_pos hd, List.dropWhile_append_of_pos hd]
  cases rest with
  | nil => simp
  | cons c rest => simp [hr c rfl]

theorem scanNatural_append {ds rest : List Char} (h : IsNatural ds) (hr : NoDigit rest) :
    scanNatural (ds ++ rest) = some (ds, rest) := by
  rcases h with rfl | ⟨c, cs, rfl, hc, hd⟩
  · rfl
  · obtain ⟨hdigit, hcs⟩ := List.forall_mem_cons.mp hd
    obtain ⟨htake, hdrop⟩ := takeWhile_digits hcs hr
    rw [List.cons_append, scanNatural, if_neg hc, if_pos hdigit, htake, hdrop]

theorem natural_head {ds : List Char} (h : IsNatural ds) :
    ∃ c cs, ds = c :: cs ∧ c.isDigit = true := by
  rcases h with rfl | ⟨c, cs, rfl, -, hd⟩
  · exact ⟨'0', [], rfl, rfl⟩
  · exact ⟨c, cs, rfl, hd c (List.mem_cons_self ..)⟩

theorem scanInteger_append {text rest : List Char} (h : IsInteger text) (hr : NoDigit rest) :
    scanInteger (text ++ rest) = some (text, rest) := by
  rcases h with h | ⟨ds, rfl, h⟩
  · have hscan := scanNatural_append h hr
    obtain ⟨c, cs, rfl, hc⟩ := natural_head h
    have hminus : c ≠ '-' := by
      rintro rfl
      cases hc
    rw [List.cons_append, scanInteger, if_neg hminus]
    exact hscan
  · rw [List.cons_append, scanInteger, if_pos rfl, scanNatural_append h hr, Option.map_some]

theorem scanFraction_append {text rest : List Char} (h : IsFraction text) (hr : NoDigit rest)
    (hdot : '.' ∉ rest.head?) : scanFraction (text ++ rest) = (text, rest) := by
  rcases h with rfl | ⟨ds, rfl, hne, hd⟩
  · cases rest with
    | nil => rfl
    | cons c rest =>
      have hc : c ≠ '.' := fun e => hdot (by rw [e]; rfl)
      rw [List.nil_append, scanFraction, if_neg fun hand => hc hand.1]
  · obtain ⟨htake, hdrop⟩ := takeWhile_digits hd hr
    rw [List.cons_append, scanFraction, htake, hdrop, if_pos ⟨rfl, hne⟩]

theorem scanExponent_append {text rest : List Char} (h : IsExponent text) (hr : Ends rest) :
    scanExponent (text ++ rest) = (text, rest) := by
  rcases h with rfl | ⟨e, sign, ds, rfl, he, hsign, hne, hd⟩
  · cases rest with
    | nil => rfl
    | cons c rest =>
      obtain ⟨-, -, he, hE⟩ := hr c rfl
      rw [List.nil_append, scanExponent, if_neg]
      rintro ⟨rfl | rfl, -⟩
      · exact he rfl
      · exact hE rfl
  · have hrest : NoDigit rest := fun c hc => (hr c hc).1
    obtain ⟨htake, hdrop⟩ := takeWhile_digits hd hrest
    have hscan : scanSign (sign ++ (ds ++ rest)) = (sign, ds ++ rest) := by
      rcases hsign with rfl | rfl | rfl
      · cases ds with
        | nil => exact absurd rfl hne
        | cons d ds =>
          have hdigit := hd d (List.mem_cons_self ..)
          rw [List.nil_append, List.cons_append, scanSign, if_neg]
          rintro (rfl | rfl) <;> cases hdigit
      · rfl
      · rfl
    rw [List.cons_append, List.append_assoc, scanExponent, hscan]
    simp only [htake, hdrop]
    rw [if_pos ⟨he, hne⟩]

theorem fraction_head {text rest : List Char} (h : IsFraction text) (hr : NoDigit rest) :
    NoDigit (text ++ rest) := by
  rcases h with rfl | ⟨ds, rfl, -, -⟩
  · exact hr
  · intro c hc
    cases hc
    rfl

theorem exponent_head {text rest : List Char} (h : IsExponent text) (hr : Ends rest) :
    NoDigit (text ++ rest) ∧ '.' ∉ (text ++ rest).head? := by
  rcases h with rfl | ⟨e, sign, ds, rfl, he, -, -, -⟩
  · exact ⟨fun c hc => (hr c hc).1, fun hdot => (hr '.' hdot).2.1 rfl⟩
  · constructor
    · intro c hc
      cases hc
      rcases he with rfl | rfl <;> rfl
    · intro hdot
      cases hdot
      rcases he with he | he <;> cases he

theorem scanNumber_append {integer fraction exponent rest : List Char} (hi : IsInteger integer)
    (hf : IsFraction fraction) (he : IsExponent exponent) (hr : Ends rest) :
    scanNumber (integer ++ (fraction ++ (exponent ++ rest))) =
      some (integer, fraction ++ exponent, rest) := by
  obtain ⟨hdigit, hdot⟩ := exponent_head he hr
  rw [scanNumber, scanInteger_append hi (fraction_head hf hdigit), Option.map_some]
  simp only [scanFraction_append hf hdigit hdot, scanExponent_append he hr]

theorem isInteger_str (n : Int) : IsInteger (Text.str n) := by
  have hnatural : ∀ n, IsNatural (Nat.toDigits 10 n) := by
    intro n
    induction n using Nat.strong_induction_on with
    | _ n ih =>
      by_cases hn : n < 10
      · rw [Nat.toDigits_of_lt_base hn]
        have hall : ∀ k < 10, k = 0 ∨ k.digitChar ≠ '0' ∧ k.digitChar.isDigit = true := by decide
        rcases hall n hn with rfl | ⟨hne, hd⟩
        · exact .inl rfl
        · exact .inr ⟨_, [], rfl, hne, List.forall_mem_singleton.mpr hd⟩
      · rw [Nat.toDigits_of_base_le (by decide) (not_lt.mp hn)]
        have hlast : (n % 10).digitChar.isDigit = true := by
          have hall : ∀ k < 10, k.digitChar.isDigit = true := by decide
          exact hall _ (Nat.mod_lt n (by decide))
        rcases ih (n / 10) (by omega) with hzero | ⟨c, cs, hcs, hc, hd⟩
        · have hvalue := congrArg (Nat.ofDigitChars 10 · 0) hzero
          rw [Nat.ofDigitChars_ten_toDigits] at hvalue
          change n / 10 = 0 at hvalue
          omega
        · refine .inr ⟨c, cs ++ [(n % 10).digitChar], by rw [hcs]; rfl, hc, ?_⟩
          rw [hcs] at hd ⊢
          exact List.forall_mem_append.mpr ⟨hd, List.forall_mem_singleton.mpr hlast⟩
  cases n with
  | ofNat n => exact .inl (hnatural n)
  | negSucc n => exact .inr ⟨_, rfl, hnatural (n + 1)⟩

/-! ### What is read is a number -/

theorem digits_takeWhile (text : List Char) : Digits (text.takeWhile Char.isDigit) :=
  fun _ hc => List.mem_takeWhile_imp hc

theorem isNatural_of_scan {text ds rest : List Char} (h : scanNatural text = some (ds, rest)) :
    IsNatural ds := by
  cases text with
  | nil => cases h
  | cons c text =>
    rw [scanNatural] at h
    split_ifs at h with hzero hdigit
    · cases h
      exact .inl rfl
    · cases h
      exact .inr ⟨c, _, rfl, hzero, List.forall_mem_cons.mpr ⟨hdigit, digits_takeWhile text⟩⟩

theorem isInteger_of_scan {text integer rest : List Char}
    (h : scanInteger text = some (integer, rest)) : IsInteger integer := by
  cases text with
  | nil => cases h
  | cons c text =>
    rw [scanInteger] at h
    split_ifs at h with hminus
    · obtain ⟨⟨ds, rest'⟩, hds, h⟩ := Option.map_eq_some_iff.mp h
      cases h
      exact .inr ⟨ds, rfl, isNatural_of_scan hds⟩
    · exact .inl (isNatural_of_scan h)

theorem isFraction_scan (text : List Char) : IsFraction (scanFraction text).1 := by
  cases text with
  | nil => exact .inl rfl
  | cons c text =>
    rw [scanFraction]
    split_ifs with h
    · exact .inr ⟨_, rfl, h.2, digits_takeWhile text⟩
    · exact .inl rfl

theorem sign_scan (text : List Char) :
    (scanSign text).1 = [] ∨ (scanSign text).1 = ['+'] ∨ (scanSign text).1 = ['-'] := by
  cases text with
  | nil => exact .inl rfl
  | cons c text =>
    rw [scanSign]
    split_ifs with h
    · rcases h with rfl | rfl
      · exact .inr (.inl rfl)
      · exact .inr (.inr rfl)
    · exact .inl rfl

theorem isExponent_scan (text : List Char) : IsExponent (scanExponent text).1 := by
  cases text with
  | nil => exact .inl rfl
  | cons c text =>
    rw [scanExponent]
    split_ifs with h
    · exact .inr ⟨c, _, _, rfl, h.1, sign_scan text, h.2, digits_takeWhile _⟩
    · exact .inl rfl

end Lib.Json
