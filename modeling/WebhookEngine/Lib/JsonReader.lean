import WebhookEngine.Lib.JsonTokens

/-!
# Reading the text of a JSON value

`json.loads(text)` of Python, and `json.dumps` with other separators and without sorting. A
number with a fraction or an exponent is read as a `float`, which is given by how it is written;
nesting is bounded by the length of the text.

* `loads_write`: what was written is read back;
* `readable_of_loads`: what has been read can be written and read again.
-/

namespace Lib.Json

open Text

/-! ## Numbers -/

def nonFinite : List (List Char) := ["NaN".toList, "Infinity".toList, "-Infinity".toList]

/-- A number that is read as a `float`. -/
def IsDecimal (text : List Char) : Prop :=
  ∃ integer fraction exponent, text = integer ++ (fraction ++ exponent) ∧ IsInteger integer ∧
    IsFraction fraction ∧ IsExponent exponent ∧ fraction ++ exponent ≠ []

/-- How the `float` that a text is read as is written. -/
structure Floats where
  repr : List Char → List Char
  ascii : ∀ text, IsAscii (repr text)
  isFloat : ∀ text, IsDecimal text → repr text ∈ nonFinite ∨ IsDecimal (repr text)
  repr_repr : ∀ text, repr (repr text) = repr text

/-- Each is written as it was read. -/
def Floats.verbatim : Floats where
  repr text := if text.all (fun c => decide (c.toNat < 128)) then text else "NaN".toList
  ascii text := by
    split
    case isTrue h => exact isAscii_of_all h
    case isFalse => exact isAscii_of_all rfl
  isFloat text h := by
    split
    · exact .inr h
    · exact .inl (by decide)
  repr_repr text := by
    by_cases h : text.all (fun c => decide (c.toNat < 128)) = true
    · rw [if_pos h, if_pos h]
    · rw [if_neg h]
      rfl

/-! ## Values -/

def isBlank (c : Char) : Bool := c = ' ' || c = '\t' || c = '\n' || c = '\r'

def skip (text : List Char) : List Char := text.dropWhile isBlank

def expect (c : Char) : List Char → Option (List Char)
  | [] => none
  | x :: text => if x = c then some text else none

def constants : List (List Char × Atom) := [
  ("null".toList, .null), ("true".toList, .bool true), ("false".toList, .bool false),
  ("NaN".toList, .float "NaN".toList (isAscii_of_all rfl)),
  ("Infinity".toList, .float "Infinity".toList (isAscii_of_all rfl)),
  ("-Infinity".toList, .float "-Infinity".toList (isAscii_of_all rfl))]

def scanConstant (text : List Char) : Option (Atom × List Char) :=
  (constants.find? fun e => e.1.isPrefixOf text).map fun e => (e.2, text.drop e.1.length)

variable (floats : Floats)

def number (integer rest : List Char) : Option Atom :=
  if rest = [] then (int integer).map Atom.int
  else some (.float (floats.repr (integer ++ rest)) (floats.ascii _))

/-- A constant or a number. -/
def scanAtom (text : List Char) : Option (Atom × List Char) :=
  (scanConstant text).or
    ((scanNumber text).bind fun (integer, frac, rest) =>
      (number floats integer frac).map fun a => (a, rest))

/-- `dict(pairs)`: the last value of a key, at the place of the first. -/
def ofPairs (pairs : List (Str × Value)) : List (Str × Value) :=
  pairs.foldl (fun items e =>
    if e.1 ∈ items.map Prod.fst then Tree.assign items e.1 e.2 else items ++ [e]) []

mutual

/-- `scan_once`; the fuel bounds the calls. -/
def scanOnce : Nat → List Char → Option (Value × List Char)
  | 0, _ => none
  | _ + 1, [] => none
  | fuel + 1, c :: text =>
    if c = '"' then (scanString text).map fun (s, rest) => (.atom (.str s), rest)
    else if c = '{' then
      if (skip text).head? = some '}' then some (.dict [], (skip text).tail)
      else (scanMembers fuel (skip text)).map fun (items, rest) => (.dict (ofPairs items), rest)
    else if c = '[' then
      if (skip text).head? = some ']' then some (.list [], (skip text).tail)
      else (scanItems fuel (skip text)).map fun (xs, rest) => (.list xs, rest)
    else (scanAtom floats (c :: text)).map fun (a, rest) => (.atom a, rest)

/-- The items of an array, the first of them next. -/
def scanItems : Nat → List Char → Option (List Value × List Char)
  | 0, _ => none
  | fuel + 1, text =>
    (scanOnce fuel text).bind fun (x, text) =>
      match skip text with
      | [] => none
      | c :: text =>
        if c = ']' then some ([x], text)
        else if c = ',' then (scanItems fuel (skip text)).map fun (xs, rest) => (x :: xs, rest)
        else none

/-- The members of an object, the first of them next. -/
def scanMembers : Nat → List Char → Option (List (Str × Value) × List Char)
  | 0, _ => none
  | fuel + 1, text =>
    (expect '"' text).bind fun text => (scanString text).bind fun (key, text) =>
      (expect ':' (skip text)).bind fun text => (scanOnce fuel (skip text)).bind fun (x, text) =>
        match skip text with
        | [] => none
        | c :: text =>
          if c = '}' then some ([(key, x)], text)
          else if c = ',' then
            (scanMembers fuel (skip text)).map fun (items, rest) => ((key, x) :: items, rest)
          else none

end

/-- `json.loads`; `none` is a `ValueError`. -/
def loads (text : List Char) : Option Value :=
  (scanOnce floats ((skip text).length + 1) (skip text)).bind fun (v, rest) =>
    if skip rest = [] then some v else none

/-! ## Atoms are read back -/

/-- No constant begins like a number. -/
theorem scanConstant_integer {text : List Char} (h : IsInteger text) (rest : List Char) :
    scanConstant (text ++ rest) = none := by
  have hdigit : ∀ {c : Char} {cs : List Char}, c.isDigit = true →
      ∀ w ∈ constants,
        w.1.isPrefixOf (c :: cs) = false ∧ w.1.isPrefixOf ('-' :: c :: cs) = false := by
    intro c cs hc w hw
    have hne : ∀ x, x.isDigit = false → (x == c) = false := by
      rintro x hx
      rw [beq_eq_false_iff_ne]
      rintro rfl
      rw [hx] at hc
      cases hc
    simp only [constants, List.mem_cons, List.not_mem_nil, or_false] at hw
    rcases hw with rfl | rfl | rfl | rfl | rfl | rfl <;>
      constructor <;> simp [List.isPrefixOf, hne]
  rw [scanConstant, Option.map_eq_none_iff, List.find?_eq_none]
  intro w hw
  rw [Bool.not_eq_true]
  rcases h with h | ⟨ds, rfl, h⟩
  · obtain ⟨c, cs, rfl, hc⟩ := natural_head h
    exact (hdigit hc w hw).1
  · obtain ⟨c, cs, rfl, hc⟩ := natural_head h
    exact (hdigit hc w hw).2

/-! ## Values are read back -/

/-- How the entries of lists and dictionaries are set apart. -/
structure Layout where
  afterComma : List Char
  afterColon : List Char
  blank : ∀ c ∈ afterComma ++ afterColon, isBlank c = true

/-- `separators=(",", ":")`. -/
def compact : Layout := ⟨[], [], by simp⟩

/-- The separators of `json.dumps` if none are given. -/
def spaced : Layout := ⟨[' '], [' '], by simp [isBlank]⟩

variable (l : Layout)

mutual

/-- `json.dumps` without `sort_keys`. -/
def write : Value → List Char
  | .atom a => a.dumps
  | .list [] => ['[', ']']
  | .list (x :: xs) => '[' :: (write x ++ (writeItems xs ++ [']']))
  | .dict [] => ['{', '}']
  | .dict ((k, x) :: items) =>
    '{' :: (quote k ++ ':' :: (l.afterColon ++ (write x ++ (writeMembers items ++ ['}']))))

/-- The items after the first. -/
def writeItems : List Value → List Char
  | [] => []
  | x :: xs => ',' :: (l.afterComma ++ (write x ++ writeItems xs))

def writeMembers : List (Str × Value) → List Char
  | [] => []
  | (k, x) :: items =>
    ',' :: (l.afterComma ++
      (quote k ++ ':' :: (l.afterColon ++ (write x ++ writeMembers items))))

end

def Atom.Readable : Atom → Prop
  | .int n => n.natAbs < 10 ^ maxStrDigits
  | .float repr _ => repr ∈ nonFinite ∨ IsDecimal repr ∧ floats.repr repr = repr
  | .str s => IsText s
  | _ => True

/-- Distinct keys, and text that `json` gives back. -/
inductive Readable : Value → Prop where
  | atom (a : Atom) (h : a.Readable floats) : Readable (.atom a)
  | list (xs : List Value) (h : ∀ x ∈ xs, Readable x) : Readable (.list xs)
  | dict (items : List (Str × Value)) (hn : (items.map Prod.fst).Nodup)
      (hkeys : ∀ e ∈ items, IsText e.1) (h : ∀ e ∈ items, Readable e.2) : Readable (.dict items)

variable {floats l}

theorem scanAtom_dumps {a : Atom} (h : a.Readable floats) (hs : ∀ s, a ≠ .str s) {rest : List Char}
    (hr : Ends rest) : scanAtom floats (a.dumps ++ rest) = some (a, rest) := by
  cases a with
  | null => rfl
  | bool b => cases b <;> rfl
  | int n =>
    have hscan := scanNumber_append (isInteger_str n) (.inl rfl) (.inl rfl) hr
    rw [Atom.dumps, scanAtom, scanConstant_integer (isInteger_str n), Option.none_or]
    rw [List.nil_append, List.nil_append] at hscan
    rw [hscan, Option.bind_some]
    simp only [number, if_pos, List.append_nil, int_str h, Option.map_some]
  | float repr ascii =>
    rcases h with hfinite | ⟨⟨integer, fraction, exponent, rfl, hi, hf, he, hne⟩, hrepr⟩
    · simp only [nonFinite, List.mem_cons, List.not_mem_nil, or_false] at hfinite
      rcases hfinite with rfl | rfl | rfl <;> rfl
    · have hscan := scanNumber_append hi hf he hr
      rw [Atom.dumps, scanAtom, List.append_assoc, scanConstant_integer hi, Option.none_or,
        List.append_assoc, hscan, Option.bind_some]
      simp only [number, if_neg hne, Option.map_some, hrepr]
  | str s => exact absurd rfl (hs s)

theorem ofPairs_of_nodup {pairs : List (Str × Value)} (h : (pairs.map Prod.fst).Nodup) :
    ofPairs pairs = pairs := by
  have hgo : ∀ done left : List (Str × Value), ((done ++ left).map Prod.fst).Nodup →
      left.foldl (fun items e =>
        if e.1 ∈ items.map Prod.fst then Tree.assign items e.1 e.2 else items ++ [e]) done =
        done ++ left := by
    intro done left hn
    induction left generalizing done with
    | nil => exact (List.append_nil done).symm
    | cons e left ih =>
      have hnew : e.1 ∉ done.map Prod.fst := by
        rw [List.map_append, List.map_cons] at hn
        exact fun he => List.disjoint_of_nodup_append hn he (List.mem_cons_self ..)
      rw [List.foldl_cons, if_neg hnew, ih (done ++ [e]) (by simpa using hn), List.append_assoc,
        List.singleton_append]
  exact hgo [] pairs h

/-- The first character of a text. -/
structure Starts (text : List Char) : Prop where
  ne_nil : text ≠ []
  head : ∀ c ∈ text.head?, isBlank c = false ∧ c ≠ ']' ∧ c ≠ '}'

theorem integer_head {text : List Char} (h : IsInteger text) :
    ∃ c cs, text = c :: cs ∧ (c.isDigit = true ∨ c = '-') := by
  rcases h with h | ⟨ds, rfl, -⟩
  · obtain ⟨c, cs, rfl, hc⟩ := natural_head h
    exact ⟨c, cs, rfl, .inl hc⟩
  · exact ⟨'-', ds, rfl, .inr rfl⟩

theorem starts_integer {text : List Char} (h : IsInteger text) (rest : List Char) :
    Starts (text ++ rest) ∧ ∀ c ∈ (text ++ rest).head?, c ≠ '"' ∧ c ≠ '{' ∧ c ≠ '[' := by
  have hchar : ∀ c : Char, (c.isDigit = true ∨ c = '-') →
      (isBlank c = false ∧ c ≠ ']' ∧ c ≠ '}') ∧ c ≠ '"' ∧ c ≠ '{' ∧ c ≠ '[' := by
    intro c hc
    have hne : ∀ x : Char, x.isDigit = false → x ≠ '-' → c ≠ x := by
      rintro x hx hminus rfl
      rcases hc with hc | hc
      · rw [hx] at hc
        cases hc
      · exact hminus hc
    refine ⟨⟨?_, hne _ rfl (by decide), hne _ rfl (by decide)⟩, hne _ rfl (by decide),
      hne _ rfl (by decide), hne _ rfl (by decide)⟩
    simp only [isBlank, Bool.or_eq_false_iff, decide_eq_false_iff_not]
    exact ⟨⟨⟨hne _ rfl (by decide), hne _ rfl (by decide)⟩, hne _ rfl (by decide)⟩,
      hne _ rfl (by decide)⟩
  obtain ⟨c, cs, rfl, hc⟩ := integer_head h
  obtain ⟨hstart, hother⟩ := hchar c hc
  refine ⟨⟨by simp, ?_⟩, ?_⟩
  · rintro x hx
    cases hx
    exact hstart
  · rintro x hx
    cases hx
    exact hother

/-- An atom that is not a `str` begins like no other value. -/
theorem starts_atom {a : Atom} (h : a.Readable floats) (hs : ∀ s, a ≠ .str s) (rest : List Char) :
    Starts (a.dumps ++ rest) ∧ ∀ c ∈ (a.dumps ++ rest).head?, c ≠ '"' ∧ c ≠ '{' ∧ c ≠ '[' := by
  have hword : ∀ w ∈ ["null".toList, "true".toList, "false".toList] ++ nonFinite,
      Starts (w ++ rest) ∧ ∀ c ∈ (w ++ rest).head?, c ≠ '"' ∧ c ≠ '{' ∧ c ≠ '[' := by
    intro w hw
    have hall : ∀ w ∈ ["null".toList, "true".toList, "false".toList] ++ nonFinite, w ≠ [] ∧
        ∀ c ∈ w.head?, (isBlank c = false ∧ c ≠ ']' ∧ c ≠ '}') ∧ c ≠ '"' ∧ c ≠ '{' ∧ c ≠ '[' := by
      simp [nonFinite, isBlank]
    obtain ⟨hne, hhead⟩ := hall w hw
    obtain ⟨c, cs, rfl⟩ := List.exists_cons_of_ne_nil hne
    exact ⟨⟨by simp, fun x hx => (hhead x hx).1⟩, fun x hx => (hhead x hx).2⟩
  cases a with
  | null => exact hword _ (by decide)
  | bool b => cases b <;> exact hword _ (by decide)
  | int n => exact starts_integer (isInteger_str n) rest
  | float repr ascii =>
    rcases h with hfinite | ⟨⟨integer, fraction, exponent, rfl, hi, -⟩, -⟩
    · exact hword _ (List.mem_append_right _ hfinite)
    · rw [Atom.dumps, List.append_assoc]
      exact starts_integer hi _
  | str s => exact absurd rfl (hs s)

theorem starts_write {v : Value} (h : Readable floats v) (rest : List Char) :
    Starts (write l v ++ rest) := by
  have hhead : ∀ c text, isBlank c = false ∧ c ≠ ']' ∧ c ≠ '}' → Starts (c :: text) := by
    intro c text hc
    refine ⟨by simp, fun x hx => ?_⟩
    cases hx
    exact hc
  cases h with
  | atom a h =>
    rw [write]
    by_cases hs : ∃ s, a = .str s
    · obtain ⟨s, rfl⟩ := hs
      exact hhead '"' _ (by decide)
    · exact (starts_atom h (fun s he => hs ⟨s, he⟩) rest).1
  | list xs h =>
    cases xs with
    | nil => exact hhead '[' _ (by decide)
    | cons x xs => exact hhead '[' _ (by decide)
  | dict items hn hkeys h =>
    cases items with
    | nil => exact hhead '{' _ (by decide)
    | cons e items => exact hhead '{' _ (by decide)

theorem skip_of_starts {text : List Char} (h : Starts text) : skip text = text := by
  obtain ⟨c, cs, rfl⟩ := List.exists_cons_of_ne_nil h.ne_nil
  exact List.dropWhile_cons_of_neg (by rw [(h.head c rfl).1]; exact Bool.false_ne_true)

theorem skip_append {blanks text : List Char} (hb : ∀ c ∈ blanks, isBlank c = true)
    (h : Starts text) : skip (blanks ++ text) = text := by
  rw [skip, List.dropWhile_append_of_pos hb]
  exact skip_of_starts h

/-- What was written of the value is read, whatever ends it. -/
def Scans (floats : Floats) (l : Layout) (v : Value) : Prop :=
  ∀ fuel rest, (write l v).length ≤ fuel → Ends rest →
    scanOnce floats fuel (write l v ++ rest) = some (v, rest)

theorem ends_writeItems (xs : List Value) (rest : List Char) :
    Ends (writeItems l xs ++ ']' :: rest) := by
  intro c hc
  cases xs <;> cases hc <;> decide

theorem ends_writeMembers (items : List (Str × Value)) (rest : List Char) :
    Ends (writeMembers l items ++ '}' :: rest) := by
  intro c hc
  cases items <;> cases hc <;> decide

theorem scanItems_write {x : Value} {xs : List Value} (hr : ∀ y ∈ x :: xs, Readable floats y)
    (h : ∀ y ∈ x :: xs, Scans floats l y) (rest : List Char) (fuel : Nat)
    (hfuel : (write l x).length + (writeItems l xs).length < fuel) :
    scanItems floats fuel (write l x ++ (writeItems l xs ++ ']' :: rest)) =
      some (x :: xs, rest) := by
  induction xs generalizing x fuel with
  | nil =>
    obtain ⟨fuel, rfl⟩ := Nat.exists_eq_add_of_lt hfuel
    have hx := h x (List.mem_cons_self ..) _ (']' :: rest)
      (show (write l x).length ≤ (write l x).length + (writeItems l []).length + fuel by omega)
      (ends_writeItems (l := l) [] rest)
    rw [scanItems, writeItems, List.nil_append, ← writeItems.eq_1 l, hx]
    rfl
  | cons y ys ih =>
    obtain ⟨fuel, rfl⟩ : ∃ left, fuel = left + 1 := ⟨fuel - 1, by omega⟩
    obtain ⟨hx, hys⟩ := List.forall_mem_cons.mp h
    have hblank : ∀ c ∈ l.afterComma, isBlank c = true :=
      fun c hc => l.blank c (List.mem_append_left _ hc)
    have hlength : (writeItems l (y :: ys)).length =
        1 + l.afterComma.length + (write l y).length + (writeItems l ys).length := by
      rw [writeItems, List.length_cons, List.length_append, List.length_append]
      omega
    have hnext := ih (List.forall_mem_cons.mp hr).2 hys fuel (by omega)
    have hstarts : Starts (write l y ++ (writeItems l ys ++ ']' :: rest)) :=
      starts_write (List.forall_mem_cons.mp (List.forall_mem_cons.mp hr).2).1 _
    rw [scanItems, hx _ _ (by omega) (ends_writeItems _ rest), Option.bind_some, writeItems]
    simp only [List.cons_append, List.append_assoc]
    rw [skip, List.dropWhile_cons_of_neg (by decide)]
    simp only [if_neg (show ',' ≠ ']' by decide), if_pos, skip_append hblank hstarts, hnext,
      Option.map_some]

theorem scanMembers_write {k : Str} {x : Value} {items : List (Str × Value)}
    (hk : ∀ e ∈ (k, x) :: items, IsText e.1)
    (hr : ∀ e ∈ (k, x) :: items, Readable floats e.2)
    (h : ∀ e ∈ (k, x) :: items, Scans floats l e.2) (rest : List Char) (fuel : Nat)
    (hfuel : (write l x).length + (writeMembers l items).length < fuel) :
    scanMembers floats fuel (quote k ++ ':' :: (l.afterColon ++ (write l x ++
      (writeMembers l items ++ '}' :: rest)))) = some ((k, x) :: items, rest) := by
  have hcolon : ∀ c ∈ l.afterColon, isBlank c = true :=
    fun c hc => l.blank c (List.mem_append_right _ hc)
  have hcomma : ∀ c ∈ l.afterComma, isBlank c = true :=
    fun c hc => l.blank c (List.mem_append_left _ hc)
  induction items generalizing k x fuel with
  | nil =>
    obtain ⟨fuel, rfl⟩ : ∃ left, fuel = left + 1 := ⟨fuel - 1, by omega⟩
    have hx : scanOnce floats fuel (write l x ++ '}' :: rest) = some (x, '}' :: rest) :=
      h (k, x) (List.mem_cons_self ..) fuel _ (show (write l x).length ≤ fuel by omega)
        (ends_writeMembers (l := l) [] rest)
    have hstarts : Starts (write l x ++ '}' :: rest) :=
      starts_write (hr (k, x) (List.mem_cons_self ..)) _
    have hkey := scanString_quote (hk (k, x) (List.mem_cons_self ..))
      (':' :: (l.afterColon ++ (write l x ++ '}' :: rest)))
    rw [scanMembers, quote, writeMembers]
    simp only [List.cons_append, List.append_assoc, List.nil_append, expect, if_pos,
      Option.bind_some]
    rw [hkey, Option.bind_some, skip, List.dropWhile_cons_of_neg (by decide)]
    simp only [if_pos, Option.bind_some]
    rw [skip_append hcolon hstarts, hx]
    rfl
  | cons e items ih =>
    obtain ⟨k', y⟩ := e
    obtain ⟨fuel, rfl⟩ : ∃ left, fuel = left + 1 := ⟨fuel - 1, by omega⟩
    have hlength : (writeMembers l ((k', y) :: items)).length = 1 + l.afterComma.length +
        (quote k').length + 1 + l.afterColon.length + (write l y).length +
        (writeMembers l items).length := by
      rw [writeMembers, List.length_cons, List.length_append, List.length_append, List.length_cons,
        List.length_append, List.length_append]
      omega
    have hnext := ih (List.forall_mem_cons.mp hk).2 (List.forall_mem_cons.mp hr).2
      (List.forall_mem_cons.mp h).2 fuel (by omega)
    have hx := h (k, x) (List.mem_cons_self ..) fuel
      (writeMembers l ((k', y) :: items) ++ '}' :: rest) (show (write l x).length ≤ fuel by omega)
      (ends_writeMembers _ rest)
    have hstarts : Starts (write l x ++ (writeMembers l ((k', y) :: items) ++ '}' :: rest)) :=
      starts_write (hr (k, x) (List.mem_cons_self ..)) _
    have hquote : ∀ text, Starts (quote k' ++ text) := fun text =>
      ⟨by simp [quote], fun c hc => by cases hc; decide⟩
    have hkey := scanString_quote (hk (k, x) (List.mem_cons_self ..))
      (':' :: (l.afterColon ++ (write l x ++ (writeMembers l ((k', y) :: items) ++ '}' :: rest))))
    rw [scanMembers, quote]
    simp only [List.cons_append, List.append_assoc, List.nil_append, expect, if_pos,
      Option.bind_some]
    rw [hkey, Option.bind_some, skip, List.dropWhile_cons_of_neg (by decide)]
    simp only [if_pos, Option.bind_some]
    rw [skip_append hcolon hstarts, hx, Option.bind_some, writeMembers]
    simp only [List.cons_append, List.append_assoc]
    rw [skip, List.dropWhile_cons_of_neg (by decide)]
    simp only [if_neg (show ',' ≠ '}' by decide), if_pos, skip_append hcomma (hquote _), hnext,
      Option.map_some]

/-- **What was written is read back.** -/
theorem scanOnce_write {v : Value} (h : Readable floats v) : Scans floats l v := by
  induction h with
  | atom a h =>
    intro fuel rest hfuel hrest
    rw [write] at hfuel ⊢
    by_cases hs : ∃ s, a = .str s
    · obtain ⟨s, rfl⟩ := hs
      rw [Atom.dumps, quote, List.length_cons] at hfuel
      obtain ⟨fuel, rfl⟩ : ∃ left, fuel = left + 1 := ⟨fuel - 1, by omega⟩
      rw [Atom.dumps, quote, List.cons_append, scanOnce, if_pos rfl, List.append_assoc]
      simp only [List.cons_append, List.nil_append, scanString_quote h, Option.map_some]
    · have hs : ∀ s, a ≠ .str s := fun s he => hs ⟨s, he⟩
      have hatom := scanAtom_dumps h hs hrest
      obtain ⟨-, hhead⟩ := starts_atom h hs rest
      obtain ⟨hstarts, -⟩ := starts_atom h hs []
      rw [List.append_nil] at hstarts
      obtain ⟨c, cs, hcs⟩ := List.exists_cons_of_ne_nil hstarts.ne_nil
      rw [hcs] at hfuel hatom hhead ⊢
      rw [List.length_cons] at hfuel
      obtain ⟨fuel, rfl⟩ : ∃ left, fuel = left + 1 := ⟨fuel - 1, by omega⟩
      obtain ⟨hquote, hbrace, hbracket⟩ := hhead c rfl
      rw [List.cons_append] at hatom ⊢
      rw [scanOnce, if_neg hquote, if_neg hbrace, if_neg hbracket, hatom, Option.map_some]
  | list xs h ih =>
    intro fuel rest hfuel hrest
    cases xs with
    | nil =>
      obtain ⟨fuel, rfl⟩ : ∃ left, fuel = left + 1 := ⟨fuel - 1, by
        rw [write, List.length_cons] at hfuel
        omega⟩
      rfl
    | cons x xs =>
      rw [write, List.length_cons, List.length_append, List.length_append,
        List.length_singleton] at hfuel
      obtain ⟨fuel, rfl⟩ : ∃ left, fuel = left + 1 := ⟨fuel - 1, by omega⟩
      have hscan := scanItems_write h ih rest fuel (by omega)
      have hstarts : Starts (write l x ++ (writeItems l xs ++ ']' :: rest)) :=
        starts_write (h x (List.mem_cons_self ..)) _
      have hbracket : (write l x ++ (writeItems l xs ++ ']' :: rest)).head? ≠ some ']' :=
        fun he => (hstarts.head ']' he).2.1 rfl
      rw [write]
      simp only [List.cons_append, List.append_assoc, List.nil_append]
      rw [scanOnce, if_neg (by decide), if_neg (by decide), if_pos rfl, skip_of_starts hstarts,
        if_neg hbracket, hscan, Option.map_some]
  | dict items hn hkeys h ih =>
    intro fuel rest hfuel hrest
    cases items with
    | nil =>
      obtain ⟨fuel, rfl⟩ : ∃ left, fuel = left + 1 := ⟨fuel - 1, by
        rw [write, List.length_cons] at hfuel
        omega⟩
      rfl
    | cons e items =>
      obtain ⟨k, x⟩ := e
      simp only [write, List.length_cons, List.length_append] at hfuel
      obtain ⟨fuel, rfl⟩ : ∃ left, fuel = left + 1 := ⟨fuel - 1, by omega⟩
      have hscan := scanMembers_write hkeys h ih rest fuel (by omega)
      rw [write]
      simp only [List.cons_append, List.append_assoc, List.nil_append]
      rw [scanOnce, if_neg (by decide), if_pos rfl, skip_of_starts, if_neg, hscan, Option.map_some]
      · simp only [ofPairs_of_nodup hn]
      · rw [quote]
        simp
      · exact ⟨by simp [quote], fun c hc => by cases hc; decide⟩

theorem loads_write {v : Value} (h : Readable floats v) : loads floats (write l v) = some v := by
  have hstarts : Starts (write l v ++ []) := starts_write h []
  have hscan := scanOnce_write (l := l) h ((write l v).length + 1) [] (Nat.le_succ _)
    (fun c hc => by cases hc)
  rw [List.append_nil] at hstarts hscan
  rw [loads, skip_of_starts hstarts, hscan]
  rfl

/-! ## What is read can be read again -/

theorem ofDigitChars_lt {ds : List Char} (hd : Digits ds) (acc : Nat) :
    Nat.ofDigitChars 10 ds acc < (acc + 1) * 10 ^ ds.length := by
  induction ds generalizing acc with
  | nil => simp
  | cons d ds ih =>
    obtain ⟨hdigit, hds⟩ := List.forall_mem_cons.mp hd
    have hvalue : d.toNat - '0'.toNat < 10 := by
      have hrange := toNat_of_isDigit hdigit
      change d.toNat - 48 < 10
      omega
    rw [Nat.ofDigitChars_cons, List.length_cons, Nat.pow_succ']
    calc Nat.ofDigitChars 10 ds (10 * acc + (d.toNat - '0'.toNat))
        < (10 * acc + (d.toNat - '0'.toNat) + 1) * 10 ^ ds.length := ih hds _
      _ ≤ ((acc + 1) * 10) * 10 ^ ds.length := Nat.mul_le_mul_right _ (by omega)
      _ = (acc + 1) * (10 * 10 ^ ds.length) := Nat.mul_assoc ..

theorem digits_of_isNatural {ds : List Char} (h : IsNatural ds) : Digits ds := by
  rcases h with rfl | ⟨c, cs, rfl, -, hd⟩
  · exact List.forall_mem_singleton.mpr rfl
  · exact hd

theorem intDigits_of_isNatural {ds : List Char} (h : IsNatural ds) :
    ∃ n, intDigits ds = some n ∧ n < 10 ^ ds.length := by
  have hd := digits_of_isNatural h
  obtain ⟨c, cs, rfl, hc⟩ := natural_head h
  have hbound := ofDigitChars_lt hd 0
  rw [Nat.ofDigitChars_cons, Nat.mul_zero, Nat.zero_add, Nat.zero_add, Nat.one_mul] at hbound
  refine ⟨_, ?_, hbound⟩
  rw [intDigits, digitValue_of_isDigit hc, Option.bind_some,
    intTail_of_isDigit (List.forall_mem_cons.mp hd).2]

/-- An integer that `int` takes is small. -/
theorem natAbs_lt_of_int {text : List Char} {n : Int} (h : IsInteger text)
    (hn : int text = some n) : n.natAbs < 10 ^ maxStrDigits := by
  have hpow : ∀ {k : Nat}, k ≤ maxStrDigits → 10 ^ k ≤ 10 ^ maxStrDigits :=
    fun hk => Nat.pow_le_pow_right (by decide) hk
  have hlength : ∀ {ds : List Char}, IsNatural ds →
      (ds.countP fun c => (digitValue c).isSome) = ds.length := by
    intro ds hds
    rw [List.countP_eq_length]
    intro c hc
    rw [digitValue_of_isDigit (digits_of_isNatural hds c hc)]
    rfl
  rw [int] at hn
  by_cases hcount : maxStrDigits < text.countP fun c => (digitValue c).isSome
  · rw [if_pos hcount] at hn
    cases hn
  rw [if_neg hcount] at hn
  replace hcount := not_lt.mp hcount
  rcases h with h | ⟨ds, rfl, h⟩
  · obtain ⟨k, hk, hlt⟩ := intDigits_of_isNatural h
    rw [hlength h] at hcount
    have hspace : ∀ c ∈ text, isSpace c = false :=
      fun c hc => not_isSpace_of_isDigit (digits_of_isNatural h c hc)
    have hhead : ∀ c : Char, c.isDigit = false → ∀ cs, text ≠ c :: cs := by
      rintro c hc cs rfl
      have hdigit := digits_of_isNatural h c (List.mem_cons_self ..)
      rw [hc] at hdigit
      cases hdigit
    rw [readInt, intStrip_of_not_space hspace] at hn
    cases text with
    | nil => cases hn
    | cons c cs =>
      have hminus : c ≠ '-' := fun he => hhead '-' rfl cs (by rw [he])
      have hplus : c ≠ '+' := fun he => hhead '+' rfl cs (by rw [he])
      simp only [if_neg hminus, if_neg hplus, hk, Option.map_some, Option.some_inj] at hn
      rw [← hn]
      exact hlt.trans_le (hpow hcount)
  · obtain ⟨k, hk, hlt⟩ := intDigits_of_isNatural h
    rw [List.countP_cons_of_neg (by decide), hlength h] at hcount
    have hspace : ∀ c ∈ '-' :: ds, isSpace c = false := List.forall_mem_cons.mpr
      ⟨rfl, fun c hc => not_isSpace_of_isDigit (digits_of_isNatural h c hc)⟩
    rw [readInt, intStrip_of_not_space hspace] at hn
    simp only [if_pos, hk, Option.map_some, Option.some_inj] at hn
    rw [← hn, Int.natAbs_neg]
    exact hlt.trans_le (hpow hcount)

theorem readable_of_scanAtom {text rest : List Char} {a : Atom}
    (h : scanAtom floats text = some (a, rest)) : a.Readable floats := by
  have hconstant : ∀ e ∈ constants, e.2.Readable floats := by
    intro e he
    simp only [constants, List.mem_cons, List.not_mem_nil, or_false] at he
    rcases he with rfl | rfl | rfl | rfl | rfl | rfl
    · trivial
    · trivial
    · trivial
    · exact .inl (by decide)
    · exact .inl (by decide)
    · exact .inl (by decide)
  rw [scanAtom, Option.or_eq_some_iff] at h
  rcases h with h | ⟨-, h⟩
  · obtain ⟨e, he, h⟩ := Option.map_eq_some_iff.mp h
    cases h
    exact hconstant e (List.mem_of_find?_eq_some he)
  · obtain ⟨⟨integer, frac, rest'⟩, hscan, h⟩ := Option.bind_eq_some_iff.mp h
    obtain ⟨a', hnumber, h⟩ := Option.map_eq_some_iff.mp h
    cases h
    obtain ⟨⟨integer', text'⟩, hinteger, hscan⟩ := Option.map_eq_some_iff.mp hscan
    cases hscan
    rw [number] at hnumber
    split_ifs at hnumber with hint
    · obtain ⟨n, hn, rfl⟩ := Option.map_eq_some_iff.mp hnumber
      exact natAbs_lt_of_int (isInteger_of_scan hinteger) hn
    · cases hnumber
      have hdecimal : IsDecimal (integer ++ ((scanFraction text').1 ++
          (scanExponent (scanFraction text').2).1)) :=
        ⟨integer, _, _, rfl, isInteger_of_scan hinteger, isFraction_scan _, isExponent_scan _, hint⟩
      exact (floats.isFloat _ hdecimal).imp_right fun hd => ⟨hd, floats.repr_repr _⟩

theorem ofPairs_concat (pairs : List (Str × Value)) (e : Str × Value) :
    ofPairs (pairs ++ [e]) = if e.1 ∈ (ofPairs pairs).map Prod.fst then
      Tree.assign (ofPairs pairs) e.1 e.2 else ofPairs pairs ++ [e] := by
  rw [ofPairs, List.foldl_append]
  rfl

/-- A dictionary has each key once, and only entries that were given. -/
theorem ofPairs_spec (pairs : List (Str × Value)) :
    ((ofPairs pairs).map Prod.fst).Nodup ∧ ∀ e ∈ ofPairs pairs, e ∈ pairs := by
  induction pairs using List.reverseRecOn with
  | nil => exact ⟨List.nodup_nil, fun e he => he⟩
  | append_singleton pairs e ih =>
    obtain ⟨hn, hmem⟩ := ih
    rw [ofPairs_concat]
    split_ifs with hkey
    · refine ⟨by rwa [Tree.keys_assign], ?_⟩
      rintro ⟨k, x⟩ hx
      rcases Tree.of_mem_assign hx with ⟨rfl, rfl⟩ | ⟨-, hx⟩
      · exact List.mem_append_right _ (List.mem_singleton_self e)
      · exact List.mem_append_left _ (hmem _ hx)
    · constructor
      · rw [List.map_append, List.map_singleton]
        exact List.nodup_append.mpr ⟨hn, List.nodup_singleton _, fun k hk k' hk' he =>
          hkey (by rwa [← List.mem_singleton.mp hk', ← he])⟩
      · intro x hx
        rcases List.mem_append.mp hx with hx | hx
        · exact List.mem_append_left _ (hmem x hx)
        · exact List.mem_append_right _ hx

theorem readable_ofPairs {pairs : List (Str × Value)}
    (h : ∀ e ∈ pairs, IsText e.1 ∧ Readable floats e.2) :
    Readable floats (.dict (ofPairs pairs)) := by
  obtain ⟨hn, hmem⟩ := ofPairs_spec pairs
  exact .dict _ hn (fun e he => (h e (hmem e he)).1) fun e he => (h e (hmem e he)).2

/-- What the calls with one bound on their number read. -/
structure ReadsReadable (floats : Floats) (fuel : Nat) : Prop where
  once : ∀ text v rest, scanOnce floats fuel text = some (v, rest) → Readable floats v
  items : ∀ text xs rest, scanItems floats fuel text = some (xs, rest) →
    ∀ x ∈ xs, Readable floats x
  members : ∀ text items rest, scanMembers floats fuel text = some (items, rest) →
    ∀ e ∈ items, IsText e.1 ∧ Readable floats e.2

theorem readable_once {fuel : Nat} (ih : ReadsReadable floats fuel) {text rest : List Char}
    {v : Value} (h : scanOnce floats (fuel + 1) text = some (v, rest)) : Readable floats v := by
  cases text with
  | nil => cases h
  | cons c text =>
    rw [scanOnce] at h
    split_ifs at h with hquote hbrace hempty hbracket hempty
    · obtain ⟨⟨s, rest'⟩, hs, h⟩ := Option.map_eq_some_iff.mp h
      cases h
      exact .atom _ (isText_of_scanString hs)
    · cases h
      exact .dict [] List.nodup_nil (by simp) (by simp)
    · obtain ⟨⟨items, rest'⟩, hitems, h⟩ := Option.map_eq_some_iff.mp h
      cases h
      exact readable_ofPairs (ih.members _ _ _ hitems)
    · cases h
      exact .list [] (by simp)
    · obtain ⟨⟨xs, rest'⟩, hxs, h⟩ := Option.map_eq_some_iff.mp h
      cases h
      exact .list _ (ih.items _ _ _ hxs)
    · obtain ⟨⟨a, rest'⟩, ha, h⟩ := Option.map_eq_some_iff.mp h
      cases h
      exact .atom _ (readable_of_scanAtom ha)

theorem readable_items {fuel : Nat} (ih : ReadsReadable floats fuel) {text rest : List Char}
    {xs : List Value} (h : scanItems floats (fuel + 1) text = some (xs, rest)) :
    ∀ x ∈ xs, Readable floats x := by
  rw [scanItems] at h
  obtain ⟨⟨x, text'⟩, hx, h⟩ := Option.bind_eq_some_iff.mp h
  have hx := ih.once _ _ _ hx
  cases hskip : skip text' with
  | nil =>
    simp only [hskip] at h
    cases h
  | cons c left =>
    simp only [hskip] at h
    split_ifs at h with hbracket hcomma
    · cases h
      exact List.forall_mem_singleton.mpr hx
    · obtain ⟨⟨ys, rest'⟩, hys, h⟩ := Option.map_eq_some_iff.mp h
      cases h
      exact List.forall_mem_cons.mpr ⟨hx, ih.items _ _ _ hys⟩

theorem readable_members {fuel : Nat} (ih : ReadsReadable floats fuel) {text rest : List Char}
    {items : List (Str × Value)} (h : scanMembers floats (fuel + 1) text = some (items, rest)) :
    ∀ e ∈ items, IsText e.1 ∧ Readable floats e.2 := by
  rw [scanMembers] at h
  obtain ⟨text₁, -, h⟩ := Option.bind_eq_some_iff.mp h
  obtain ⟨⟨key, text₂⟩, hkey, h⟩ := Option.bind_eq_some_iff.mp h
  obtain ⟨text₃, -, h⟩ := Option.bind_eq_some_iff.mp h
  obtain ⟨⟨x, text₄⟩, hx, h⟩ := Option.bind_eq_some_iff.mp h
  have hfirst : IsText key ∧ Readable floats x := ⟨isText_of_scanString hkey, ih.once _ _ _ hx⟩
  cases hskip : skip text₄ with
  | nil =>
    simp only [hskip] at h
    cases h
  | cons c left =>
    simp only [hskip] at h
    split_ifs at h with hbrace hcomma
    · cases h
      exact List.forall_mem_singleton.mpr hfirst
    · obtain ⟨⟨more, rest'⟩, hmore, h⟩ := Option.map_eq_some_iff.mp h
      cases h
      exact List.forall_mem_cons.mpr ⟨hfirst, ih.members _ _ _ hmore⟩

theorem readsReadable (fuel : Nat) : ReadsReadable floats fuel := by
  induction fuel with
  | zero =>
    refine ⟨fun text v rest h => ?_, fun text xs rest h => ?_, fun text items rest h => ?_⟩
    · cases h
    · cases h
    · cases h
  | succ fuel ih =>
    exact ⟨fun text v rest h => readable_once ih h, fun text xs rest h => readable_items ih h,
      fun text items rest h => readable_members ih h⟩

/-- **What has been read can be written and read again.** -/
theorem readable_of_loads {text : List Char} {v : Value} (h : loads floats text = some v) :
    Readable floats v := by
  rw [loads] at h
  obtain ⟨⟨v', rest⟩, hv, h⟩ := Option.bind_eq_some_iff.mp h
  simp only [Option.ite_none_right_eq_some, Option.some_inj] at h
  obtain ⟨-, rfl⟩ := h
  exact (readsReadable _).once _ _ _ hv

/-! ## Bytes -/

def decode (bytes : List UInt8) : List Char := bytes.map fun b => Char.ofNat b.toNat

/-- ASCII that `detect_encoding` takes for UTF-8. -/
def isPlain (bytes : List UInt8) : Bool :=
  bytes.all (fun b => decide (b.toNat < 128)) && (bytes.take 2).all fun b => decide (b ≠ 0)

/-- `json.loads` of bytes; `other` reads what is not plain. -/
def loadsBytes (floats : Floats) (other : List UInt8 → Option Value) (bytes : List UInt8) :
    Option Value :=
  if isPlain bytes then loads floats (decode bytes) else other bytes

theorem encode_of_isAscii {text : List Char} (h : IsAscii text) :
    encode text = text.map fun c => UInt8.ofNat c.toNat := by
  induction text with
  | nil => rfl
  | cons c text ih =>
    obtain ⟨hc, htext⟩ := List.forall_mem_cons.mp h
    have hsize : c.utf8Size = 1 := by
      rw [Char.utf8Size_eq_one_iff, UInt32.le_iff_toNat_le]
      exact Nat.le_of_lt_succ hc
    have hchar : String.utf8EncodeChar c = [UInt8.ofNat c.toNat] := by
      rw [String.utf8EncodeChar_eq_singleton hsize]
      rfl
    rw [encode, List.flatMap_cons, hchar, ← encode, ih htext]
    rfl

theorem toNat_ofNat {n : Nat} (h : n < 128) : (UInt8.ofNat n).toNat = n := by
  rw [UInt8.toNat_ofNat']
  exact Nat.mod_eq_of_lt (h.trans (by decide))

theorem decode_encode {text : List Char} (h : IsAscii text) : decode (encode text) = text := by
  rw [decode, encode_of_isAscii h, List.map_map]
  refine (List.map_congr_left fun c hc => ?_).trans (List.map_id text)
  rw [Function.comp_apply, toNat_ofNat (h c hc), Char.ofNat_toNat, id]

theorem isPlain_encode {text : List Char} (h : IsAscii text)
    (hnul : ∀ c ∈ text.take 2, c.toNat ≠ 0) : isPlain (encode text) = true := by
  rw [isPlain, encode_of_isAscii h, Bool.and_eq_true, List.all_eq_true, List.all_eq_true,
    ← List.map_take]
  constructor
  · intro b hb
    obtain ⟨c, hc, rfl⟩ := List.mem_map.mp hb
    rw [toNat_ofNat (h c hc)]
    exact decide_eq_true (h c hc)
  · intro b hb
    obtain ⟨c, hc, rfl⟩ := List.mem_map.mp hb
    refine decide_eq_true fun hzero => hnul c hc ?_
    rw [← toNat_ofNat (h c (List.mem_of_mem_take hc)), hzero]
    rfl

theorem isAscii_blank {blanks : List Char} (h : ∀ c ∈ blanks, isBlank c = true) :
    IsAscii blanks := by
  intro c hc
  have hblank := h c hc
  simp only [isBlank, Bool.or_eq_true, decide_eq_true_eq] at hblank
  rcases hblank with ((rfl | rfl) | rfl) | rfl <;> decide

theorem isAscii_comma (l : Layout) : IsAscii l.afterComma :=
  isAscii_blank fun c hc => l.blank c (List.mem_append_left _ hc)

theorem isAscii_colon (l : Layout) : IsAscii l.afterColon :=
  isAscii_blank fun c hc => l.blank c (List.mem_append_right _ hc)

mutual

theorem isAscii_write (l : Layout) : ∀ v : Value, IsAscii (write l v)
  | .atom a => isAscii_atom a
  | .list [] => isAscii_of_all (s := ['[', ']']) rfl
  | .list (x :: xs) => isAscii_cons (by decide) (isAscii_append (isAscii_write l x)
      (isAscii_append (isAscii_writeItems l xs) (isAscii_of_all rfl)))
  | .dict [] => isAscii_of_all (s := ['{', '}']) rfl
  | .dict ((k, x) :: items) => isAscii_cons (by decide) (isAscii_append (isAscii_quote k)
      (isAscii_cons (by decide) (isAscii_append (isAscii_colon l) (isAscii_append
        (isAscii_write l x)
          (isAscii_append (isAscii_writeMembers l items) (isAscii_of_all rfl))))))

theorem isAscii_writeItems (l : Layout) : ∀ xs : List Value, IsAscii (writeItems l xs)
  | [] => fun _ h => by cases h
  | x :: xs => isAscii_cons (by decide) (isAscii_append (isAscii_comma l)
      (isAscii_append (isAscii_write l x) (isAscii_writeItems l xs)))

theorem isAscii_writeMembers (l : Layout) :
    ∀ items : List (Str × Value), IsAscii (writeMembers l items)
  | [] => fun _ h => by cases h
  | (k, x) :: items => isAscii_cons (by decide) (isAscii_append (isAscii_comma l)
      (isAscii_append (isAscii_quote k) (isAscii_cons (by decide)
        (isAscii_append (isAscii_colon l)
          (isAscii_append (isAscii_write l x) (isAscii_writeMembers l items))))))

end

/-- The bytes of a dictionary are read back. -/
theorem loadsBytes_write {items : List (Str × Value)} (h : Readable floats (.dict items))
    (other : List UInt8 → Option Value) (l : Layout) :
    loadsBytes floats other (encode (write l (.dict items))) = some (.dict items) := by
  have hascii := isAscii_write l (.dict items)
  have hplain : isPlain (encode (write l (.dict items))) = true := by
    refine isPlain_encode hascii fun c hc => ?_
    cases items with
    | nil =>
      have hall : ∀ c ∈ ['{', '}'], c.toNat ≠ 0 := by simp
      exact hall c hc
    | cons e items =>
      have hall : ∀ c ∈ ['{', '"'], c.toNat ≠ 0 := by simp
      exact hall c hc
  rw [loadsBytes, if_pos hplain, decode_encode hascii, loads_write h]

end Lib.Json
