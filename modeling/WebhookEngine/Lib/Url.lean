import Mathlib.Data.List.TakeDrop
import WebhookEngine.Lib.Python
import WebhookEngine.Lib.Text

/-!
# URLs, as `urllib.parse` cuts and joins them

`urlsplit`, `hostname`, `port` and `urlunsplit` of CPython 3.12, and `urlHost`:
the host of a URL by the generic syntax (RFC 3986), which knows nothing of the
functions that built the URL.

* `authority_urlunsplit`: the authority of a joined URL is its `netloc` up to
  the first delimiter in it;
* `urlHost_pinned`: a URL joined from an address as `netloc` has that address as
  its host if and only if the address holds no delimiter;
* `parts_pinned_iff`: when the other parts are those of the URL that was split.
-/

namespace Lib.Url

open Lib.Text

/-- The characters that end the authority of a URL. -/
def endsAuthority (c : Char) : Bool := c = '/' || c = '?' || c = '#'

structure SplitResult where
  scheme : List Char
  netloc : List Char
  path : List Char
  query : List Char
  fragment : List Char
  deriving DecidableEq, Repr

/-! ## Splitting -/

def isAsciiLetter (c : Char) : Bool := ('a' ≤ c && c ≤ 'z') || ('A' ≤ c && c ≤ 'Z')

/-- `scheme_chars`. -/
def schemeChar (c : Char) : Bool := isAsciiLetter c || c.isDigit || c = '+' || c = '-' || c = '.'

variable (py : Python)

def splitScheme (url : List Char) : List Char × List Char :=
  match partition ':' url with
  | (s, some rest) =>
    if s.head?.any isAsciiLetter && s.all schemeChar then (py.lower s, rest) else ([], url)
  | (_, none) => ([], url)

/-- `_check_bracketed_host`: an IPv6 address, or `v`, hexadecimal digits, a dot, more. -/
def bracketedHostOk (host : List Char) : Bool :=
  match host with
  | 'v' :: rest =>
    let hex := rest.takeWhile fun c => c.isDigit || ('a' ≤ c && c ≤ 'f') || ('A' ≤ c && c ≤ 'F')
    match rest.drop hex.length with
    | '.' :: tail => hex ≠ [] && tail ≠ [] && tail.all (· ≠ '\n')
    | _ => false
  | host =>
    match py.ipAddress host with
    | some (.v6 _) => true
    | _ => false

/-- `_check_bracketed_netloc`. -/
def bracketedNetlocOk (netloc : List Char) : Bool :=
  let hostAndPort := (rpartition '@' netloc).2
  match partition '[' hostAndPort with
  | (before, some bracketed) =>
    let (host, port) := partition ']' bracketed
    before = [] && (port.all fun p => p = [] || p.head? = some ':') && bracketedHostOk py host
  | (_, none) => bracketedHostOk py (partition ':' hostAndPort).1

/-- `_checknetloc`: no delimiter may appear under NFKC normalisation. -/
def netlocOk (netloc : List Char) : Bool :=
  netloc.all (fun c => c.toNat < 128) ||
    let n := netloc.filter fun c => ¬ (c = '@' || c = ':' || c = '#' || c = '?')
    py.nfkc n = n || (py.nfkc n).all fun c => ¬ (endsAuthority c || c = '@' || c = ':')

/-- The brackets of a `netloc`. -/
def bracketsOk (netloc : List Char) : Bool :=
  match netloc.contains '[', netloc.contains ']' with
  | true, true => bracketedNetlocOk py netloc
  | false, false => true
  | _, _ => false

/-- `urlsplit(url)`; `none` is the `ValueError`. -/
def urlsplit (url : List Char) : Option SplitResult :=
  let url := (url.dropWhile fun c => c.toNat ≤ 0x20).filter fun c =>
    ¬ (c = '\t' || c = '\r' || c = '\n')
  let (scheme, rest) := splitScheme py url
  let (netloc, rest) :=
    match rest with
    | '/' :: '/' :: rest => rest.span fun c => ¬ endsAuthority c
    | rest => ([], rest)
  if bracketsOk py netloc && netlocOk py netloc then
    let (rest, fragment) := partition '#' rest
    let (path, query) := partition '?' rest
    some ⟨scheme, netloc, path, query.getD [], fragment.getD []⟩
  else none

/-- `_hostinfo`: the host and the text of the port. -/
def hostinfo (netloc : List Char) : List Char × List Char :=
  let hostAndPort := (rpartition '@' netloc).2
  match (partition '[' hostAndPort).2 with
  | some bracketed =>
    let (host, rest) := partition ']' bracketed
    (host, (partition ':' (rest.getD [])).2.getD [])
  | none => ((partition ':' hostAndPort).1, (partition ':' hostAndPort).2.getD [])

/-- `_userinfo`: the user name and the password. -/
def userinfo (netloc : List Char) : Option (List Char) × Option (List Char) :=
  match (rpartition '@' netloc).1 with
  | some info => (some (partition ':' info).1, (partition ':' info).2)
  | none => (none, none)

/-- `parsed.hostname or ""`. -/
def SplitResult.hostname (r : SplitResult) : List Char :=
  let (host, zone) := partition '%' (hostinfo r.netloc).1
  py.lower host ++ (zone.elim [] ('%' :: ·))

/-- `parsed.port`; the outer `none` is the `ValueError`, of `int` too. -/
def SplitResult.port (r : SplitResult) : Option (Option Nat) :=
  match (hostinfo r.netloc).2 with
  | [] => some none
  | digits =>
    if digits.all Char.isDigit ∧ digits.length ≤ maxStrDigits then
      let n := Nat.ofDigitChars 10 digits 0
      if n ≤ 65535 then some (some n) else none
    else none

/-! ## Joining -/

/-- `urlunsplit`, for a `netloc` that is not empty. -/
def urlunsplit (r : SplitResult) : List Char :=
  let path := if r.path ≠ [] ∧ r.path.head? ≠ some '/' then '/' :: r.path else r.path
  let url := '/' :: '/' :: (r.netloc ++ path)
  let url := if r.scheme = [] then url else r.scheme ++ ':' :: url
  let url := if r.query = [] then url else url ++ '?' :: r.query
  if r.fragment = [] then url else url ++ '#' :: r.fragment

/-! ## The generic syntax -/

/-- The authority of a URL: after an optional scheme and `//`, up to a delimiter. -/
def authority (url : List Char) : Option (List Char) :=
  let rest :=
    match partition ':' url with
    | (s, some rest) => if s.any endsAuthority then url else rest
    | (_, none) => url
  match rest with
  | '/' :: '/' :: rest => some (rest.takeWhile fun c => ¬ endsAuthority c)
  | _ => none

/-- The host in an authority: after the user information, without the port. -/
def authorityHost (a : List Char) : List Char :=
  match (rpartition '@' a).2 with
  | '[' :: bracketed => (partition ']' bracketed).1
  | hostAndPort => (partition ':' hostAndPort).1

def urlHost (url : List Char) : Option (List Char) := (authority url).map authorityHost

/-- Where an authority is searched for the colon of its port. -/
def authorityTail (a : List Char) : List Char :=
  match (rpartition '@' a).2 with
  | '[' :: bracketed => (partition ']' bracketed).2.getD []
  | hostAndPort => hostAndPort

/-- The text of the port in an authority. -/
def authorityPort (a : List Char) : List Char := (partition ':' (authorityTail a)).2.getD []

def urlPort (url : List Char) : Option (List Char) := (authority url).map authorityPort

/-- What follows the scheme and its colon. -/
def afterScheme (url : List Char) : List Char :=
  match partition ':' url with
  | (s, some rest) => if s.any endsAuthority then url else rest
  | (_, none) => url

def urlScheme (url : List Char) : List Char :=
  match partition ':' url with
  | (s, some _) => if s.any endsAuthority then [] else s
  | (_, none) => []

/-- The path, the query and the fragment. -/
def afterAuthority (url : List Char) : List Char :=
  match afterScheme url with
  | '/' :: '/' :: rest => rest.dropWhile fun c => ¬ endsAuthority c
  | rest => rest

def urlPath (url : List Char) : List Char :=
  (partition '?' (partition '#' (afterAuthority url)).1).1

def urlQuery (url : List Char) : List Char :=
  (partition '?' (partition '#' (afterAuthority url)).1).2.getD []

/-! ## The scheme -/

variable {py}

theorem ascii_of_schemeChar {c : Char} (h : schemeChar c = true) : c.toNat < 128 := by
  simp only [schemeChar, isAsciiLetter, Char.isDigit, Bool.or_eq_true, Bool.and_eq_true,
    decide_eq_true_eq, Char.le_def, UInt32.le_iff_toNat_le, ge_iff_le] at h
  rcases h with (((h | h) | rfl) | rfl) | rfl
  · rcases h with h | h
    · change 97 ≤ c.toNat ∧ c.toNat ≤ 122 at h
      omega
    · change 65 ≤ c.toNat ∧ c.toNat ≤ 90 at h
      omega
  · change 48 ≤ c.toNat ∧ c.toNat ≤ 57 at h
    omega
  all_goals decide

theorem toLower_schemeChar_all : ∀ n < 128, schemeChar (Char.ofNat n) = true →
    endsAuthority (Char.ofNat n).toLower = false ∧ (Char.ofNat n).toLower ≠ ':' := by
  decide

theorem toLower_schemeChar {c : Char} (h : schemeChar c = true) :
    endsAuthority c.toLower = false ∧ c.toLower ≠ ':' := by
  have hall := toLower_schemeChar_all c.toNat (ascii_of_schemeChar h)
  rw [Char.ofNat_toNat] at hall
  exact hall h

theorem mem_splitScheme {url : List Char} {c : Char} (hc : c ∈ (splitScheme py url).1) :
    endsAuthority c = false ∧ c ≠ ':' := by
  rw [splitScheme] at hc
  split at hc
  next s rest _ =>
    split at hc
    case isTrue hs =>
      have hall : ∀ c ∈ s, schemeChar c = true := by
        rw [Bool.and_eq_true, List.all_eq_true] at hs
        exact hs.2
      rw [py.lower_ascii s fun c hc => ascii_of_schemeChar (hall c hc)] at hc
      obtain ⟨x, hx, rfl⟩ := List.mem_map.mp hc
      exact toLower_schemeChar (hall x hx)
    case isFalse => cases hc
  · cases hc

/-- A scheme holds neither a colon nor a delimiter. -/
theorem mem_scheme {url : List Char} {r : SplitResult} (h : urlsplit py url = some r) {c : Char}
    (hc : c ∈ r.scheme) : endsAuthority c = false ∧ c ≠ ':' := by
  obtain ⟨-, hr⟩ := Option.ite_none_right_eq_some.mp h
  cases hr
  exact mem_splitScheme hc

/-! ## Joining and reading -/

theorem mem_authority {url a : List Char} (h : authority url = some a) {c : Char} (hc : c ∈ a) :
    endsAuthority c = false := by
  rw [authority] at h
  split at h
  · cases h
    simpa using List.mem_takeWhile_imp hc
  · cases h

theorem authorityHost_sublist (a : List Char) :
    ∀ c ∈ authorityHost a, c ∈ (rpartition '@' a).2 := by
  intro c hc
  rw [authorityHost] at hc
  split at hc
  next bracketed heq =>
    rw [heq]
    exact List.mem_cons_of_mem _ (mem_of_mem_partition hc)
  · exact mem_of_mem_partition hc

/-- The host of a URL holds none of the characters `/`, `?`, `#` and `@`. -/
theorem mem_urlHost {url host : List Char} (h : urlHost url = some host) {c : Char}
    (hc : c ∈ host) : endsAuthority c = false ∧ c ≠ '@' := by
  obtain ⟨a, ha, rfl⟩ := Option.map_eq_some_iff.mp h
  have hmem := authorityHost_sublist a c hc
  refine ⟨mem_authority ha (mem_of_mem_rpartition hmem), ?_⟩
  rintro rfl
  exact not_mem_rpartition '@' a hmem

/-- What `urlunsplit` writes behind the `netloc`. -/
def afterNetloc (r : SplitResult) : List Char :=
  (if r.path ≠ [] ∧ r.path.head? ≠ some '/' then '/' :: r.path else r.path) ++
    ((if r.query = [] then [] else '?' :: r.query) ++
      if r.fragment = [] then [] else '#' :: r.fragment)

theorem head_afterNetloc (r : SplitResult) {c : Char} (hc : (afterNetloc r).head? = some c) :
    endsAuthority c = true := by
  obtain ⟨scheme, netloc, path, query, fragment⟩ := r
  cases path with
  | cons x path =>
    by_cases hx : x = '/'
    · simp_all [afterNetloc, endsAuthority]
      simp [← hc]
    · simp_all [afterNetloc, endsAuthority]
      simp [← hc]
  | nil =>
    cases query with
    | cons x query =>
      simp [afterNetloc] at hc
      simp [endsAuthority, ← hc]
    | nil =>
      cases fragment with
      | cons x fragment =>
        simp [afterNetloc] at hc
        simp [endsAuthority, ← hc]
      | nil => simp [afterNetloc] at hc

theorem urlunsplit_eq (r : SplitResult) :
    urlunsplit r = (if r.scheme = [] then [] else r.scheme ++ [':']) ++
      '/' :: '/' :: (r.netloc ++ afterNetloc r) := by
  simp only [urlunsplit, afterNetloc]
  split <;> split <;> split <;> split <;> simp_all

theorem takeWhile_append_delimiter {a tail : List Char}
    (h : ∀ c, tail.head? = some c → endsAuthority c = true) :
    (a ++ tail).takeWhile (fun c => ¬ endsAuthority c) =
      a.takeWhile fun c => ¬ endsAuthority c := by
  induction a with
  | nil =>
    cases tail with
    | nil => rfl
    | cons c tail => simp [h c rfl]
  | cons x a ih =>
    rw [List.cons_append, List.takeWhile_cons, List.takeWhile_cons, ih]

/-- The scheme of a joined URL is read back, and nothing of what follows it is lost. -/
theorem scheme_urlunsplit (r : SplitResult)
    (hs : ∀ c ∈ r.scheme, endsAuthority c = false ∧ c ≠ ':') :
    urlScheme (urlunsplit r) = r.scheme ∧
      afterScheme (urlunsplit r) = '/' :: '/' :: (r.netloc ++ afterNetloc r) := by
  rw [urlunsplit_eq, urlScheme, afterScheme]
  by_cases hnil : r.scheme = []
  · rw [if_pos hnil, List.nil_append, partition, if_neg (by decide), hnil]
    cases (partition ':' ('/' :: (r.netloc ++ afterNetloc r))).2 with
    | none => exact ⟨rfl, rfl⟩
    | some rest => exact ⟨rfl, rfl⟩
  · have hcolon : ':' ∉ r.scheme := fun hm => (hs ':' hm).2 rfl
    have hany : r.scheme.any endsAuthority = false := by
      rw [List.any_eq_false]
      intro c hc
      simp [(hs c hc).1]
    rw [if_neg hnil, List.append_assoc, List.singleton_append, partition_append hcolon]
    simp only [hany, Bool.false_eq_true, if_false]
    exact ⟨trivial, trivial⟩

/-- The authority of a joined URL. -/
theorem authority_urlunsplit (r : SplitResult)
    (hs : ∀ c ∈ r.scheme, endsAuthority c = false ∧ c ≠ ':') :
    authority (urlunsplit r) = some (r.netloc.takeWhile fun c => ¬ endsAuthority c) := by
  have hread : ∀ url, authority url =
      match afterScheme url with
      | '/' :: '/' :: rest => some (rest.takeWhile fun c => ¬ endsAuthority c)
      | _ => none := fun _ => rfl
  rw [hread, (scheme_urlunsplit r hs).2]
  exact congrArg some (takeWhile_append_delimiter fun c hc => head_afterNetloc r hc)

/-- The path is empty or starts with a slash, and the parts hold no character that ends them. -/
structure Parts (r : SplitResult) : Prop where
  path : r.path = [] ∨ r.path.head? = some '/'
  query : '?' ∉ r.path
  pathFragment : '#' ∉ r.path
  queryFragment : '#' ∉ r.query

theorem head_partition {c x : Char} {s : List Char} (h : (partition c s).1.head? = some x) :
    s.head? = some x := by
  cases s with
  | nil => cases h
  | cons y ys =>
    rw [partition] at h
    split at h
    · cases h
    · exact h

theorem head_cut {text : List Char} {cut : List Char × List Char}
    (h : cut = match text with
      | '/' :: '/' :: rest => rest.span fun c => ¬ endsAuthority c
      | rest => ([], rest))
    (hne : cut.1 ≠ []) {c : Char} (hc : cut.2.head? = some c) : endsAuthority c = true := by
  split at h
  next rest =>
    rw [h, List.span_eq_takeWhile_dropWhile] at hc
    have hhead := List.head?_dropWhile_not (fun c => decide ¬ endsAuthority c) rest
    rw [hc] at hhead
    simpa using hhead
  · rw [h] at hne
    exact absurd rfl hne

/-- Behind a `netloc` stands nothing, or a character that ends it. -/
theorem rest_of_urlsplit {url : List Char} {r : SplitResult} (h : urlsplit py url = some r)
    (hnetloc : r.netloc ≠ []) : ∃ rest : List Char,
      (∀ c, rest.head? = some c → endsAuthority c = true) ∧
      r.path = (partition '?' (partition '#' rest).1).1 ∧
      r.query = (partition '?' (partition '#' rest).1).2.getD [] := by
  obtain ⟨-, hr⟩ := Option.ite_none_right_eq_some.mp h
  cases hr
  exact ⟨_, fun c hc => head_cut rfl hnetloc hc, rfl, rfl⟩

theorem parts_of_urlsplit {url : List Char} {r : SplitResult} (h : urlsplit py url = some r)
    (hnetloc : r.netloc ≠ []) : Parts r := by
  obtain ⟨rest, hrest, hpath, hquery⟩ := rest_of_urlsplit h hnetloc
  have hfragment := not_mem_partition '#' rest
  have hplain := not_mem_partition '?' (partition '#' rest).1
  refine ⟨?_, hpath ▸ hplain, ?_, ?_⟩
  · rw [hpath]
    cases hhead : (partition '?' (partition '#' rest).1).1.head? with
    | none => exact Or.inl (List.head?_eq_none_iff.mp hhead)
    | some c =>
      have hc := hrest c (head_partition (head_partition hhead))
      have hmem := List.mem_of_mem_head? (Option.mem_def.mpr hhead)
      have hne : c ≠ '?' := fun he => hplain (he ▸ hmem)
      have hmem' := mem_of_mem_partition hmem
      have hne' : c ≠ '#' := fun he => hfragment (he ▸ hmem')
      simp only [endsAuthority, Bool.or_eq_true, decide_eq_true_eq, hne, hne', or_false] at hc
      rw [hc]
      exact Or.inr rfl
  · rw [hpath]
    exact fun hm => hfragment (mem_of_mem_partition hm)
  · rw [hquery]
    intro hm
    cases hq : (partition '?' (partition '#' rest).1).2 with
    | none => rw [hq] at hm; cases hm
    | some q =>
      rw [hq] at hm
      refine hfragment ?_
      rw [(partition_some hq).1]
      exact List.mem_append_right _ (List.mem_cons_of_mem _ hm)

/-- What stands behind a `netloc`, up to the fragment. -/
theorem beforeFragment {r : SplitResult} (h : Parts r) :
    (partition '#' (afterNetloc r)).1 = r.path ++ if r.query = [] then [] else '?' :: r.query := by
  have hslash : ¬ (r.path ≠ [] ∧ r.path.head? ≠ some '/') := by
    rintro ⟨hne, hhead⟩
    exact h.path.elim hne hhead
  have hplain : '#' ∉ r.path ++ if r.query = [] then [] else '?' :: r.query := by
    rw [List.mem_append, not_or]
    refine ⟨h.pathFragment, ?_⟩
    by_cases hnil : r.query = []
    · rw [if_pos hnil]
      exact List.not_mem_nil
    · rw [if_neg hnil]
      simp [h.queryFragment]
  rw [afterNetloc, if_neg hslash, ← List.append_assoc]
  by_cases hnil : r.fragment = []
  · rw [if_pos hnil, List.append_nil, partition_of_not_mem hplain]
  · rw [if_neg hnil, partition_append hplain]

/-- The path and the query of a joined URL are read back. -/
theorem parts_urlunsplit {r : SplitResult} (hs : ∀ c ∈ r.scheme, endsAuthority c = false ∧ c ≠ ':')
    (hnetloc : ∀ c ∈ r.netloc, endsAuthority c = false) (h : Parts r) :
    urlPath (urlunsplit r) = r.path ∧ urlQuery (urlunsplit r) = r.query := by
  have hbehind : afterAuthority (urlunsplit r) = afterNetloc r := by
    rw [afterAuthority, (scheme_urlunsplit r hs).2]
    change (r.netloc ++ afterNetloc r).dropWhile _ = afterNetloc r
    rw [List.dropWhile_append_of_pos fun c hc => by simp [hnetloc c hc]]
    cases htail : afterNetloc r with
    | nil => rfl
    | cons c tail =>
      have hend : endsAuthority c = true := head_afterNetloc r (by rw [htail]; rfl)
      rw [List.dropWhile_cons_of_neg (by simp [hend])]
  have hfragment := beforeFragment h
  have hquery : partition '?' (r.path ++ if r.query = [] then [] else '?' :: r.query) =
      (r.path, if r.query = [] then none else some r.query) := by
    split
    · rw [List.append_nil, partition_of_not_mem h.query]
    · rw [partition_append h.query]
  rw [urlPath, urlQuery, hbehind, hfragment, hquery]
  refine ⟨rfl, ?_⟩
  by_cases hnil : r.query = []
  · rw [if_pos hnil, hnil, Option.getD_none]
  · rw [if_neg hnil, Option.getD_some]

/-- The `netloc` made of an address and a port. -/
def addressNetloc (ip : List Char) (port : Option Nat) : List Char :=
  (if ':' ∈ ip then '[' :: (ip ++ [']']) else ip) ++
    port.elim [] fun n => ':' :: Nat.toDigits 10 n

theorem mem_portText {port : Option Nat} {c : Char}
    (hc : c ∈ port.elim [] fun n => ':' :: Nat.toDigits 10 n) : c = ':' ∨ c.isDigit = true := by
  cases port with
  | none => cases hc
  | some n =>
    rcases List.mem_cons.mp hc with rfl | hc
    · exact Or.inl rfl
    · exact Or.inr (Nat.isDigit_of_mem_toDigits (by decide) (by decide) hc)

/-- The characters that a URL gives a meaning around its host. -/
def delimiter (c : Char) : Bool := endsAuthority c || c = '@' || c = ']'

theorem not_delimiter_of_isDigit {c : Char} (h : c.isDigit = true) : delimiter c = false := by
  simp only [delimiter, endsAuthority, Bool.or_eq_false_iff, decide_eq_false_iff_not]
  refine ⟨⟨⟨⟨?_, ?_⟩, ?_⟩, ?_⟩, ?_⟩ <;> (rintro rfl; cases h)

theorem delimiter_eq_false {c : Char} : delimiter c = false ↔
    (endsAuthority c = false ∧ c ≠ '@') ∧ c ≠ ']' := by
  simp only [delimiter, Bool.or_eq_false_iff, decide_eq_false_iff_not, ne_eq]

/-- A `netloc` made of an address without the characters that end an authority
is read back whole. -/
theorem authority_addressNetloc {ip : List Char} (port : Option Nat)
    (h : ∀ c ∈ ip, endsAuthority c = false) :
    (addressNetloc ip port).takeWhile (fun c => ¬ endsAuthority c) = addressNetloc ip port := by
  rw [List.takeWhile_eq_self_iff]
  intro c hc
  have hend : endsAuthority c = false := by
    rcases List.mem_append.mp hc with hc | hc
    · split at hc
      · simp only [List.mem_cons, List.mem_append, List.not_mem_nil, or_false] at hc
        rcases hc with rfl | hc | rfl
        · rfl
        · exact h c hc
        · rfl
      · exact h c hc
    · rcases mem_portText hc with rfl | hd
      · rfl
      · exact (delimiter_eq_false.mp (not_delimiter_of_isDigit hd)).1.1
  simp [hend]

theorem rpartition_addressNetloc {ip : List Char} (port : Option Nat) (h : '@' ∉ ip) :
    (rpartition '@' (addressNetloc ip port)).2 = addressNetloc ip port := by
  rw [rpartition_of_not_mem]
  intro hm
  rcases List.mem_append.mp hm with hm | hm
  · split at hm <;> simp_all
  · rcases mem_portText hm with hd | hd <;> cases hd

/-- An IPv6 address in its brackets is read up to the first closing bracket. -/
theorem authorityHost_bracketed {ip : List Char} (port : Option Nat) (h : '@' ∉ ip)
    (hcolon : ':' ∈ ip) : ∃ rest, authorityHost (addressNetloc ip port) =
      (partition ']' (ip ++ ']' :: rest)).1 := by
  refine ⟨port.elim [] fun n => ':' :: Nat.toDigits 10 n, ?_⟩
  rw [authorityHost, rpartition_addressNetloc port h, addressNetloc, if_pos hcolon]
  simp only [List.cons_append, List.append_assoc, List.nil_append]

/-- An IPv4 address is cut off at the colon of the port, if there is one. -/
theorem partition_dotted {ip : List Char} (port : Option Nat) (hcolon : ':' ∉ ip) :
    partition ':' (addressNetloc ip port) = (ip, port.map (Nat.toDigits 10)) := by
  rw [addressNetloc, if_neg hcolon]
  cases port with
  | none => rw [Option.elim_none, List.append_nil, partition_of_not_mem hcolon, Option.map_none]
  | some n => rw [Option.elim_some, partition_append hcolon, Option.map_some]

theorem dotted_ne_bracketed {ip : List Char} (port : Option Nat) (hcolon : ':' ∉ ip)
    (hdot : ∀ c ∈ ip, c.isDigit = true ∨ c = '.') (rest : List Char) :
    addressNetloc ip port ≠ '[' :: rest := by
  intro he
  rw [addressNetloc, if_neg hcolon] at he
  have hm : '[' ∈ ip ++ port.elim [] fun n => ':' :: Nat.toDigits 10 n := by
    rw [he]
    exact List.mem_cons_self ..
  rcases List.mem_append.mp hm with hm | hm
  · rcases hdot _ hm with hd | hd <;> cases hd
  · rcases mem_portText hm with hd | hd <;> cases hd

theorem at_not_mem_dotted {ip : List Char} (hdot : ∀ c ∈ ip, c.isDigit = true ∨ c = '.') :
    '@' ∉ ip := by
  intro hm
  rcases hdot _ hm with hd | hd <;> cases hd

theorem authorityHost_dotted {ip : List Char} (port : Option Nat) (hcolon : ':' ∉ ip)
    (hdot : ∀ c ∈ ip, c.isDigit = true ∨ c = '.') :
    authorityHost (addressNetloc ip port) = ip := by
  rw [authorityHost, rpartition_addressNetloc port (at_not_mem_dotted hdot)]
  split
  next bracketed heq => exact absurd heq (dotted_ne_bracketed port hcolon hdot bracketed)
  · rw [partition_dotted port hcolon]

theorem authorityPort_dotted {ip : List Char} (port : Option Nat) (hcolon : ':' ∉ ip)
    (hdot : ∀ c ∈ ip, c.isDigit = true ∨ c = '.') :
    authorityPort (addressNetloc ip port) = port.elim [] (Nat.toDigits 10) := by
  have htail : authorityTail (addressNetloc ip port) = addressNetloc ip port := by
    rw [authorityTail, rpartition_addressNetloc port (at_not_mem_dotted hdot)]
    split
    next bracketed heq =>
      exact absurd heq (dotted_ne_bracketed port hcolon hdot bracketed)
    · rfl
  rw [authorityPort, htail, partition_dotted port hcolon]
  cases port <;> rfl

theorem not_mem_portText (port : Option Nat) {c : Char} (hcolon : c ≠ ':')
    (hdigit : c.isDigit = false) : c ∉ port.elim [] fun n => ':' :: Nat.toDigits 10 n := by
  intro hm
  rcases mem_portText hm with rfl | hd
  · exact hcolon rfl
  · rw [hd] at hdigit
    cases hdigit

/-- What an address leaves between itself and the port: nothing, or text with a bracket. -/
theorem authorityTail_closed (ip : List Char) {port : List Char} (h : '@' ∉ port) :
    authorityTail ('[' :: (ip ++ ']' :: port)) = authorityTail ('[' :: ip) ++ ']' :: port ∨
      authorityTail ('[' :: ip) = [] ∧ authorityTail ('[' :: (ip ++ ']' :: port)) = port := by
  have hlast : (rpartition '@' ('[' :: (ip ++ ']' :: port))).2 =
      (rpartition '@' ('[' :: ip)).2 ++ ']' :: port :=
    rpartition_append (b := ']' :: port) (by simp [h]) ('[' :: ip)
  rw [authorityTail, authorityTail, hlast]
  match (rpartition '@' ('[' :: ip)).2 with
  | [] => exact .inl rfl
  | c :: rest =>
    by_cases hc : c = '['
    · subst hc
      simp only [List.cons_append]
      cases hclosed : (partition ']' rest).2 with
      | none =>
        obtain ⟨hm, -⟩ := partition_none hclosed
        rw [partition_append hm]
        exact .inr ⟨rfl, rfl⟩
      | some behind =>
        obtain ⟨hrest, hm⟩ := partition_some hclosed
        rw [hrest, List.append_assoc, List.cons_append, partition_append hm]
        exact .inl rfl
    · simp only [List.cons_append]
      exact .inl (by split <;> split <;> simp_all)

/-- The port is read back unless the address puts a colon before it. -/
theorem authorityPort_closed (ip : List Char) (port : Option Nat) :
    authorityPort ('[' :: (ip ++ ']' :: port.elim [] fun n => ':' :: Nat.toDigits 10 n)) =
        port.elim [] (Nat.toDigits 10) ↔ ':' ∉ authorityTail ('[' :: ip) := by
  have hat : '@' ∉ port.elim [] fun n => ':' :: Nat.toDigits 10 n :=
    not_mem_portText port (by decide) (by decide)
  have hport : (partition ':' (port.elim [] fun n => ':' :: Nat.toDigits 10 n)).2.getD [] =
      port.elim [] (Nat.toDigits 10) := by
    cases port with
    | none => rfl
    | some n => rw [Option.elim_some, partition, if_pos rfl, Option.getD_some, Option.elim_some]
  have hclosing : ']' ∉ port.elim [] (Nat.toDigits 10) := by
    cases port with
    | none => exact List.not_mem_nil
    | some n =>
      intro hm
      cases Nat.isDigit_of_mem_toDigits (by decide) (by decide) hm
  rw [authorityPort]
  rcases authorityTail_closed ip hat with htail | ⟨hnil, htail⟩
  · rw [htail]
    by_cases hcolon : ':' ∈ authorityTail ('[' :: ip)
    · refine iff_of_false (fun hread => hclosing ?_) (not_not.mpr hcolon)
      cases hcut : (partition ':' (authorityTail ('[' :: ip))).2 with
      | none => exact absurd hcolon (partition_none hcut).1
      | some behind =>
        obtain ⟨hrest, hm⟩ := partition_some hcut
        rw [hrest, List.append_assoc, List.cons_append, partition_append hm,
          Option.getD_some] at hread
        rw [← hread]
        simp
    · refine iff_of_true ?_ hcolon
      rw [partition_append_of_not_mem hcolon, partition, if_neg (by decide)]
      exact hport
  · rw [htail, hnil]
    exact iff_of_true hport List.not_mem_nil

/-- **The pinned host.** A URL joined from an address has the address as its host
if and only if the address holds no delimiter. -/
theorem urlHost_pinned (r : SplitResult) (ip : List Char) (port : Option Nat)
    (hs : ∀ c ∈ r.scheme, endsAuthority c = false ∧ c ≠ ':')
    (hdot : ':' ∉ ip → ∀ c ∈ ip, c.isDigit = true ∨ c = '.') :
    urlHost (urlunsplit { r with netloc := addressNetloc ip port }) = some ip ↔
      ∀ c ∈ ip, delimiter c = false := by
  have hauth := authority_urlunsplit { r with netloc := addressNetloc ip port } hs
  constructor
  · intro h c hc
    have hplain : ∀ c ∈ ip, endsAuthority c = false ∧ c ≠ '@' := fun c hc => mem_urlHost h hc
    refine delimiter_eq_false.mpr ⟨hplain c hc, ?_⟩
    rintro rfl
    by_cases hcolon : ':' ∈ ip
    · obtain ⟨rest, hrest⟩ := authorityHost_bracketed port (fun hm => (hplain _ hm).2 rfl) hcolon
      rw [urlHost, hauth, authority_addressNetloc port fun c hc => (hplain c hc).1,
        Option.map_some, hrest, Option.some_inj] at h
      rw [← h] at hc
      exact not_mem_partition ']' _ hc
    · rcases hdot hcolon _ hc with hd | hd <;> cases hd
  · intro h
    have hplain : ∀ c ∈ ip, (endsAuthority c = false ∧ c ≠ '@') ∧ c ≠ ']' := fun c hc =>
      delimiter_eq_false.mp (h c hc)
    rw [urlHost, hauth, authority_addressNetloc port fun c hc => (hplain c hc).1.1,
      Option.map_some, Option.some_inj]
    by_cases hcolon : ':' ∈ ip
    · obtain ⟨rest, hrest⟩ := authorityHost_bracketed port (fun hm => (hplain _ hm).1.2 rfl) hcolon
      rw [hrest, partition_append fun hm => (hplain _ hm).2 rfl]
    · exact authorityHost_dotted port hcolon (hdot hcolon)

/-- An address that leaves the other parts of a URL alone: it ends no authority, and puts no
colon before the port. -/
structure Unobtrusive (ip : List Char) : Prop where
  authority : ∀ c ∈ ip, endsAuthority c = false
  port : ':' ∉ authorityTail ('[' :: ip)

/-- An address that has these parts itself, before a fragment that swallows those of the URL. -/
structure Spells (r : SplitResult) (port : Option Nat) (ip : List Char) : Prop where
  fragment : '#' ∈ ip
  path : urlPath ('/' :: '/' :: '[' :: ip) = r.path
  query : urlQuery ('/' :: '/' :: '[' :: ip) = r.query
  port : urlPort ('/' :: '/' :: '[' :: ip) = some (port.elim [] (Nat.toDigits 10))

theorem afterScheme_slashes (text : List Char) :
    afterScheme ('/' :: '/' :: text) = '/' :: '/' :: text := by
  rw [afterScheme, partition, if_neg (by decide)]
  cases (partition ':' ('/' :: text)).2 with
  | none => rfl
  | some rest => rfl

theorem unobtrusive_of_dotted {ip : List Char}
    (hdot : ∀ c ∈ ip, c.isDigit = true ∨ c = '.') : Unobtrusive ip := by
  constructor
  · intro c hc
    rcases hdot c hc with hd | rfl
    · exact (delimiter_eq_false.mp (not_delimiter_of_isDigit hd)).1.1
    · rfl
  · have hclosing : ']' ∉ ip := fun hm => by rcases hdot _ hm with hd | hd <;> cases hd
    rw [authorityTail, rpartition_of_not_mem (by simp [at_not_mem_dotted hdot])]
    simp only [partition_of_not_mem hclosing, Option.getD_none, List.not_mem_nil,
      not_false_eq_true]

section

variable {r : SplitResult} {ip : List Char} {port : Option Nat}

/-- The `netloc` of an IPv6 address. -/
theorem addressNetloc_colon (port : Option Nat) (hcolon : ':' ∈ ip) : addressNetloc ip port =
    '[' :: (ip ++ ']' :: port.elim [] fun n => ':' :: Nat.toDigits 10 n) := by
  rw [addressNetloc, if_pos hcolon, List.cons_append, List.append_assoc, List.singleton_append]

/-- Where the address ends the authority, the rest of it is read as the path and the query. -/
theorem afterAuthority_pinned (hs : ∀ c ∈ r.scheme, endsAuthority c = false ∧ c ≠ ':')
    (hr : r.netloc = addressNetloc ip port) (hcolon : ':' ∈ ip) {tail : List Char}
    (htail : ip.dropWhile (fun c => ¬ endsAuthority c) = tail) (hne : tail ≠ []) :
    afterAuthority ('/' :: '/' :: '[' :: ip) = tail ∧
      afterAuthority (urlunsplit r) = tail ++
        ']' :: ((port.elim [] fun n => ':' :: Nat.toDigits 10 n) ++ afterNetloc r) := by
  have hread : ∀ url, afterAuthority url =
      match afterScheme url with
      | '/' :: '/' :: rest => rest.dropWhile fun c => ¬ endsAuthority c
      | rest => rest := fun _ => rfl
  have hbracket : ∀ rest : List Char, ('[' :: rest).dropWhile (fun c => ¬ endsAuthority c) =
      rest.dropWhile fun c => ¬ endsAuthority c :=
    fun rest => List.dropWhile_cons_of_pos (by decide)
  rw [hread, hread, afterScheme_slashes, (scheme_urlunsplit r hs).2, hr,
    addressNetloc_colon port hcolon]
  simp only [List.cons_append, hbracket, List.append_assoc]
  refine ⟨htail, ?_⟩
  rw [List.dropWhile_append, htail, if_neg (by simpa using hne)]

/-- And its authority ends there too. -/
theorem urlPort_pinned (hs : ∀ c ∈ r.scheme, endsAuthority c = false ∧ c ≠ ':')
    (hr : r.netloc = addressNetloc ip port) (hcolon : ':' ∈ ip)
    (hends : ∃ c ∈ ip, endsAuthority c = true) :
    urlPort (urlunsplit r) = urlPort ('/' :: '/' :: '[' :: ip) := by
  have hread : ∀ url, authority url =
      match afterScheme url with
      | '/' :: '/' :: rest => some (rest.takeWhile fun c => ¬ endsAuthority c)
      | _ => none := fun _ => rfl
  have hbracket : ∀ rest : List Char, ('[' :: rest).takeWhile (fun c => ¬ endsAuthority c) =
      '[' :: rest.takeWhile fun c => ¬ endsAuthority c :=
    fun rest => List.takeWhile_cons_of_pos (by decide)
  have hshort : ¬ (ip.takeWhile fun c => ¬ endsAuthority c).length = ip.length := by
    intro hlen
    obtain ⟨c, hc, hend⟩ := hends
    have hwhole := (List.takeWhile_prefix (p := fun c => decide ¬ endsAuthority c = true)
      (l := ip)).eq_of_length hlen
    have hall := List.takeWhile_eq_self_iff.mp hwhole c hc
    simp [hend] at hall
  rw [urlPort, urlPort, authority_urlunsplit r hs, hread, afterScheme_slashes, hr,
    addressNetloc_colon port hcolon]
  simp only [hbracket]
  rw [List.takeWhile_append, if_neg hshort]

theorem dropWhile_ne_nil {c : Char} (hc : c ∈ ip) (hend : endsAuthority c = true) :
    ip.dropWhile (fun c => ¬ endsAuthority c) ≠ [] := by
  intro hnil
  have hall := List.dropWhile_eq_nil_iff.mp hnil c hc
  simp [hend] at hall

/-- A fragment of its own leaves the address the path and the query. -/
theorem parts_spelt (hs : ∀ c ∈ r.scheme, endsAuthority c = false ∧ c ≠ ':')
    (hr : r.netloc = addressNetloc ip port) (hcolon : ':' ∈ ip) (hfragment : '#' ∈ ip) :
    urlPath (urlunsplit r) = urlPath ('/' :: '/' :: '[' :: ip) ∧
      urlQuery (urlunsplit r) = urlQuery ('/' :: '/' :: '[' :: ip) := by
  obtain ⟨hspelt, hbehind⟩ := afterAuthority_pinned hs hr hcolon rfl
    (dropWhile_ne_nil hfragment (by decide))
  have hmem : '#' ∈ ip.dropWhile fun c => ¬ endsAuthority c := by
    rw [← List.takeWhile_append_dropWhile (p := fun c => ¬ endsAuthority c) (l := ip),
      List.mem_append] at hfragment
    refine hfragment.resolve_left fun hm => ?_
    have hplain : endsAuthority '#' = false := by simpa using List.mem_takeWhile_imp hm
    cases hplain
  obtain ⟨a, b, hcut, ha⟩ := List.eq_append_cons_of_mem hmem
  have hbefore : (partition '#' (afterAuthority (urlunsplit r))).1 =
      (partition '#' (afterAuthority ('/' :: '/' :: '[' :: ip))).1 := by
    rw [hbehind, hspelt, hcut, List.append_assoc, List.cons_append, partition_append ha,
      partition_append ha]
  exact ⟨by rw [urlPath, urlPath, hbefore], by rw [urlQuery, urlQuery, hbefore]⟩

/-- An address that does not end the authority leaves the port, if it puts no colon before it. -/
theorem urlPort_plain_iff (hs : ∀ c ∈ r.scheme, endsAuthority c = false ∧ c ≠ ':')
    (hr : r.netloc = addressNetloc ip port) (hplain : ∀ c ∈ ip, endsAuthority c = false)
    (hdot : ':' ∉ ip → ∀ c ∈ ip, c.isDigit = true ∨ c = '.') :
    urlPort (urlunsplit r) = some (port.elim [] (Nat.toDigits 10)) ↔
      ':' ∉ authorityTail ('[' :: ip) := by
  rw [urlPort, authority_urlunsplit r hs, hr, authority_addressNetloc port hplain,
    Option.map_some, Option.some_inj]
  by_cases hcolon : ':' ∈ ip
  · rw [addressNetloc_colon port hcolon]
    exact authorityPort_closed ip port
  · exact iff_of_true (authorityPort_dotted port hcolon (hdot hcolon))
      (unobtrusive_of_dotted (hdot hcolon)).port

/-- Without a fragment of its own the address makes the path or the query longer. -/
theorem longer_pinned {tail portText : List Char} (h : Parts r) (hport : '#' ∉ portText)
    (hquestion : '?' ∉ portText) (htail : '#' ∉ tail) {url : List Char}
    (hurl : afterAuthority url = tail ++ ']' :: (portText ++ afterNetloc r)) :
    ¬ (urlPath url = r.path ∧ urlQuery url = r.query) := by
  have hcut : (partition '#' (afterAuthority url)).1 = tail ++ (']' :: (portText ++
      (r.path ++ if r.query = [] then [] else '?' :: r.query))) := by
    rw [hurl, partition_append_of_not_mem htail]
    simp only
    rw [← List.cons_append, partition_append_of_not_mem (by simp [hport]), beforeFragment h,
      List.cons_append]
  rw [urlPath, urlQuery, hcut]
  rintro ⟨hpath, hquery⟩
  by_cases hmark : '?' ∈ tail
  · -- the query has all that stands behind the address
    obtain ⟨a, b, rfl, ha⟩ := List.eq_append_cons_of_mem hmark
    rw [List.append_assoc, List.cons_append, partition_append ha, Option.getD_some] at hquery
    have hlen := congrArg List.length hquery
    by_cases hnil : r.query = []
    · simp [hnil] at hlen
    · simp only [if_neg hnil, List.length_append, List.length_cons] at hlen
      omega
  · -- the path has the address before it
    rw [partition_append_of_not_mem hmark, ← List.cons_append,
      partition_append_of_not_mem (by simp [hquestion]), partition_append_of_not_mem h.query]
      at hpath
    have hlen := congrArg List.length hpath
    simp only [List.length_append, List.length_cons] at hlen
    omega

end

/-- **The parts of a pinned URL**: joined from an address it has the scheme, the path, the query
and the port of the URL that was split, if and only if the address leaves them alone or spells
them itself. -/
theorem parts_pinned_iff {url : List Char} {r : SplitResult} (hurl : urlsplit py url = some r)
    (hnetloc : r.netloc ≠ []) (ip : List Char) (port : Option Nat)
    (hdot : ':' ∉ ip → ∀ c ∈ ip, c.isDigit = true ∨ c = '.') :
    let pinned := urlunsplit { r with netloc := addressNetloc ip port }
    (urlScheme pinned = r.scheme ∧ urlPath pinned = r.path ∧ urlQuery pinned = r.query ∧
      urlPort pinned = some (port.elim [] (Nat.toDigits 10))) ↔
      Unobtrusive ip ∨ Spells r port ip := by
  have hs : ∀ c ∈ r.scheme, endsAuthority c = false ∧ c ≠ ':' := fun c hc => mem_scheme hurl hc
  have hparts : Parts { r with netloc := addressNetloc ip port } :=
    { parts_of_urlsplit hurl hnetloc with }
  have hscheme := (scheme_urlunsplit { r with netloc := addressNetloc ip port } hs).1
  intro pinned
  by_cases hends : ∃ c ∈ ip, endsAuthority c = true
  · obtain ⟨c, hc, hend⟩ := hends
    have hobtrusive : ¬ Unobtrusive ip := fun h => by
      rw [h.authority c hc] at hend
      cases hend
    -- it is an IPv6 address, whose scope ends the authority
    have hcolon : ':' ∈ ip := by
      by_contra hcolon
      exact hobtrusive (unobtrusive_of_dotted (hdot hcolon))
    have hport : urlPort pinned = urlPort ('/' :: '/' :: '[' :: ip) :=
      urlPort_pinned hs rfl hcolon ⟨c, hc, hend⟩
    by_cases hfragment : '#' ∈ ip
    · obtain ⟨hpath, hquery⟩ := parts_spelt
        (r := { r with netloc := addressNetloc ip port }) hs rfl hcolon hfragment
      rw [hpath, hquery, hport]
      constructor
      · rintro ⟨-, h1, h2, h3⟩
        exact .inr ⟨hfragment, h1, h2, h3⟩
      · rintro (h | h)
        · exact absurd h hobtrusive
        · exact ⟨hscheme, h.path, h.query, h.port⟩
    · have hshort : '#' ∉ ip.dropWhile fun c => ¬ endsAuthority c := fun hm =>
        hfragment ((List.dropWhile_suffix _).mem hm)
      have hbehind := (afterAuthority_pinned (r := { r with netloc := addressNetloc ip port })
        hs rfl hcolon rfl (dropWhile_ne_nil hc hend)).2
      have hlonger := longer_pinned hparts (not_mem_portText port (by decide) (by decide))
        (not_mem_portText port (by decide) (by decide)) hshort hbehind
      refine iff_of_false (fun h => hlonger ⟨h.2.1, h.2.2.1⟩) ?_
      rintro (h | h)
      · exact hobtrusive h
      · exact hfragment h.fragment
  · have hplain : ∀ c ∈ ip, endsAuthority c = false := by
      intro c hc
      by_contra hend
      exact hends ⟨c, hc, by simpa using hend⟩
    have hnetlocPlain : ∀ c ∈ addressNetloc ip port, endsAuthority c = false := by
      intro c hc
      simpa using List.takeWhile_eq_self_iff.mp (authority_addressNetloc port hplain) c hc
    obtain ⟨hpath, hquery⟩ := parts_urlunsplit
      (r := { r with netloc := addressNetloc ip port }) hs hnetlocPlain hparts
    have hport := urlPort_plain_iff
      (r := { r with netloc := addressNetloc ip port }) hs rfl hplain hdot
    constructor
    · rintro ⟨-, -, -, h⟩
      exact .inl ⟨hplain, hport.mp h⟩
    · rintro (h | h)
      · exact ⟨hscheme, hpath, hquery, hport.mpr h.port⟩
      · cases hplain _ h.fragment

/-! ## The value of a `Host` header -/

/-- The host as it is written, with its explicit port if it has one. -/
def hostValue (netloc : List Char) : List Char :=
  let (host, port) := hostinfo netloc
  let host := if '[' ∈ (rpartition '@' netloc).2 then '[' :: (host ++ [']']) else host
  if port = [] then host else host ++ ':' :: port

theorem digits_of_port {r : SplitResult} {port : Option Nat} (h : r.port = some port) :
    ∀ c ∈ (hostinfo r.netloc).2, c.isDigit = true := by
  rw [SplitResult.port] at h
  cases hdigits : (hostinfo r.netloc).2 with
  | nil => exact List.forall_mem_nil _
  | cons c cs =>
    simp only [hdigits] at h
    obtain ⟨⟨hall, -⟩, -⟩ := Option.ite_none_right_eq_some.mp h
    exact List.all_eq_true.mp hall

/-- A colon at the end is one without a port. -/
theorem explicit_port_iff (host : List Char) {port : List Char}
    (h : ∀ c ∈ port, c.isDigit = true) :
    (if port = [] then host else host ++ ':' :: port) = host ++ ':' :: port ↔
      (host ++ ':' :: port).getLast? ≠ some ':' := by
  by_cases hnil : port = []
  · subst hnil
    simp
  · have hlast : ':' ≠ port.getLast hnil := fun he => by
      have hdigit := h _ (List.getLast_mem hnil)
      rw [← he] at hdigit
      cases hdigit
    refine iff_of_true (if_neg hnil) ?_
    rw [List.getLast?_append, List.getLast?_cons, List.getLast?_eq_some_getLast hnil]
    simpa using hlast.symm

/-- In brackets stands the host, and behind them at most the port. -/
theorem bracketed_of_urlsplit {url : List Char} {r : SplitResult}
    (hurl : urlsplit py url = some r) (hat : '@' ∉ r.netloc) (hbracket : '[' ∈ r.netloc) :
    ∃ host text, r.netloc = '[' :: (host ++ ']' :: text) ∧ ']' ∉ host ∧
      (text = [] ∨ ∃ port, text = ':' :: port) := by
  have hok : bracketsOk py r.netloc = true := by
    obtain ⟨hok, hr⟩ := Option.ite_none_right_eq_some.mp hurl
    cases hr
    exact (Bool.and_eq_true_iff.mp hok).1
  have hclosing : ']' ∈ r.netloc := by
    by_contra hno
    simp [bracketsOk, hbracket, hno] at hok
  have hnetloc : bracketedNetlocOk py r.netloc = true := by
    simpa [bracketsOk, hbracket, hclosing] using hok
  rw [bracketedNetlocOk, rpartition_of_not_mem hat] at hnetloc
  simp only at hnetloc
  cases hopen : partition '[' r.netloc with
  | mk before rest =>
    rw [hopen] at hnetloc
    cases rest with
    | none => exact absurd hbracket (partition_none (by rw [hopen])).1
    | some bracketed =>
      have hwhole := (partition_some (s := r.netloc) (by rw [hopen])).1
      simp only [Bool.and_eq_true, decide_eq_true_eq] at hnetloc
      obtain ⟨⟨hbefore, hport⟩, -⟩ := hnetloc
      rw [hopen, hbefore, List.nil_append] at hwhole
      cases hclose : (partition ']' bracketed).2 with
      | none =>
        rw [hwhole] at hclosing
        exact absurd (List.mem_of_ne_of_mem (by decide) hclosing) (partition_none hclose).1
      | some text =>
        obtain ⟨hb, hhost⟩ := partition_some hclose
        refine ⟨_, text, by rw [hwhole, ← hb], hhost, ?_⟩
        rw [hclose] at hport
        cases text with
        | nil => exact .inl rfl
        | cons c port =>
          have hc : c = ':' := by simpa using hport
          exact .inr ⟨port, by rw [hc]⟩

theorem at_not_mem_hostValue (netloc : List Char) : '@' ∉ hostValue netloc := by
  have hplain := not_mem_rpartition '@' netloc
  have hhost : '@' ∉ (hostinfo netloc).1 ∧ '@' ∉ (hostinfo netloc).2 := by
    rw [hostinfo]
    cases hopen : (partition '[' (rpartition '@' netloc).2).2 with
    | none =>
      exact ⟨fun hm => hplain (mem_of_mem_partition hm), fun hm => hplain (mem_of_mem_behind hm)⟩
    | some bracketed =>
      have hinside : '@' ∉ bracketed := fun hm =>
        hplain (mem_of_mem_behind (c := '[') (by rw [hopen]; exact hm))
      exact ⟨fun hm => hinside (mem_of_mem_partition hm),
        fun hm => hinside (mem_of_mem_behind (mem_of_mem_behind hm))⟩
  simp only [hostValue]
  split <;> split <;> simp [hhost.1, hhost.2]

/-- The `netloc` is such a value when nothing stands before its host, nor a bare colon behind. -/
theorem hostValue_eq_iff {url : List Char} {r : SplitResult} {port : Option Nat}
    (hurl : urlsplit py url = some r) (hport : r.port = some port) :
    hostValue r.netloc = r.netloc ↔ '@' ∉ r.netloc ∧ r.netloc.getLast? ≠ some ':' := by
  have hdigits := digits_of_port hport
  by_cases hat : '@' ∈ r.netloc
  · refine iff_of_false (fun h => ?_) fun h => h.1 hat
    rw [← h] at hat
    exact at_not_mem_hostValue _ hat
  rw [hostinfo] at hdigits
  rw [hostValue, hostinfo]
  rw [rpartition_of_not_mem hat] at hdigits ⊢
  simp only [hat, not_false_eq_true, true_and] at hdigits ⊢
  by_cases hbracket : '[' ∈ r.netloc
  · obtain ⟨host, text, hnetloc, hhost, htext⟩ := bracketed_of_urlsplit hurl hat hbracket
    have hopen : (partition '[' r.netloc).2 = some (host ++ ']' :: text) := by
      rw [hnetloc, partition, if_pos rfl]
    simp only [hopen, partition_append hhost, Option.getD_some, if_pos hbracket] at hdigits ⊢
    rw [hnetloc]
    rcases htext with rfl | ⟨port, rfl⟩
    · rw [partition, Option.getD_none, if_pos rfl]
      refine iff_of_true rfl ?_
      rw [← List.cons_append, List.getLast?_concat]
      decide
    · rw [partition, if_pos rfl, Option.getD_some] at hdigits ⊢
      have hiff := explicit_port_iff ('[' :: (host ++ [']'])) hdigits
      simpa only [List.cons_append, List.append_assoc, List.nil_append] using hiff
  · rw [partition_of_not_mem hbracket] at hdigits ⊢
    simp only [if_neg hbracket] at hdigits ⊢
    cases hcolon : (partition ':' r.netloc).2 with
    | none =>
      obtain ⟨hm, hwhole⟩ := partition_none hcolon
      rw [Option.getD_none, if_pos rfl, hwhole]
      exact iff_of_true rfl fun hlast => hm (List.mem_of_getLast? hlast)
    | some text =>
      have hwhole := (partition_some hcolon).1
      rw [hcolon, Option.getD_some] at hdigits
      rw [Option.getD_some]
      have hiff := explicit_port_iff (partition ':' r.netloc).1 hdigits
      rw [← hwhole] at hiff ⊢
      exact hiff

end Lib.Url
