import Mathlib.Data.List.Infix
import WebhookEngine.Lib.Tree

/-!
# Redaction of payloads

`redact_payload` of `envelope.py`. Names are lists of characters; scalars other than `str`
are a parameter, up to Python's `==`. `re` is modelled for the forms in use: a literal,
perhaps with `$` (which also matches before a last newline), perhaps without regard to case.

* `withheld_iff`: what the two rules withhold of the names that are to be withheld;
* `redaction_covers_iff`: a payload shows nothing of its sensitive values if and only if no
  field that is passed on has `secret` in its name or a sensitive key inside.
-/

namespace WebhookEngine.Subscriptions.Redaction

open Lib

abbrev Name := List Char

inductive Scalar (α : Type*) where
  | str (s : String)
  | other (a : α)

abbrev Value (α : Type*) := Tree Name (Scalar α)

/-- The `dict` that `asdict` makes of an event. -/
structure Payload (α : Type*) where
  items : List (Name × Value α)
  wellFormed : (Tree.dict items : Value α).WellFormed

/-- The fields of `WebhookMeta` that redaction reads. -/
structure WebhookMeta where
  redactedFields : List Name := []
  allowSensitive : Bool := false

/-! ## The patterns -/

structure Pattern where
  literal : Name
  dollar : Bool
  ignoreCase : Bool

/-- Letters that `re.IGNORECASE` takes for one; `ſ` matches `s`. -/
def foldCase (c : Char) : Char := if c = 'ſ' then 's' else c.toLower

/-- `search`. -/
def Pattern.search (p : Pattern) (name : Name) : Bool :=
  let name := if p.ignoreCase then name.map foldCase else name
  if p.dollar then decide (p.literal <:+ name ∨ p.literal ++ ['\n'] <:+ name)
  else decide (p.literal <:+: name)

def AUTO_REDACT_PATTERNS : List Pattern :=
  [⟨"_enc".toList, true, false⟩, ⟨"_token".toList, true, false⟩,
    ⟨"password".toList, false, true⟩, ⟨"secret".toList, true, true⟩]

def shouldAutoRedact (name : Name) : Bool := AUTO_REDACT_PATTERNS.any (·.search name)

/-! ## `redact_payload` -/

variable {α : Type*}

def REDACTED_PLACEHOLDER : Value α := .atom (.str "<redacted>")

/-- The value is replaced by the placeholder. -/
def withheld (marker : WebhookMeta) (k : Name) : Bool :=
  marker.redactedFields.contains k || (!marker.allowSensitive && shouldAutoRedact k)

/-- One round of the loop. -/
def redactItem (marker : WebhookMeta) (e : Name × Value α) : Option (Name × Value α) :=
  if e.1 = "meta".toList then none
  else some (e.1, if withheld marker e.1 then REDACTED_PLACEHOLDER else e.2)

theorem mem_redactItem {marker : WebhookMeta} {items : List (Name × Value α)} {k : Name}
    {x : Value α} : (k, x) ∈ items.filterMap (redactItem marker) ↔ k ≠ "meta".toList ∧
      ∃ v, (k, v) ∈ items ∧ x = if withheld marker k then REDACTED_PLACEHOLDER else v := by
  rw [List.mem_filterMap]
  constructor
  · rintro ⟨⟨j, v⟩, hmem, h⟩
    obtain ⟨hj, h⟩ := Option.ite_none_left_eq_some.mp h
    cases h
    exact ⟨hj, v, hmem, rfl⟩
  · rintro ⟨hk, v, hmem, rfl⟩
    exact ⟨(k, v), hmem, if_neg hk⟩

/-- The keys stay distinct, so that no assignment of the loop meets an earlier one. -/
theorem nodup_redactItem (marker : WebhookMeta) {items : List (Name × Value α)}
    (h : (items.map Prod.fst).Nodup) :
    ((items.filterMap (redactItem marker)).map Prod.fst).Nodup := by
  refine h.sublist ?_
  induction items with
  | nil => exact List.Sublist.slnil
  | cons e items ih =>
    rw [List.map_cons, List.nodup_cons] at h
    by_cases he : e.1 = "meta".toList
    · have hnone : redactItem marker e = none := if_pos he
      rw [List.filterMap_cons_none hnone]
      exact (ih h.2).cons _
    · have hsome : redactItem marker e =
          some (e.1, if withheld marker e.1 then REDACTED_PLACEHOLDER else e.2) := if_neg he
      rw [List.filterMap_cons_some hsome]
      exact (ih h.2).cons_cons _

/-- `redact_payload`. -/
def redactPayload (data : Payload α) (marker : WebhookMeta) : Payload α where
  items := data.items.filterMap (redactItem marker)
  wellFormed := by
    obtain _ | _ | ⟨_, hn, hwf⟩ := data.wellFormed
    refine .dict _ (nodup_redactItem marker hn) ?_
    rintro ⟨k, x⟩ hx
    obtain ⟨-, v, hv, rfl⟩ := mem_redactItem.mp hx
    by_cases hk : withheld marker k = true
    · rw [if_pos hk]
      exact .atom _
    · rw [if_neg hk]
      exact hwf (k, v) hv

/-! ## What is to be withheld -/

/-- The names whose values are not to leave: the listed ones, and those with a sensitive end
or a sensitive word. -/
def Sensitive (marker : WebhookMeta) (k : Name) : Prop :=
  k ∈ marker.redactedFields ∨ "_enc".toList <:+ k ∨ "_token".toList <:+ k ∨
    "password".toList <:+: k ∨ "secret".toList <:+: k

def Payload.tree (data : Payload α) : Value α := .dict data.items

/-- No top-level field that is passed on has `secret` in its name, or holds a sensitive key at
any depth. -/
def Covered (marker : WebhookMeta) (data : Payload α) : Prop :=
  ∀ k v, (k, v) ∈ data.items → k ≠ "meta".toList → withheld marker k = false →
    ¬ "secret".toList <:+: k ∧ ¬ v.Holds (Sensitive marker)

theorem search_suffix {literal name : Name} (ignoreCase : Bool)
    (hfold : literal.map foldCase = literal) (h : literal <:+ name) :
    (Pattern.mk literal true ignoreCase).search name = true := by
  cases ignoreCase with
  | false => exact decide_eq_true (.inl h)
  | true =>
    have hmap := h.map foldCase
    rw [hfold] at hmap
    exact decide_eq_true (.inl hmap)

theorem search_of_within {literal name : Name} (ignoreCase : Bool)
    (hfold : literal.map foldCase = literal) (h : literal <:+: name) :
    (Pattern.mk literal false ignoreCase).search name = true := by
  cases ignoreCase with
  | false => exact decide_eq_true h
  | true =>
    have hmap := h.map foldCase
    rw [hfold] at hmap
    exact decide_eq_true hmap

/-- Of the sensitive names the rules pass on only some with `secret`. -/
theorem sensitive_iff_of_passed {marker : WebhookMeta} (hm : marker.allowSensitive = false)
    {k : Name} (h : withheld marker k = false) :
    Sensitive marker k ↔ "secret".toList <:+: k := by
  rw [withheld, hm, Bool.not_false, Bool.true_and, Bool.or_eq_false_iff] at h
  obtain ⟨hlisted, hauto⟩ := h
  have hno : ∀ p ∈ AUTO_REDACT_PATTERNS, p.search k ≠ true := by
    intro p hp hs
    exact List.any_eq_false.mp hauto p hp hs
  constructor
  · rintro (hin | hin | hin | hin | hin)
    · exact absurd (List.contains_iff_mem.mpr hin) (by rw [hlisted]; exact Bool.false_ne_true)
    · exact absurd (search_suffix false (by decide) hin) (hno _ (by simp [AUTO_REDACT_PATTERNS]))
    · exact absurd (search_suffix false (by decide) hin) (hno _ (by simp [AUTO_REDACT_PATTERNS]))
    · exact absurd (search_of_within true (by decide) hin) (hno _ (by simp [AUTO_REDACT_PATTERNS]))
    · exact hin
  · exact fun hin => .inr (.inr (.inr (.inr hin)))

/-! ## What the payload shows -/

/-- Payloads that differ only in what is under sensitive names. -/
def AgreeBut (marker : WebhookMeta) (data data' : Payload α) : Prop :=
  Tree.Agree (Sensitive marker) data.tree data'.tree

/-- What is passed on of covered payloads does not depend on sensitive values. -/
theorem redact_equal {marker : WebhookMeta} (hm : marker.allowSensitive = false)
    {data data' : Payload α} (hcovered : Covered marker data)
    (hagree : AgreeBut marker data data') :
    (redactPayload data marker).tree.Equal (redactPayload data' marker).tree := by
  obtain _ | _ | ⟨_, _, hkeys, hentries⟩ := hagree
  have hmem : ∀ (d : Payload α) (k : Name), k ∈ (redactPayload d marker).items.map Prod.fst ↔
      k ≠ "meta".toList ∧ k ∈ d.items.map Prod.fst := by
    intro d k
    simp only [List.mem_map, Prod.exists, exists_and_right, exists_eq_right]
    constructor
    · rintro ⟨x, hx⟩
      obtain ⟨hk, v, hv, -⟩ := mem_redactItem.mp hx
      exact ⟨hk, v, hv⟩
    · rintro ⟨hk, v, hv⟩
      exact ⟨_, mem_redactItem.mpr ⟨hk, v, hv, rfl⟩⟩
  refine .dict _ _ (fun k => by rw [hmem, hmem, hkeys]) fun k x y _ hx hy => ?_
  obtain ⟨hk, v, hv, rfl⟩ := mem_redactItem.mp hx
  obtain ⟨-, v', hv', rfl⟩ := mem_redactItem.mp hy
  cases hw : withheld marker k with
  | true =>
    rw [if_pos rfl, if_pos rfl]
    exact .atom _
  | false =>
    rw [if_neg Bool.false_ne_true, if_neg Bool.false_ne_true]
    obtain ⟨hname, hfree⟩ := hcovered k v hv hk hw
    have hplain : ¬ Sensitive marker k := fun h => hname ((sensitive_iff_of_passed hm hw).mp h)
    exact Tree.equal_of_agree (hentries k v v' hplain hv hv') hfree

/-- **A payload shows nothing of its sensitive values**, whatever these are, if and only if
it is covered. -/
theorem redaction_covers_iff (marker : WebhookMeta) (hm : marker.allowSensitive = false)
    (data : Payload α) :
    (∀ data', AgreeBut marker data data' →
      (redactPayload data marker).tree.Equal (redactPayload data' marker).tree) ↔
    Covered marker data := by
  constructor
  · intro hall k v hv hk hw
    -- a value that differs under the key would be seen
    have hsame : ∀ v' : Value α, v'.WellFormed →
        Sensitive marker k ∨ Tree.Agree (Sensitive marker) v v' → v.Equal v' := by
      intro v' hwf hagree
      have heq := hall ⟨_, Tree.wellFormed_assign data.wellFormed k hwf⟩
        (Tree.agree_assign data.wellFormed hv hagree)
      refine Tree.equal_entry heq (k := k) (mem_redactItem.mpr ⟨hk, v, hv, ?_⟩)
        (mem_redactItem.mpr ⟨hk, v', Tree.mem_assign hv, ?_⟩)
      · rw [hw, if_neg Bool.false_ne_true]
      · rw [hw, if_neg Bool.false_ne_true]
    constructor
    · intro hname
      exact Tree.not_equal_other v (hsame v.other (Tree.wellFormed_other v)
        (.inl ((sensitive_iff_of_passed hm hw).mpr hname)))
    · intro hholds
      have hwf : v.WellFormed := by
        obtain _ | _ | ⟨_, _, hwf⟩ := data.wellFormed
        exact hwf (k, v) hv
      obtain ⟨v', hv', hagree, hne⟩ := Tree.differs_of_holds hwf hholds
      exact hne (hsame v' hv' (.inr hagree))
  · exact fun hcovered data' hagree => redact_equal hm hcovered hagree

/-! ## Two payloads -/

def exampleText (s : String) : Value Unit := .atom (.str s)

/-- A payload with one field. -/
def exampleField (k : Name) (v : Value Unit) (hv : v.WellFormed) : Payload Unit where
  items := [(k, v)]
  wellFormed := .dict _ (List.nodup_singleton k) fun e he => by
    obtain rfl := List.mem_singleton.mp he
    exact hv

def nestedPassword (s : String) : Payload Unit :=
  exampleField "user".toList (.dict [("password".toList, exampleText s)])
    (exampleField "password".toList (exampleText s) (.atom _)).wellFormed

def clientSecretKey (s : String) : Payload Unit :=
  exampleField "client_secret_key".toList (exampleText s) (.atom _)

def accessToken (s : String) : Payload Unit :=
  exampleField "access_token".toList (exampleText s) (.atom _)

theorem agree_exampleField {p : Name → Prop} {k : Name} {v v' : Value Unit}
    (hv : v.WellFormed) (hv' : v'.WellFormed) (h : ¬ p k → Tree.Agree p v v') :
    Tree.Agree p (exampleField k v hv).tree (exampleField k v' hv').tree := by
  refine .dict _ _ (fun j => Iff.rfl) fun j x y hj hx hy => ?_
  obtain ⟨rfl, rfl⟩ := Prod.mk.inj (List.mem_singleton.mp hx)
  obtain ⟨-, rfl⟩ := Prod.mk.inj (List.mem_singleton.mp hy)
  exact h hj

/-- What is seen of a field that is passed on. -/
theorem equal_exampleField {marker : WebhookMeta} {k : Name} {v v' : Value Unit}
    (hv : v.WellFormed) (hv' : v'.WellFormed) (hk : k ≠ "meta".toList)
    (hw : withheld marker k = false)
    (h : (redactPayload (exampleField k v hv) marker).tree.Equal
      (redactPayload (exampleField k v' hv') marker).tree) : v.Equal v' := by
  refine Tree.equal_entry h (k := k) (mem_redactItem.mpr ⟨hk, v, List.mem_singleton.mpr rfl, ?_⟩)
    (mem_redactItem.mpr ⟨hk, v', List.mem_singleton.mpr rfl, ?_⟩)
  · rw [hw, if_neg Bool.false_ne_true]
  · rw [hw, if_neg Bool.false_ne_true]

theorem redaction_covers_iff_token :
    (redactPayload (accessToken "a") {}).tree.Equal (redactPayload (accessToken "b") {}).tree := by
  refine (redaction_covers_iff {} rfl (accessToken "a")).mpr ?_ (accessToken "b")
    (agree_exampleField _ _ fun hplain => absurd (.inr (.inr (.inl ?_))) hplain)
  · intro k v hv _ hw
    obtain ⟨rfl, -⟩ := Prod.mk.inj (List.mem_singleton.mp hv)
    exact absurd hw (by decide +kernel)
  · decide +kernel

/-- A password one level down, and a secret whose name goes on after `secret`, leave as they
are. -/
theorem passed_on_unredacted :
    (AgreeBut {} (nestedPassword "a") (nestedPassword "b") ∧
      ¬ (redactPayload (nestedPassword "a") {}).tree.Equal
        (redactPayload (nestedPassword "b") {}).tree) ∧
    AgreeBut {} (clientSecretKey "a") (clientSecretKey "b") ∧
      ¬ (redactPayload (clientSecretKey "a") {}).tree.Equal
        (redactPayload (clientSecretKey "b") {}).tree := by
  have hne : ¬ (exampleText "a").Equal (exampleText "b") :=
    fun h => absurd (Scalar.str.inj (Tree.eq_of_equal_atom h)) (by decide)
  refine ⟨⟨agree_exampleField _ _ fun _ => ?_, fun h => ?_⟩,
    agree_exampleField _ _ fun hplain => ?_, fun h => ?_⟩
  · exact agree_exampleField (.atom _) (.atom _) fun hplain =>
      absurd (.inr (.inr (.inr (.inl (by decide +kernel))))) hplain
  · have huser := equal_exampleField _ _ (by decide +kernel) (by decide +kernel) h
    exact hne (Tree.equal_entry huser (List.mem_singleton.mpr rfl) (List.mem_singleton.mpr rfl))
  · exact absurd (.inr (.inr (.inr (.inr (by decide +kernel))))) hplain
  · exact hne (equal_exampleField _ _ (by decide +kernel) (by decide +kernel) h)

end WebhookEngine.Subscriptions.Redaction
