import WebhookEngine.Lib.Search
import WebhookEngine.Lib.Table
import WebhookEngine.Subscriptions.Fanout

/-!
# The event catalog

`WebhookEventRegistry.discover` of `registry.py`: a walk over the subclasses of some roots, with
one set of seen classes for all of them. The recursion of `walk` has fuel, which stands for the
recursion limit; the classes may inherit from each other in any way.

* `walks_eq`: a walk enters the classes that a depth-first search finds, in its order;
* `discover_spec`: every listed class has one entry, or two of them share a name.
-/

namespace WebhookEngine.EventRegistry

open Lib Search Relation
open Subscriptions.Fanout (WebhookMeta)

/-- Finitely many classes. -/
structure Hierarchy (C : Type*) where
  /-- `cls.__subclasses__()`. -/
  subclasses : C → List C
  /-- `getattr(cls, "abortable", False)`. -/
  abortable : C → Bool
  /-- `cls.__dict__.get("webhook_meta")`, if it is a `WebhookMeta`. -/
  ownMeta : C → Option WebhookMeta
  qualname : C → String
  classes : Finset C
  closed : ∀ cls, ∀ sub ∈ subclasses cls, sub ∈ classes

structure WebhookEventEntry (C : Type*) where
  eventCls : C
  marker : WebhookMeta

structure WebhookCatalog (C : Type*) where
  entries : List (WebhookEventEntry C)

def WebhookCatalog.names {C : Type*} (catalog : WebhookCatalog C) : List String :=
  catalog.entries.map (·.marker.name)

/-- What `discover` raises. -/
inductive Raised where
  | recursionError
  | webhookEventCollision (name a b : String)
  deriving DecidableEq, Repr

/-- `seen`, `entries` and `by_name` of `discover`. -/
structure Scan (C : Type*) where
  seen : List C := []
  entries : List (WebhookEventEntry C) := []
  byName : Dict String String := .empty

variable {C : Type*} [DecidableEq C] (h : Hierarchy C)

/-- One `sub` of the loop in `walk`. -/
def visitSub (walk : Scan C → C → Except Raised (Scan C)) (s : Scan C) (sub : C) :
    Except Raised (Scan C) :=
  if sub ∈ s.seen then .ok s
  else
    let s := { s with seen := s.seen ++ [sub] }
    if h.abortable sub then walk s sub
    else
      match h.ownMeta sub with
      | none => walk s sub
      | some marker =>
        match s.byName.find? marker.name with
        | some existing =>
          .error (.webhookEventCollision marker.name existing.2 (h.qualname sub))
        | none =>
          walk
            { s with
              byName := s.byName.put (marker.name, h.qualname sub)
              entries := s.entries ++ [⟨sub, marker⟩] } sub

def walk : Nat → Scan C → C → Except Raised (Scan C)
  | 0, _, _ => .error .recursionError
  | fuel + 1, s, cls => (h.subclasses cls).foldlM (visitSub h (walk fuel)) s

def discover (fuel : Nat) (roots : List C) : Except Raised (WebhookCatalog C) := do
  let s ← roots.foldlM (walk h fuel) {}
  return { entries := s.entries }

/-! ## The walk as a search -/

/-- What the loop does with a new class before it walks on. -/
def enter (s : Scan C) (sub : C) : Except Raised (Scan C) :=
  let s := { s with seen := s.seen ++ [sub] }
  if h.abortable sub then .ok s
  else
    match h.ownMeta sub with
    | none => .ok s
    | some marker =>
      match s.byName.find? marker.name with
      | some existing => .error (.webhookEventCollision marker.name existing.2 (h.qualname sub))
      | none =>
        .ok
          { s with
            byName := s.byName.put (marker.name, h.qualname sub)
            entries := s.entries ++ [⟨sub, marker⟩] }

/-- The entry of a class that is not abortable and has its own marker. -/
def listed (sub : C) : Option (WebhookEventEntry C) :=
  if h.abortable sub then none else (h.ownMeta sub).map fun marker => ⟨sub, marker⟩

variable {h}

omit [DecidableEq C] in
theorem enter_unlisted {s : Scan C} {sub : C} (hlist : listed h sub = none) :
    enter h s sub = .ok { s with seen := s.seen ++ [sub] } := by
  rw [enter]
  by_cases habort : h.abortable sub = true
  · exact if_pos habort
  · rw [listed, if_neg habort, Option.map_eq_none_iff] at hlist
    simp only [if_neg habort, hlist]

omit [DecidableEq C] in
theorem enter_eq {s : Scan C} {sub : C} {e : WebhookEventEntry C} (hlist : listed h sub = some e) :
    enter h s sub =
      match s.byName.find? e.marker.name with
      | some existing => .error (.webhookEventCollision e.marker.name existing.2 (h.qualname sub))
      | none =>
        .ok
          { seen := s.seen ++ [sub]
            byName := s.byName.put (e.marker.name, h.qualname sub)
            entries := s.entries ++ [e] } := by
  rw [listed] at hlist
  split at hlist
  case isTrue => cases hlist
  case isFalse habort =>
    obtain ⟨marker, hmarker, rfl⟩ := Option.map_eq_some_iff.mp hlist
    simp only [enter, if_neg habort, hmarker]

omit [DecidableEq C] in
theorem enter_collides {s : Scan C} {sub : C} {e : WebhookEventEntry C}
    {existing : String × String} (hlist : listed h sub = some e)
    (hname : s.byName.find? e.marker.name = some existing) :
    enter h s sub =
      .error (.webhookEventCollision e.marker.name existing.2 (h.qualname sub)) := by
  rw [enter_eq hlist, hname]

omit [DecidableEq C] in
theorem enter_listed {s : Scan C} {sub : C} {e : WebhookEventEntry C}
    (hlist : listed h sub = some e) (hname : s.byName.find? e.marker.name = none) :
    enter h s sub =
      .ok
        { seen := s.seen ++ [sub]
          byName := s.byName.put (e.marker.name, h.qualname sub)
          entries := s.entries ++ [e] } := by
  rw [enter_eq hlist, hname]

theorem visitSub_seen {walk : Scan C → C → Except Raised (Scan C)} {s : Scan C} {sub : C}
    (hsub : sub ∈ s.seen) : visitSub h walk s sub = .ok s := if_pos hsub

theorem visitSub_new {walk : Scan C → C → Except Raised (Scan C)} {s : Scan C} {sub : C}
    (hsub : sub ∉ s.seen) :
    visitSub h walk s sub = (enter h s sub).bind fun s' => walk s' sub := by
  rw [visitSub, if_neg hsub, enter]
  by_cases habort : h.abortable sub = true
  · simp only [if_pos habort]
    rfl
  · simp only [if_neg habort]
    cases h.ownMeta sub with
    | none => rfl
    | some marker =>
      simp only
      cases s.byName.find? marker.name with
      | none => rfl
      | some existing => rfl

omit [DecidableEq C] in
theorem seen_enter {s s' : Scan C} {sub : C} (henter : enter h s sub = .ok s') :
    s'.seen = s.seen ++ [sub] := by
  cases hlist : listed h sub with
  | none =>
    rw [enter_unlisted hlist] at henter
    cases henter
    rfl
  | some e =>
    cases hname : s.byName.find? e.marker.name with
    | some existing =>
      rw [enter_collides hlist hname] at henter
      cases henter
    | none =>
      rw [enter_listed hlist hname] at henter
      cases henter
      rfl

omit [DecidableEq C] in
theorem seen_enters {new : List C} {s s' : Scan C} (henter : new.foldlM (enter h) s = .ok s') :
    s'.seen = s.seen ++ new := by
  induction new generalizing s with
  | nil =>
    cases henter
    exact (List.append_nil _).symm
  | cons sub new ih =>
    rw [List.foldlM_cons] at henter
    cases hsub : enter h s sub with
    | error e =>
      rw [hsub] at henter
      cases henter
    | ok s₁ =>
      rw [hsub] at henter
      rw [ih henter, seen_enter hsub, List.append_assoc, List.singleton_append]

/-- A walk enters the classes that the search finds, in its order. -/
theorem walks_eq {fuel : Nat} {seen todo seen' : List C}
    (hsearch : searchAll h.subclasses fuel seen todo = some seen') :
    ∃ new, seen' = seen ++ new ∧ ∀ s : Scan C, s.seen = seen →
      todo.foldlM (visitSub h (walk h fuel)) s = new.foldlM (enter h) s := by
  refine searchAll_induction
    (P := fun fuel seen todo seen' => ∃ new, seen' = seen ++ new ∧ ∀ s : Scan C, s.seen = seen →
      todo.foldlM (visitSub h (walk h fuel)) s = new.foldlM (enter h) s) ?_ ?_ ?_ hsearch
  · intro fuel seen
    exact ⟨[], (List.append_nil _).symm, fun _ _ => rfl⟩
  · rintro fuel seen todo seen' sub hsub ⟨new, hnew, hwalk⟩
    refine ⟨new, hnew, fun s hs => ?_⟩
    rw [List.foldlM_cons, visitSub_seen (hs ▸ hsub)]
    exact hwalk s hs
  · rintro fuel seen todo seen₁ seen₂ sub hsub ⟨new₁, hnew₁, hwalk₁⟩ ⟨new₂, hnew₂, hwalk₂⟩
    refine ⟨sub :: new₁ ++ new₂, by simp [hnew₂, hnew₁], fun s hs => ?_⟩
    rw [List.foldlM_cons, visitSub_new (hs ▸ hsub), List.cons_append, List.foldlM_cons]
    -- an error ends both; otherwise what has been seen is what the search has seen
    cases henter : enter h s sub with
    | error e => rfl
    | ok s₁ =>
      have hs₁ : s₁.seen = seen ++ [sub] := by rw [seen_enter henter, hs]
      have hnested : walk h (fuel + 1) s₁ sub = new₁.foldlM (enter h) s₁ := hwalk₁ s₁ hs₁
      change (walk h (fuel + 1) s₁ sub >>= fun s => todo.foldlM _ s) =
        (new₁ ++ new₂).foldlM (enter h) s₁
      rw [List.foldlM_append, hnested]
      cases henters : new₁.foldlM (enter h) s₁ with
      | error e => rfl
      | ok s₂ =>
        have hs₂ : s₂.seen = seen₁ := by rw [seen_enters henters, hs₁, hnew₁]
        exact hwalk₂ s₂ hs₂

/-- All roots, one after the other. -/
theorem walk_roots (fuel : Nat) (roots : List C) (s : Scan C) :
    roots.foldlM (walk h (fuel + 1)) s =
      (roots.flatMap h.subclasses).foldlM (visitSub h (walk h fuel)) s := by
  induction roots generalizing s with
  | nil => rfl
  | cons root roots ih =>
    rw [List.foldlM_cons, List.flatMap_cons, List.foldlM_append, walk]
    exact bind_congr fun s' => ih s'

/-! ## Names -/

/-- `by_name` has the names of the entries, each with the class of its entry. -/
def Indexed (h : Hierarchy C) (s : Scan C) : Prop :=
  ∀ name, s.byName.find? name =
    (s.entries.find? fun e => e.marker.name = name).map fun e => (name, h.qualname e.eventCls)

omit [DecidableEq C] in
theorem listed_eventCls {sub : C} {e : WebhookEventEntry C} (hlist : listed h sub = some e) :
    e.eventCls = sub := by
  rw [listed] at hlist
  split at hlist
  · cases hlist
  · obtain ⟨marker, -, rfl⟩ := Option.map_eq_some_iff.mp hlist
    rfl

omit [DecidableEq C] in
theorem indexed_listed {s : Scan C} (hs : Indexed h s) {sub : C} {e : WebhookEventEntry C}
    (hlist : listed h sub = some e) (hname : s.byName.find? e.marker.name = none) :
    Indexed h
      { seen := s.seen ++ [sub]
        byName := s.byName.put (e.marker.name, h.qualname sub)
        entries := s.entries ++ [e] } := by
  intro name
  simp only [Table.find?_put, List.find?_append, List.find?_singleton]
  by_cases hn : e.marker.name = name
  · rw [if_pos hn, ← hn]
    have hnone := hs e.marker.name
    rw [hname, eq_comm, Option.map_eq_none_iff] at hnone
    simp [hnone, listed_eventCls hlist]
  · rw [if_neg hn, hs name]
    simp [hn]

/-- Two entries, in this order, with one name. -/
def Shares (entries : List (WebhookEventEntry C)) (e e' : WebhookEventEntry C) : Prop :=
  [e, e'].Sublist entries ∧ e.marker.name = e'.marker.name

omit [DecidableEq C] in
/-- A taken name is the name of an entry. -/
theorem entry_of_byName {s : Scan C} (hs : Indexed h s) {name : String}
    {existing : String × String} (hname : s.byName.find? name = some existing) :
    ∃ e ∈ s.entries, e.marker.name = name ∧ existing.2 = h.qualname e.eventCls := by
  rw [hs name] at hname
  obtain ⟨e, hfind, rfl⟩ := Option.map_eq_some_iff.mp hname
  exact ⟨e, List.mem_of_find?_eq_some hfind, by simpa using List.find?_some hfind, rfl⟩

omit [DecidableEq C] in
theorem nodup_names_append {s : Scan C} (hs : Indexed h s)
    (hn : (s.entries.map (·.marker.name)).Nodup) {e : WebhookEventEntry C}
    (hname : s.byName.find? e.marker.name = none) :
    ((s.entries ++ [e]).map (·.marker.name)).Nodup := by
  rw [hs, Option.map_eq_none_iff, List.find?_eq_none] at hname
  rw [List.map_append, List.nodup_append]
  refine ⟨hn, List.nodup_singleton _, fun a ha b hb => ?_⟩
  obtain ⟨e', he', rfl⟩ := List.mem_map.mp ha
  rw [List.mem_singleton.mp hb]
  simpa using hname e' he'

omit [DecidableEq C] in
/-- The classes are entered until one has a name that is taken. -/
theorem enters_spec (cs : List C) {s : Scan C} (hs : Indexed h s)
    (hn : (s.entries.map (·.marker.name)).Nodup) :
    (∃ s', cs.foldlM (enter h) s = .ok s' ∧
      s'.entries = s.entries ++ cs.filterMap (listed h) ∧
      (s'.entries.map (·.marker.name)).Nodup) ∨
    ∃ e e', Shares (s.entries ++ cs.filterMap (listed h)) e e' ∧
      cs.foldlM (enter h) s = .error (.webhookEventCollision e.marker.name
        (h.qualname e.eventCls) (h.qualname e'.eventCls)) := by
  induction cs generalizing s with
  | nil => exact Or.inl ⟨s, rfl, (List.append_nil _).symm, hn⟩
  | cons c cs ih =>
    rw [List.foldlM_cons]
    cases hlist : listed h c with
    | none =>
      rw [List.filterMap_cons_none hlist, enter_unlisted hlist]
      have hs₁ : Indexed h { s with seen := s.seen ++ [c] } := hs
      exact ih hs₁ hn
    | some e =>
      rw [List.filterMap_cons_some hlist]
      cases hname : s.byName.find? e.marker.name with
      | none =>
        rw [enter_listed hlist hname]
        have hrest := ih (indexed_listed hs hlist hname) (nodup_names_append hs hn hname)
        simp only [List.append_assoc, List.singleton_append] at hrest
        exact hrest
      | some existing =>
        rw [enter_collides hlist hname]
        obtain ⟨e₀, he₀, hshared, hexisting⟩ := entry_of_byName hs hname
        refine Or.inr ⟨e₀, e, ⟨?_, hshared⟩, ?_⟩
        · exact (List.singleton_sublist.mpr he₀).append
            (List.singleton_sublist.mpr List.mem_cons_self)
        · rw [hshared, listed_eventCls hlist, ← hexisting]
          rfl

/-! ## The result -/

/-- A proper descendant of a root, not abortable, with the marker of its own that the entry has. -/
structure Listed (h : Hierarchy C) (roots : List C) (e : WebhookEventEntry C) : Prop where
  descends : ∃ root ∈ roots, TransGen (fun cls sub => sub ∈ h.subclasses cls) root e.eventCls
  notAbortable : h.abortable e.eventCls = false
  ownMeta : h.ownMeta e.eventCls = some e.marker

/-- No two distinct classes share a name. -/
def NamesDistinct (h : Hierarchy C) (roots : List C) : Prop :=
  ∀ e e', Listed h roots e → Listed h roots e' → e.marker.name = e'.marker.name →
    e.eventCls = e'.eventCls

omit [DecidableEq C] in
theorem listed_eq_some {c : C} {e : WebhookEventEntry C} :
    listed h c = some e ↔
      e.eventCls = c ∧ h.abortable c = false ∧ h.ownMeta c = some e.marker := by
  constructor
  · intro hlist
    refine ⟨listed_eventCls hlist, ?_⟩
    rw [listed] at hlist
    split at hlist
    case isTrue => cases hlist
    case isFalse habort =>
      obtain ⟨marker, hmarker, rfl⟩ := Option.map_eq_some_iff.mp hlist
      exact ⟨Bool.eq_false_iff.mpr habort, hmarker⟩
  · rintro ⟨rfl, habort, hmarker⟩
    rw [listed, habort, hmarker]
    rfl

/-- The classes that are found, with the entries that they have. -/
theorem mem_listed_iff {fuel : Nat} {roots seen : List C}
    (hsearch : searchAll h.subclasses fuel [] (roots.flatMap h.subclasses) = some seen)
    (e : WebhookEventEntry C) : e ∈ seen.filterMap (listed h) ↔ Listed h roots e := by
  have hfound := mem_search_iff hsearch e.eventCls
  rw [List.mem_filterMap]
  constructor
  · rintro ⟨c, hc, hlist⟩
    obtain ⟨rfl, habort, hmarker⟩ := listed_eq_some.mp hlist
    obtain ⟨sub, hsub, hreach⟩ := hfound.mp hc
    obtain ⟨root, hroot, hstep⟩ := List.mem_flatMap.mp hsub
    exact ⟨⟨root, hroot, .head' hstep hreach⟩, habort, hmarker⟩
  · rintro ⟨⟨root, hroot, hpath⟩, habort, hmarker⟩
    obtain ⟨sub, hstep, hreach⟩ := TransGen.head'_iff.mp hpath
    exact ⟨e.eventCls, hfound.mpr ⟨sub, List.mem_flatMap.mpr ⟨root, hroot, hstep⟩, hreach⟩,
      listed_eq_some.mpr ⟨rfl, habort, hmarker⟩⟩

omit [DecidableEq C] in
theorem nodup_listed {seen : List C} (hn : seen.Nodup) :
    ((seen.filterMap (listed h)).map (·.eventCls)).Nodup := by
  rw [List.map_filterMap]
  refine hn.filterMap fun c c' cls hc hc' => ?_
  obtain ⟨e, he, rfl⟩ := Option.map_eq_some_iff.mp hc
  obtain ⟨e', he', heq⟩ := Option.map_eq_some_iff.mp hc'
  rw [← listed_eventCls he, ← listed_eventCls he', heq]

omit [DecidableEq C] in
theorem ne_of_shares {entries : List (WebhookEventEntry C)} {e e' : WebhookEventEntry C}
    (hn : (entries.map (·.eventCls)).Nodup) (hs : Shares entries e e') :
    e.eventCls ≠ e'.eventCls := by
  have hpair : [e.eventCls, e'.eventCls].Nodup := hn.sublist (hs.1.map _)
  simpa using hpair

/-- With fuel for every class, the walk ends: in a catalog of all the classes listed, each once,
or, if two of them share a name, in a collision that names two such. -/
theorem discover_spec (h : Hierarchy C) (roots : List C) (extra : Nat) :
    let result := discover h (h.classes.card + extra + 1) roots
    (NamesDistinct h roots → ∃ catalog, result = .ok catalog ∧
      (catalog.entries.map (·.eventCls)).Nodup ∧ catalog.names.Nodup ∧
      ∀ e, e ∈ catalog.entries ↔ Listed h roots e) ∧
    (¬ NamesDistinct h roots → ∃ e e', Listed h roots e ∧ Listed h roots e' ∧
      e.eventCls ≠ e'.eventCls ∧ e.marker.name = e'.marker.name ∧
      result = .error (.webhookEventCollision e.marker.name (h.qualname e.eventCls)
        (h.qualname e'.eventCls))) := by
  intro result
  have hsubs : ∀ sub ∈ roots.flatMap h.subclasses, sub ∈ h.classes := by
    intro sub hsub
    obtain ⟨root, -, hsub⟩ := List.mem_flatMap.mp hsub
    exact h.closed root sub hsub
  have hfuel : (unseen h.classes []).card ≤ h.classes.card + extra :=
    (Finset.card_filter_le _ _).trans (Nat.le_add_right _ _)
  obtain ⟨seen, hsearch⟩ := search_isSome h.closed hsubs hfuel
  obtain ⟨new, hnew, hwalk⟩ := walks_eq hsearch
  rw [List.nil_append] at hnew
  subst hnew
  have hclasses : ((seen.filterMap (listed h)).map (·.eventCls)).Nodup :=
    nodup_listed ((found_of_search hsearch).nodup List.nodup_nil)
  have hresult : result = (seen.foldlM (enter h) {}).map fun s => { entries := s.entries } := by
    rw [← hwalk {} rfl, ← walk_roots]
    rfl
  have hempty : Indexed h {} := fun _ => rfl
  rcases enters_spec seen hempty List.nodup_nil with ⟨s, hs, hentries, hnames⟩ | ⟨e, e', hshare, hs⟩
  · rw [List.nil_append] at hentries
    rw [hentries] at hnames
    rw [hs] at hresult
    refine ⟨fun _ => ⟨{ entries := s.entries }, hresult, ?_⟩, fun hshared => ?_⟩
    · rw [hentries]
      exact ⟨hclasses, hnames, mem_listed_iff hsearch⟩
    · refine absurd (fun e e' he he' hname => ?_) hshared
      have hsame := List.inj_on_of_nodup_map hnames ((mem_listed_iff hsearch e).mpr he)
        ((mem_listed_iff hsearch e').mpr he') hname
      rw [hsame]
  · rw [List.nil_append] at hshare
    rw [hs] at hresult
    have he := (mem_listed_iff hsearch e).mp (hshare.1.subset List.mem_cons_self)
    have he' := (mem_listed_iff hsearch e').mp
      (hshare.1.subset (List.mem_cons_of_mem _ (List.mem_singleton_self e')))
    have hne := ne_of_shares hclasses hshare
    exact ⟨fun hdistinct => absurd (hdistinct e e' he he' hshare.2) hne,
      fun _ => ⟨e, e', he, he', hne, hshare.2, hresult⟩⟩

/-! ## A diamond -/

inductive ExampleClass where
  | baseEvent
  | mutableBaseEvent
  | orderEvent
  | beforeOrder
  | orderPaid
  | orderClosed
  deriving DecidableEq, Repr

/-- One root under the other, an abortable class with a marker, and a class below both it and a
class that is not abortable. -/
def exampleHierarchy : Hierarchy ExampleClass where
  subclasses
    | .baseEvent => [.mutableBaseEvent, .orderEvent]
    | .mutableBaseEvent => [.beforeOrder]
    | .orderEvent => [.orderPaid]
    | .beforeOrder => [.orderPaid, .orderClosed]
    | .orderPaid | .orderClosed => []
  abortable cls := cls = .beforeOrder
  ownMeta
    | .beforeOrder => some { name := "order.paid" }
    | .orderPaid => some { name := "order.paid" }
    | .orderClosed => some { name := "order.closed" }
    | _ => none
  qualname cls := reprStr cls
  classes := {.mutableBaseEvent, .orderEvent, .beforeOrder, .orderPaid, .orderClosed}
  closed cls := by cases cls <;> decide

theorem namesDistinct_example :
    NamesDistinct exampleHierarchy [.baseEvent, .mutableBaseEvent] := by
  rintro ⟨cls, marker⟩ ⟨cls', marker'⟩ ⟨-, habort, hmarker⟩ ⟨-, habort', hmarker'⟩ hname
  -- the two classes that are listed have different names
  have hlisted : ∀ {cls : ExampleClass} {marker : WebhookMeta},
      exampleHierarchy.abortable cls = false → exampleHierarchy.ownMeta cls = some marker →
      cls = .orderPaid ∧ marker.name = "order.paid" ∨
        cls = .orderClosed ∧ marker.name = "order.closed" := by
    intro cls marker habort hmarker
    cases cls with
    | beforeOrder => cases habort
    | orderPaid =>
      cases hmarker
      exact .inl ⟨rfl, rfl⟩
    | orderClosed =>
      cases hmarker
      exact .inr ⟨rfl, rfl⟩
    | _ => cases hmarker
  simp only at hname
  rcases hlisted habort hmarker with ⟨rfl, hpaid⟩ | ⟨rfl, hclosed⟩
  · rcases hlisted habort' hmarker' with ⟨rfl, -⟩ | ⟨-, hclosed'⟩
    · rfl
    · rw [hpaid, hclosed'] at hname
      exact absurd hname (by decide)
  · rcases hlisted habort' hmarker' with ⟨-, hpaid'⟩ | ⟨rfl, -⟩
    · rw [hclosed, hpaid'] at hname
      exact absurd hname (by decide)
    · rfl

theorem discover_spec_diamond : ∃ catalog,
    discover exampleHierarchy 6 [.baseEvent, .mutableBaseEvent] = .ok catalog ∧
      catalog.names = ["order.paid", "order.closed"] ∧ catalog.names.Nodup ∧
      ∀ e, e ∈ catalog.entries ↔ Listed exampleHierarchy [.baseEvent, .mutableBaseEvent] e := by
  obtain ⟨catalog, hcatalog, -, hnames, hlisted⟩ :=
    (discover_spec exampleHierarchy [.baseEvent, .mutableBaseEvent] 0).1 namesDistinct_example
  have hsix : discover exampleHierarchy 6 [.baseEvent, .mutableBaseEvent] = .ok catalog := hcatalog
  have hvalue : (discover exampleHierarchy 6 [.baseEvent, .mutableBaseEvent]).map
      WebhookCatalog.names = .ok ["order.paid", "order.closed"] := by decide +kernel
  rw [hsix] at hvalue
  exact ⟨catalog, hsix, Except.ok.inj hvalue, hnames, hlisted⟩

end WebhookEngine.EventRegistry
