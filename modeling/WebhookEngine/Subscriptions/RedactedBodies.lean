import WebhookEngine.Payloads
import WebhookEngine.Subscriptions.Fanout
import WebhookEngine.Subscriptions.Redaction

/-!
# What a redacted payload tells

`WebhookFanoutHandler.handle` writes the redacted payload with sorted keys, so that the records it
enqueues depend on nothing but the values that redaction passes on.

* `readable_toJson`: a payload can be written, and read again;
* `handle_eq_iff`: two events lead to the same records if and only if the values that are
  passed on are equal.
-/

namespace WebhookEngine.Subscriptions.RedactedBodies

open Lib Lib.Json Redaction

variable {α : Type}

/-- A name as a key of `json`. -/
def keyOf (name : Name) : Str := name.map Char.toNat

mutual

/-- The JSON of a payload; `render` is that of the scalars which are not `str`, after `default`. -/
def toJson (render : α → Json.Value) : Redaction.Value α → Json.Value
  | .atom (.str s) => .atom (.str (ofString s))
  | .atom (.other a) => render a
  | .list xs => .list (toJsonList render xs)
  | .dict items => .dict (toJsonItems render items)

def toJsonList (render : α → Json.Value) : List (Redaction.Value α) → List Json.Value
  | [] => []
  | x :: xs => toJson render x :: toJsonList render xs

def toJsonItems (render : α → Json.Value) :
    List (Name × Redaction.Value α) → List (Str × Json.Value)
  | [] => []
  | (k, x) :: items => (keyOf k, toJson render x) :: toJsonItems render items

end

variable (render : α → Json.Value)

/-- `json.dumps(redacted, separators=(",", ":"), sort_keys=True, default=..).encode()`. -/
def redactedJson (marker : Redaction.WebhookMeta) (data : Payload α) : Bytes :=
  encode (dumps (toJson render (redactPayload data marker).tree))

/-- The values that redaction passes on are equal. -/
structure SameShown (marker : Redaction.WebhookMeta) (data data' : Payload α) : Prop where
  keys : ∀ k, k ≠ "meta".toList →
    (k ∈ data.items.map Prod.fst ↔ k ∈ data'.items.map Prod.fst)
  values : ∀ k x y, k ≠ "meta".toList → withheld marker k = false → (k, x) ∈ data.items →
    (k, y) ∈ data'.items → (toJson render x).Equal (toJson render y)

variable {render}

theorem keyOf_inj {k k' : Name} (h : keyOf k = keyOf k') : k = k' := by
  have hchar : Function.Injective Char.toNat := fun _ _ => Char.toNat_inj.mp
  exact List.map_injective_iff.mpr hchar h

theorem isText_keyOf (k : Name) : IsText (keyOf k) := by
  have htext := Payloads.isText_ofString (String.ofList k)
  rwa [ofString, String.toList_ofList] at htext

theorem toJsonList_eq_map (xs : List (Redaction.Value α)) :
    toJsonList render xs = xs.map (toJson render) := by
  induction xs with
  | nil => rfl
  | cons x xs ih => rw [toJsonList, ih, List.map_cons]

theorem toJsonItems_eq_map (items : List (Name × Redaction.Value α)) :
    toJsonItems render items = items.map fun e => (keyOf e.1, toJson render e.2) := by
  induction items with
  | nil => rfl
  | cons e items ih => rw [toJsonItems, ih, List.map_cons]

theorem mem_toJsonItems {items : List (Name × Redaction.Value α)} {k : Name} {y : Json.Value} :
    (keyOf k, y) ∈ toJsonItems render items ↔ ∃ x, (k, x) ∈ items ∧ toJson render x = y := by
  rw [toJsonItems_eq_map, List.mem_map]
  constructor
  · rintro ⟨⟨k', x⟩, hx, he⟩
    obtain ⟨hk, rfl⟩ := Prod.mk.inj he
    cases keyOf_inj hk
    exact ⟨x, hx, rfl⟩
  · rintro ⟨x, hx, rfl⟩
    exact ⟨(k, x), hx, rfl⟩

theorem keys_toJsonItems (items : List (Name × Redaction.Value α)) :
    (toJsonItems render items).map Prod.fst = (items.map Prod.fst).map keyOf := by
  rw [toJsonItems_eq_map, List.map_map, List.map_map]
  rfl

/-- A payload can be written, and read again. -/
theorem readable_toJson {floats : Floats} (hrender : ∀ a, Readable floats (render a))
    {v : Redaction.Value α} (h : v.WellFormed) : Readable floats (toJson render v) := by
  induction h with
  | atom a =>
    cases a with
    | str s => exact .atom _ (Payloads.isText_ofString s)
    | other a => exact hrender a
  | list xs h ih =>
    refine .list _ fun y hy => ?_
    rw [toJsonList_eq_map] at hy
    obtain ⟨x, hx, rfl⟩ := List.mem_map.mp hy
    exact ih x hx
  | dict items hn h ih =>
    refine .dict _ ?_ ?_ ?_
    · rw [keys_toJsonItems]
      exact hn.map fun _ _ => keyOf_inj
    · intro e he
      rw [toJsonItems_eq_map] at he
      obtain ⟨x, -, rfl⟩ := List.mem_map.mp he
      exact isText_keyOf x.1
    · intro e he
      rw [toJsonItems_eq_map] at he
      obtain ⟨x, hx, rfl⟩ := List.mem_map.mp he
      exact ih x hx

/-- Redacted payloads are equal if and only if what is passed on is. -/
theorem equal_redacted_iff {marker : Redaction.WebhookMeta} {data data' : Payload α} :
    (toJson render (redactPayload data marker).tree).Equal
        (toJson render (redactPayload data' marker).tree) ↔ SameShown render marker data data' := by
  have hkey : ∀ (d : Payload α) k, k ≠ "meta".toList →
      (keyOf k ∈ (toJsonItems render (redactPayload d marker).items).map Prod.fst ↔
        k ∈ d.items.map Prod.fst) := by
    intro d k hk
    rw [keys_toJsonItems, List.mem_map_of_injective fun _ _ => keyOf_inj]
    constructor
    · intro hmem
      obtain ⟨⟨k', x⟩, hx, rfl⟩ := List.mem_map.mp hmem
      obtain ⟨-, v, hv, -⟩ := mem_redactItem.mp hx
      exact List.mem_map.mpr ⟨_, hv, rfl⟩
    · intro hmem
      obtain ⟨⟨k', v⟩, hv, rfl⟩ := List.mem_map.mp hmem
      exact List.mem_map.mpr ⟨_, mem_redactItem.mpr ⟨hk, v, hv, rfl⟩, rfl⟩
  have hmeta : ∀ (d : Payload α) s,
      s ∈ (toJsonItems render (redactPayload d marker).items).map Prod.fst →
        ∃ k, k ≠ "meta".toList ∧ s = keyOf k := by
    intro d s hs
    rw [keys_toJsonItems, List.map_map] at hs
    obtain ⟨⟨k, x⟩, hx, rfl⟩ := List.mem_map.mp hs
    exact ⟨k, (mem_redactItem.mp hx).1, rfl⟩
  constructor
  · intro h
    obtain _ | _ | ⟨_, _, hkeys, hentries⟩ := h
    refine ⟨fun k hk => ?_, fun k x y hk hshown hx hy => ?_⟩
    · rw [← hkey data k hk, ← hkey data' k hk]
      exact hkeys (keyOf k)
    · refine hentries (keyOf k) _ _ not_false (mem_toJsonItems.mpr ⟨x, ?_, rfl⟩)
        (mem_toJsonItems.mpr ⟨y, ?_, rfl⟩)
      · exact mem_redactItem.mpr ⟨hk, x, hx, by rw [hshown]; rfl⟩
      · exact mem_redactItem.mpr ⟨hk, y, hy, by rw [hshown]; rfl⟩
  · intro h
    refine .dict _ _ (fun s => ?_) fun s x y _ hx hy => ?_
    · constructor
      · intro hs
        obtain ⟨k, hk, rfl⟩ := hmeta data s hs
        exact (hkey data' k hk).mpr ((h.keys k hk).mp ((hkey data k hk).mp hs))
      · intro hs
        obtain ⟨k, hk, rfl⟩ := hmeta data' s hs
        exact (hkey data k hk).mpr ((h.keys k hk).mpr ((hkey data' k hk).mp hs))
    · obtain ⟨k, hk, rfl⟩ := hmeta data s (List.mem_map_of_mem hx)
      obtain ⟨x', hx', rfl⟩ := mem_toJsonItems.mp hx
      obtain ⟨y', hy', rfl⟩ := mem_toJsonItems.mp hy
      obtain ⟨-, v, hv, rfl⟩ := mem_redactItem.mp hx'
      obtain ⟨-, v', hv', rfl⟩ := mem_redactItem.mp hy'
      cases hshown : withheld marker k with
      | true => exact .atom _
      | false => exact h.values k v v' hk hshown hv hv'

/-- **Two events lead to the same records if and only if the values that are passed on are
equal**: what is withheld leaves no trace in what is enqueued, and nothing else is lost. -/
theorem handle_eq_iff (render : α → Json.Value) (floats : Floats)
    (hrender : ∀ a, Readable floats (render a)) (redaction : Redaction.WebhookMeta)
    (marker : Fanout.WebhookMeta) (reader : Fanout.Reader) (event : Fanout.BaseEvent)
    (now : Datetime) (uuid : Nat → DeliveryId) (data data' : Payload α)
    (hsubs : reader marker.name (Fanout.tenantId marker event) ≠ []) :
    Fanout.handle true reader marker
        { event with dataJson := some (redactedJson render redaction data) } now uuid =
      Fanout.handle true reader marker
        { event with dataJson := some (redactedJson render redaction data') } now uuid ↔
      SameShown render redaction data data' := by
  have hreadable : ∀ d : Payload α,
      Readable floats (toJson render (redactPayload d redaction).tree) :=
    fun d => readable_toJson hrender (redactPayload d redaction).wellFormed
  rw [← equal_redacted_iff, ← dumps_eq_iff (hreadable data) (hreadable data')]
  have htenant : ∀ body, Fanout.tenantId marker { event with dataJson := body } =
      Fanout.tenantId marker event := fun _ => rfl
  simp only [Fanout.handle, if_true, htenant, if_neg hsubs, Option.map_some, Option.some_inj]
  constructor
  · intro h
    obtain ⟨sub, subs, hcons⟩ := List.exists_cons_of_ne_nil hsubs
    rw [hcons, List.mapIdx_cons, List.mapIdx_cons] at h
    exact encode_dumps_inj (congrArg DeliveryRecord.dataJson (List.cons.inj h).1)
  · intro h
    have hbytes : redactedJson render redaction data = redactedJson render redaction data' :=
      congrArg encode h
    rw [hbytes]

/-! ## Two tokens -/

def exampleRender (_ : Unit) : Json.Value := .atom .null

/-- The records of an event with an access token. -/
def tokenRecords (token : String) : Option (List DeliveryRecord) :=
  Fanout.handle true (Pg.forEvent Fanout.exampleTable) Fanout.exampleMarker
    { Fanout.exampleEvent (.text "owner-a") with
      dataJson := some (redactedJson exampleRender {} (accessToken token)) } 0 toString

theorem handle_eq_iff_token : tokenRecords "a" = tokenRecords "b" := by
  refine (handle_eq_iff exampleRender Floats.verbatim (fun _ => .atom _ trivial) {}
    Fanout.exampleMarker (Pg.forEvent Fanout.exampleTable) (Fanout.exampleEvent (.text "owner-a"))
    0 toString (accessToken "a") (accessToken "b") (by decide +kernel)).mpr ⟨fun k _ => ?_, ?_⟩
  · exact Iff.rfl
  · intro k x y _ hshown hx _
    obtain ⟨rfl, -⟩ := Prod.mk.inj (List.mem_singleton.mp hx)
    exact absurd hshown (by decide +kernel)

end WebhookEngine.Subscriptions.RedactedBodies
