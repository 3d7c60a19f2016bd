import WebhookEngine.Subscriptions.Coherence
import WebhookEngine.Subscriptions.Pg

/-!
# The fan-out handler

`WebhookFanoutHandler.handle` of `fanout.py`. The payload is what redaction and
`json.dumps` make of the event, the reader is a shipped store.

* `handle_spec`: the records are one for each subscription that the reader answers;
* `isolated_iff`: when the records stay with the tenant of the event.
-/

namespace WebhookEngine.Subscriptions.Fanout

/-- What `getattr(event, name, None)` gives; `other` is an object that is neither `None` nor
equal to `""`, by its `str`. -/
inductive AttributeValue where
  | none
  | text (s : String)
  | other (str : String)
  deriving DecidableEq, Repr

/-- The fields of `WebhookMeta` that the handler reads itself. -/
structure WebhookMeta where
  name : String
  tenantField : Option String := some "user_id"

/-- An event, with its payload; `none` is an exception of the serialiser. -/
structure BaseEvent where
  getattr : String → AttributeValue
  eventId : String
  schemaVersion : String
  emittedAt : Datetime
  dataJson : Option Bytes

abbrev Reader := String → Option String → List SubscriptionSnapshot

def tenantId (marker : WebhookMeta) (event : BaseEvent) : Option String :=
  (marker.tenantField.filter (· ≠ "")).bind fun field =>
    match event.getattr field with
    | .none => none
    | .text s => if s = "" then none else some s
    | .other str => some str

def buildRecord (event : BaseEvent) (sub : SubscriptionSnapshot) (marker : WebhookMeta)
    (tenant : Option String) (dataJson : Bytes) (now : Datetime) (id : DeliveryId) :
    DeliveryRecord where
  deliveryId := id
  subscriptionId := sub.id
  ownerId := sub.ownerId
  eventName := marker.name
  eventId := event.eventId
  schemaVersion := event.schemaVersion
  tenantId := tenant
  dataJson := dataJson
  emittedAt := event.emittedAt
  targetUrl := sub.url
  resolvedIp := sub.resolvedIp
  redeliveryOf := none
  attempts := 0
  fireAt := now
  createdAt := now
  status := .pending

/-- The records that `handle` gives to `enqueue_many`; `none` is the serialiser's exception,
`uuid` answers the calls of `uuid4`. -/
def handle (enabled : Bool) (reader : Reader) (marker : WebhookMeta) (event : BaseEvent)
    (now : Datetime) (uuid : Nat → DeliveryId) : Option (List DeliveryRecord) :=
  if enabled then
    let tenant := tenantId marker event
    let subs := reader marker.name tenant
    if subs = [] then some []
    else
      event.dataJson.map fun dataJson =>
        subs.mapIdx fun i sub => buildRecord event sub marker tenant dataJson now (uuid i)
  else some []

/-- What is enqueued; an exception enqueues nothing. -/
def enqueued (enabled : Bool) (reader : Reader) (marker : WebhookMeta) (event : BaseEvent)
    (now : Datetime) (uuid : Nat → DeliveryId) : List DeliveryRecord :=
  (handle enabled reader marker event now uuid).getD []

variable {enabled : Bool} {reader : Reader} {marker : WebhookMeta} {event : BaseEvent}
  {now : Datetime} {uuid : Nat → DeliveryId}

/-- One record for each subscription of the answer, with its owner. -/
theorem owners_enqueued (he : enabled = true) {dataJson : Bytes}
    (hdata : event.dataJson = some dataJson) :
    (enqueued enabled reader marker event now uuid).map (·.ownerId) =
      (reader marker.name (tenantId marker event)).map (·.ownerId) := by
  unfold enqueued handle
  rw [if_pos he, hdata]
  simp only
  split
  case isTrue hnil =>
    rw [hnil]
    rfl
  case isFalse =>
    rw [Option.map_some, Option.getD_some]
    apply List.ext_getElem
    · simp
    · intro i hi hi'
      simp only [List.getElem_map, List.getElem_mapIdx]
      rfl

/-- A disabled dispatch and a raising serialiser enqueue nothing. -/
theorem enqueued_nil (h : enabled = false ∨ event.dataJson = none) :
    enqueued enabled reader marker event now uuid = [] := by
  unfold enqueued handle
  rcases h with rfl | hdata
  · rfl
  · rw [hdata]
    split
    · simp only
      split <;> rfl
    · rfl

/-- The value is a tenant's: neither `None` nor the empty string. -/
def CarriesTenant : AttributeValue → Prop
  | .none => False
  | .text s => s ≠ ""
  | .other _ => True

/-- The record is for the owner that the value names. -/
def OwnedBy (r : DeliveryRecord) : AttributeValue → Prop
  | .none => False
  | .text s => s ≠ "" ∧ r.ownerId = s
  | .other str => r.ownerId = str

instance (r : DeliveryRecord) (value : AttributeValue) : Decidable (OwnedBy r value) := by
  cases value <;> unfold OwnedBy <;> infer_instance

theorem ownedBy_iff {field : String} (hfield : marker.tenantField = some field)
    (hne : field ≠ "") (r : DeliveryRecord) : OwnedBy r (event.getattr field) ↔
      tenantId marker event = some r.ownerId := by
  unfold tenantId OwnedBy
  rw [hfield, Option.filter_some_pos (by simpa using hne), Option.bind_some]
  cases event.getattr field with
  | none => simp
  | text s =>
    by_cases hs : s = ""
    · simp [hs]
    · simp [hs, eq_comm]
  | other str => simp [eq_comm]

theorem carriesTenant_iff {field : String} (hfield : marker.tenantField = some field)
    (hne : field ≠ "") :
    CarriesTenant (event.getattr field) ↔ tenantId marker event ≠ none := by
  unfold tenantId CarriesTenant
  rw [hfield, Option.filter_some_pos (by simpa using hne), Option.bind_some]
  cases event.getattr field with
  | none => simp
  | text s => by_cases hs : s = "" <;> simp [hs]
  | other str => simp

/-- Where a record is made for every subscription of the answer. -/
theorem isolated_of_reader {rows : List Subscription}
    (hselected : Selected rows marker.name (tenantId marker event)
      (reader marker.name (tenantId marker event))) :
    (∀ owner ∈ (reader marker.name (tenantId marker event)).map (·.ownerId),
      tenantId marker event = some owner) ↔
      tenantId marker event ≠ none ∨ ∀ s ∈ rows, s.status = .active → marker.name ∉ s.events := by
  simp only [List.forall_mem_map]
  cases htenant : tenantId marker event with
  | none =>
    rw [htenant] at hselected
    simp only [reduceCtorEq, imp_false, ne_eq, not_true_eq_false, false_or]
    constructor
    · intro hnone s hs hactive hevent
      have hwanted : s.wanted marker.name none = true :=
        Subscription.wanted_iff.mpr ⟨hevent, hactive, fun t ht => by cases ht⟩
      exact hnone s.snapshot ((hselected _).mpr ⟨s, hs, hwanted, rfl⟩)
    · intro hnone x hx
      obtain ⟨s, hs, hwanted, -⟩ := (hselected x).mp hx
      obtain ⟨hevent, hactive, -⟩ := Subscription.wanted_iff.mp hwanted
      exact hnone s hs hactive hevent
  | some t =>
    rw [htenant] at hselected
    simp only [Option.some.injEq, ne_eq, reduceCtorEq, not_false_eq_true, true_or, iff_true]
    intro x hx
    obtain ⟨s, -, hwanted, rfl⟩ := (hselected x).mp hx
    exact ((Subscription.wanted_iff.mp hwanted).2.2 t rfl).symm

/-- **The records stay with the event's tenant** if and only if the event carries a tenant,
or nothing is enqueued at all: dispatch is disabled, no owner has an active subscription to the
event, or the serialiser raises. -/
theorem isolated_iff (enabled : Bool) (reader : Reader) (marker : WebhookMeta) (event : BaseEvent)
    (now : Datetime) (uuid : Nat → DeliveryId) (rows : List Subscription)
    (hreader : ∀ name tenant, Selected rows name tenant (reader name tenant)) (field : String)
    (hfield : marker.tenantField = some field) (hne : field ≠ "") :
    (∀ r ∈ enqueued enabled reader marker event now uuid, OwnedBy r (event.getattr field)) ↔
      CarriesTenant (event.getattr field) ∨ enabled = false ∨
        (∀ s ∈ rows, s.status = .active → marker.name ∉ s.events) ∨ event.dataJson = none := by
  rw [carriesTenant_iff hfield hne]
  simp only [ownedBy_iff hfield hne]
  by_cases hnothing : enabled = false ∨ event.dataJson = none
  · rw [enqueued_nil hnothing]
    rcases hnothing with h | h <;> simp [h]
  · obtain ⟨he, hdata⟩ := not_or.mp hnothing
    obtain ⟨dataJson, hsome⟩ := Option.ne_none_iff_exists'.mp hdata
    have howners : (enqueued enabled reader marker event now uuid).map (·.ownerId) =
        (reader marker.name (tenantId marker event)).map (·.ownerId) :=
      owners_enqueued (eq_true_of_ne_false he) hsome
    have hisolated := isolated_of_reader (hreader marker.name (tenantId marker event))
    rw [← howners, List.forall_mem_map] at hisolated
    rw [hisolated]
    simp [he, hdata]

/-! ## Two owners of one event -/

def exampleTable : Pg.PgTable :=
  ((Pg.create Pg.identityCipher .empty (exampleCreation "a" "owner-a")).bind fun t =>
    Pg.create Pg.identityCipher t (exampleCreation "b" "owner-b")).getD .empty

def exampleMarker : WebhookMeta := ⟨"order.paid", some "user_id"⟩

def exampleEvent (value : AttributeValue) : BaseEvent where
  getattr name := if name = "user_id" then value else .none
  eventId := "evt_1"
  schemaVersion := "1"
  emittedAt := 0
  dataJson := some [0x7b, 0x7d]

/-- The owners that `handle` reaches with the reader of Postgres. -/
def reachedPg (value : AttributeValue) : List OwnerId :=
  (enqueued true (Pg.forEvent exampleTable) exampleMarker (exampleEvent value) 0 toString).map
    (·.ownerId)

theorem isolated_iff_owner_a : reachedPg (.text "owner-a") = ["owner-a"] ∧
    ∀ r ∈ enqueued true (Pg.forEvent exampleTable) exampleMarker (exampleEvent (.text "owner-a")) 0
      toString, OwnedBy r (.text "owner-a") :=
  ⟨by decide +kernel, (isolated_iff true (Pg.forEvent exampleTable) exampleMarker
    (exampleEvent (.text "owner-a")) 0 toString (exampleTable.rows.map Pg.Row.toSubscription)
    (fun name tenant => Pg.forEvent_selected exampleTable name tenant (List.Perm.refl _)) "user_id"
    rfl (by decide)).mpr (.inl (by decide : "owner-a" ≠ ""))⟩

/-- The same subscriptions in Redis, and its answer to `handle`. -/
def reachedRedis (value : AttributeValue) : Option (List OwnerId) :=
  (Redis.forEvent (Redis.store.serial .empty [.create (exampleCreation "a" "owner-a"),
    .create (exampleCreation "b" "owner-b")]).1 ["a", "b"]
      (tenantId exampleMarker (exampleEvent value))).map fun subs => subs.map (·.ownerId)

/-- Without a value, and with an empty one, the event reaches the tenants of both stores. -/
theorem missing_tenant_reaches_every_owner :
    (∀ value ∈ [AttributeValue.none, .text ""], reachedPg value = ["owner-a", "owner-b"] ∧
      reachedRedis value = some ["owner-a", "owner-b"]) ∧
    ¬∀ r ∈ enqueued true (Pg.forEvent exampleTable) exampleMarker (exampleEvent .none) 0 toString,
      OwnedBy r .none := by
  constructor
  · decide +kernel
  · decide +kernel

end WebhookEngine.Subscriptions.Fanout
