import WebhookEngine.Ingest.Parking
import WebhookEngine.Subscriptions.Subscription

/-!
# The other subscribers of an event

`_fan_out` handles all subscriptions of an event in one loop, and catches the refusal of a
target but not the `ValueError` of a URL. `create` of the shipped stores resolves
`urlsplit(url).hostname` and never reads the port.

* `targets_isSome_iff`: the loop comes to its end if every URL parses;
* `delivered_iff`: when each subscriber gets what is its own.
-/

namespace WebhookEngine.Ingest.Neighbours

open Lib Lib.Url SsrfGuard Dispatcher Events Ingestor Parking Subscriptions

variable {py : Python} {δ : Type} {dumps : δ → Option Bytes} {v : UrlSafetyValidator py}

/-- `_resolve_ip` finds a hostname to resolve. -/
def hasHostname (py : Python) (url : String) : Bool :=
  (urlsplit py url.toList).any fun parsed => decide (parsed.hostname py ≠ [])

/-- `urlsplit(url).port` does not raise. -/
def portParses (py : Python) (url : String) : Bool :=
  (urlsplit py url.toList).all fun parsed => parsed.port.isSome

theorem checkTarget_isSome_iff {sub : SubscriptionSnapshot} (h : hasHostname py sub.url = true) :
    (checkTarget v sub).isSome = true ↔ portParses py sub.url = true := by
  obtain ⟨parsed, hparsed, -⟩ := (Option.any_eq_true ..).mp h
  rw [checkTarget, portParses, hparsed, Option.bind_some, Option.isSome_map, Option.all_some]

theorem targets_isSome_iff {subs : List SubscriptionSnapshot} :
    (targets v subs).isSome = true ↔ ∀ sub ∈ subs, (checkTarget v sub).isSome = true := by
  induction subs with
  | nil => exact iff_of_true rfl fun _ hsub => by cases hsub
  | cons sub subs ih =>
    rw [List.forall_mem_cons, ← ih, targets]
    cases checkTarget v sub with
    | none => exact iff_of_false (by simp) fun h => by cases h.1
    | some ok => simp

/-- What `_fan_out` hands to `enqueue_many`: an exception leaves the loop with nothing. -/
def enqueued (dumps : δ → Option Bytes) (v : UrlSafetyValidator py) (event : IncomingEvent δ)
    (now : Datetime) (subs : List SubscriptionSnapshot) (uuid : Nat → DeliveryId) :
    List DeliveryRecord :=
  (fanOut dumps v event now subs uuid).getD []

/-- The subscriptions of `rows` that the event is for. -/
def matching (rows : List Subscription) (event : IncomingEvent δ) : List Subscription :=
  rows.filter (Subscription.wanted event.event event.tenantId)

/-- Each matching subscription whose own target passes gets a delivery. -/
def Delivered (v : UrlSafetyValidator py) (rows : List Subscription) (event : IncomingEvent δ)
    (records : List DeliveryRecord) : Prop :=
  ∀ s ∈ matching rows event, passes v s.snapshot = true → ∃ r ∈ records, snapshot r = s.snapshot

instance (rows : List Subscription) (event : IncomingEvent δ) (records : List DeliveryRecord) :
    Decidable (Delivered v rows event records) := by
  unfold Delivered
  infer_instance

/-- Nobody is due a delivery, or the payload has a JSON text and no matching subscription a
port that does not parse. -/
def Undisturbed (dumps : δ → Option Bytes) (v : UrlSafetyValidator py) (rows : List Subscription)
    (event : IncomingEvent δ) : Prop :=
  (∀ s ∈ matching rows event, passes v s.snapshot = false) ∨
    ((dumps event.data).isSome = true ∧ ∀ s ∈ matching rows event, portParses py s.url = true)

theorem mem_matching {rows : List Subscription} {event : IncomingEvent δ}
    {subs : List SubscriptionSnapshot} (hsel : Selected rows event.event event.tenantId subs)
    {x : SubscriptionSnapshot} : x ∈ subs ↔ ∃ s ∈ matching rows event, x = s.snapshot := by
  rw [hsel x]
  constructor
  · rintro ⟨s, hs, hwanted, rfl⟩
    exact ⟨s, List.mem_filter.mpr ⟨hs, hwanted⟩, rfl⟩
  · rintro ⟨s, hs, rfl⟩
    obtain ⟨hs, hwanted⟩ := List.mem_filter.mp hs
    exact ⟨s, hs, hwanted, rfl⟩

/-- A fan-out to somebody comes to its end if and only if nothing raises. -/
theorem fanOut_isSome_iff {event : IncomingEvent δ} {now : Datetime}
    {subs : List SubscriptionSnapshot} {uuid : Nat → DeliveryId} (hsubs : subs ≠ []) :
    (fanOut dumps v event now subs uuid).isSome = true ↔
      (dumps event.data).isSome = true ∧ ∀ sub ∈ subs, (checkTarget v sub).isSome = true := by
  rw [fanOut, if_neg hsubs, ← targets_isSome_iff]
  cases dumps event.data with
  | none => simp
  | some dataJson => simp

/-- What a fan-out to created subscriptions takes to come to its end. -/
theorem finishes_iff {rows : List Subscription} {event : IncomingEvent δ} {now : Datetime}
    {subs : List SubscriptionSnapshot} {uuid : Nat → DeliveryId}
    (hcreated : ∀ s ∈ rows, hasHostname py s.url = true)
    (hsel : Selected rows event.event event.tenantId subs) (hsubs : subs ≠ []) :
    (fanOut dumps v event now subs uuid).isSome = true ↔
      (dumps event.data).isSome = true ∧ ∀ s ∈ matching rows event, portParses py s.url = true := by
  have hport : ∀ s ∈ matching rows event,
      ((checkTarget v s.snapshot).isSome = true ↔ portParses py s.url = true) := fun s hs =>
    checkTarget_isSome_iff (hcreated s (List.mem_filter.mp hs).1)
  rw [fanOut_isSome_iff hsubs]
  refine and_congr_right fun _ => ⟨fun h s hs => ?_, fun h sub hsub => ?_⟩
  · exact (hport s hs).mp (h _ ((mem_matching hsel).mpr ⟨s, hs, rfl⟩))
  · obtain ⟨s, hs, rfl⟩ := (mem_matching hsel).mp hsub
    exact (hport s hs).mpr (h s hs)

/-- A fan-out that comes to its end has one record for each target that passes. -/
theorem mem_of_fanOut {event : IncomingEvent δ} {now : Datetime}
    {subs : List SubscriptionSnapshot} {uuid : Nat → DeliveryId} {records : List DeliveryRecord}
    (h : fanOut dumps v event now subs uuid = some records) {sub : SubscriptionSnapshot}
    (hsub : sub ∈ subs) (hpass : passes v sub = true) : ∃ r ∈ records, snapshot r = sub := by
  have hfanned : Fanned dumps ⟨{ ssrf := v }, event, subs, records⟩ := fanOut_spec h
  have hin : sub ∈ records.map snapshot := by
    rw [hfanned.snapshots]
    exact List.mem_filter.mpr ⟨hsub, hpass⟩
  exact List.mem_map.mp hin

/-- **Each its own.** For every event and every list of subscriptions that `create` has
accepted: each matching subscription whose own target passes gets its delivery if and only
if no matching subscription has a port that does not parse, unless nobody is due one. -/
theorem delivered_iff (dumps : δ → Option Bytes) (v : UrlSafetyValidator py)
    (rows : List Subscription) (event : IncomingEvent δ) (now : Datetime)
    (subs : List SubscriptionSnapshot) (uuid : Nat → DeliveryId)
    (hcreated : ∀ s ∈ rows, hasHostname py s.url = true)
    (hsel : Selected rows event.event event.tenantId subs) :
    Delivered v rows event (enqueued dumps v event now subs uuid) ↔
      Undisturbed dumps v rows event := by
  have hmem : ∀ s ∈ matching rows event, s.snapshot ∈ subs := fun s hs =>
    (mem_matching hsel).mpr ⟨s, hs, rfl⟩
  constructor
  · intro hdelivered
    by_cases hdue : ∃ s ∈ matching rows event, passes v s.snapshot = true
    · right
      obtain ⟨s, hs, hpass⟩ := hdue
      obtain ⟨r, hr, -⟩ := hdelivered s hs hpass
      have hsome : (fanOut dumps v event now subs uuid).isSome = true := by
        cases hfan : fanOut dumps v event now subs uuid with
        | none =>
          rw [enqueued, hfan] at hr
          cases hr
        | some records => rfl
      exact (finishes_iff hcreated hsel (List.ne_nil_of_mem (hmem s hs))).mp hsome
    · left
      intro s hs
      rw [← Bool.not_eq_true]
      exact fun hpass => hdue ⟨s, hs, hpass⟩
  · rintro (hnone | hboth) s hs hpass
    · rw [hnone s hs] at hpass
      cases hpass
    · have hsome : (fanOut dumps v event now subs uuid).isSome = true :=
        (finishes_iff hcreated hsel (List.ne_nil_of_mem (hmem s hs))).mpr hboth
      obtain ⟨records, hfan⟩ := Option.isSome_iff_exists.mp hsome
      rw [enqueued, hfan]
      exact mem_of_fanOut hfan (hmem s hs) hpass

/-- Two subscribers, the second one at a URL of its own. -/
def twoSubscribers (url : String) : List Subscription :=
  [{ exampleCreation "a" "tenant_a" with events := ["task.created"] },
    { exampleCreation "b" "tenant_a" with events := ["task.created"], url := url }].map
      Creation.subscription

def snapshots (rows : List Subscription) : List SubscriptionSnapshot := rows.map (·.snapshot)

theorem delivered_iff_two :
    Delivered exampleValidator (twoSubscribers "https://example.com:8443/hook") exampleEvent
      (enqueued exampleDumps exampleValidator exampleEvent 0
        (snapshots (twoSubscribers "https://example.com:8443/hook")) toString) ↔
    Undisturbed exampleDumps exampleValidator (twoSubscribers "https://example.com:8443/hook")
      exampleEvent := by
  refine delivered_iff exampleDumps exampleValidator _ exampleEvent 0 _ toString
    (by decide +kernel) fun x => ?_
  have hall : ∀ s ∈ twoSubscribers "https://example.com:8443/hook",
      s.wanted exampleEvent.event exampleEvent.tenantId = true := by decide +kernel
  rw [snapshots, List.mem_map]
  constructor
  · rintro ⟨s, hs, rfl⟩
    exact ⟨s, hs, hall s hs, rfl⟩
  · rintro ⟨s, hs, -, rfl⟩
    exact ⟨s, hs, rfl⟩

/-- The first subscriber is not served because the second one's port is out of range. -/
theorem disturbed_by_a_port :
    (∀ s ∈ twoSubscribers "https://example.com:99999/hook",
      hasHostname examplePython s.url = true) ∧
    ¬ Delivered exampleValidator (twoSubscribers "https://example.com:99999/hook") exampleEvent
      (enqueued exampleDumps exampleValidator exampleEvent 0
        (snapshots (twoSubscribers "https://example.com:99999/hook")) toString) := by
  decide +kernel

end WebhookEngine.Ingest.Neighbours
