import Mathlib.Data.List.Sort
import WebhookEngine.Stores.Memory
import WebhookEngine.Stores.Pg

/-!
# The pages of `/deliveries/list`

The route asks the store for `offset + limit` records, and takes the number that it gets for
the total. A client that reads on while its offset is below the total never gets to a second
page.

* `reads_iff`: all that such a client reads is the first page;
* `pages_complete_iff`: when the first page is the whole list, newest first.
-/

namespace WebhookEngine.Stores.Pages

open Lib

/-! ## The route -/

/-- `Page`. -/
structure Page (α : Type) where
  items : List α
  total : Nat
  limit : Nat
  offset : Nat

structure DeliveryView where
  deliveryId : DeliveryId
  subscriptionId : SubscriptionId
  eventName : String
  eventId : String
  status : String
  attempts : Nat
  targetUrl : String
  redeliveryOf : Option String
  deriving DecidableEq, Repr

/-- `_view`. -/
def view (r : DeliveryRecord) : DeliveryView where
  deliveryId := r.deliveryId
  subscriptionId := r.subscriptionId
  eventName := r.eventName
  eventId := r.eventId
  status := r.status.value
  attempts := r.attempts
  targetUrl := r.targetUrl
  redeliveryOf := r.redeliveryOf

/-- `list_deliveries`, where `recent limit` is what the store answers. -/
def listDeliveries (recent : Nat → List DeliveryRecord) (limit offset : Nat) :
    Page DeliveryView :=
  let records := recent (offset + limit)
  let window := (records.take (offset + limit)).drop offset
  { items := window.map view
    total := records.length
    limit := limit
    offset := offset }

/-! ## A client -/

/-- The items of the pages from an offset on, as long as the next offset is below the total. -/
inductive Reads {α : Type} (page : Nat → Page α) (limit : Nat) : Nat → List α → Prop where
  | last (offset : Nat) (h : ¬ offset + limit < (page offset).total) :
      Reads page limit offset (page offset).items
  | next (offset : Nat) (rest : List α) (h : offset + limit < (page offset).total)
      (hrest : Reads page limit (offset + limit) rest) :
      Reads page limit offset ((page offset).items ++ rest)

/-- A store that gives no more than it is asked for ends the reading at once. -/
theorem reads_iff {recent : Nat → List DeliveryRecord} {limit : Nat}
    (hcut : (recent limit).length ≤ limit) (items : List DeliveryView) :
    Reads (listDeliveries recent limit) limit 0 items ↔ items = (recent limit).map view := by
  have hstop : ¬ 0 + limit < (listDeliveries recent limit 0).total := by
    rw [listDeliveries, Nat.zero_add]
    exact not_lt.mpr hcut
  have hitems : (listDeliveries recent limit 0).items = (recent limit).map view := by
    rw [listDeliveries, Nat.zero_add, List.drop_zero, List.take_of_length_le hcut]
  rw [← hitems]
  constructor
  · intro h
    cases h with
    | last => rfl
    | next _ _ h => exact absurd h hstop
  · rintro rfl
    exact .last 0 hstop

/-! ## What the stores answer -/

/-- The first is no older. -/
def Newer (r r' : DeliveryRecord) : Prop := r'.createdAt ≤ r.createdAt

instance : DecidableRel Newer := fun _ _ => inferInstanceAs (Decidable (_ ≤ _))

def newestFirst (records : List DeliveryRecord) : List DeliveryRecord :=
  records.insertionSort Newer

/-- The records of a subscription, in the order in which they were enqueued. -/
def ofSubscription (records : List DeliveryRecord) (subId : SubscriptionId) :
    List DeliveryRecord := records.filter fun r => r.subscriptionId = subId

/-- `[-limit:]`. -/
def lastOf {α : Type} (limit : Nat) (xs : List α) : List α :=
  if limit = 0 then xs else xs.drop (xs.length - limit)

/-- `MemoryWebhookDeliveryStore.recent_for_subscription`. -/
def memoryRecent (s : Memory.MemoryWebhookDeliveryStore) (subId : SubscriptionId) (limit : Nat) :
    List DeliveryRecord := lastOf limit (ofSubscription s.records.rows subId)

def pgRecords (s : Pg.PgWebhookDeliveryStore) : List DeliveryRecord :=
  s.deliveries.rows.map Pg.Row.record

/-- `PgDeliveryRepo.recent_for_subscription`. The order in which the database finds records of
one `created_at` is left open; `none`: it cannot find them in this order. -/
def pgRecent (s : Pg.PgWebhookDeliveryStore) (subId : SubscriptionId) (limit : Nat)
    (order : List DeliveryRecord) : Option (List DeliveryRecord) :=
  if order.Perm (ofSubscription (pgRecords s) subId) ∧ order.Pairwise Newer then
    some (order.take limit)
  else none

instance : Std.Total Newer := ⟨fun r r' => le_total r'.createdAt r.createdAt⟩

instance : IsTrans DeliveryRecord Newer := ⟨fun _ _ _ h h' => le_trans h' h⟩

theorem pgRecent_eq {s : Pg.PgWebhookDeliveryStore} {subId : SubscriptionId} {limit : Nat}
    {order rs : List DeliveryRecord}
    (hdistinct : ((ofSubscription (pgRecords s) subId).map (·.createdAt)).Nodup)
    (h : pgRecent s subId limit order = some rs) :
    rs = (newestFirst (ofSubscription (pgRecords s) subId)).take limit := by
  obtain ⟨⟨hperm, hpairwise⟩, hrs⟩ := Option.ite_none_right_eq_some.mp h
  have hsorted : order = newestFirst (ofSubscription (pgRecords s) subId) := by
    refine (hperm.trans (List.perm_insertionSort Newer _).symm).eq_of_pairwise
      (fun r r' hr hr' h h' => ?_) hpairwise (List.pairwise_insertionSort Newer _)
    refine List.inj_on_of_nodup_map hdistinct (hperm.subset hr) ?_ (le_antisymm h' h)
    exact (List.perm_insertionSort Newer _).subset hr'
  rw [← Option.some_inj.mp hrs, hsorted]

/-! ## When the list is read -/

/-- A client reads the deliveries, newest first. -/
def ReadsAll (recent : Nat → List DeliveryRecord) (limit : Nat) (records : List DeliveryRecord) :
    Prop := Reads (listDeliveries recent limit) limit 0 ((newestFirst records).map view)

theorem length_newestFirst (records : List DeliveryRecord) :
    (newestFirst records).length = records.length := List.length_insertionSort ..

theorem length_lastOf {α : Type} {limit : Nat} (hlimit : 0 < limit) (xs : List α) :
    (lastOf limit xs).length = min limit xs.length := by
  rw [lastOf, if_neg hlimit.ne', List.length_drop]
  omega

theorem lastOf_of_length_le {α : Type} {limit : Nat} {xs : List α} (h : xs.length ≤ limit) :
    lastOf limit xs = xs := by
  rw [lastOf, Nat.sub_eq_zero_of_le h, List.drop_zero, ite_self]

/-- Two orders of records with distinct ids show the same only if they are the same. -/
theorem eq_of_map_view {rs rs' : List DeliveryRecord} (hn : (rs.map (·.deliveryId)).Nodup)
    (hperm : rs'.Perm rs) (h : rs'.map view = rs.map view) : rs' = rs := by
  refine List.ext_getElem hperm.length_eq fun i hi hi' => ?_
  have hview : view rs'[i] = view rs[i] := by
    have hget : ∀ (i : Nat), (rs'.map view)[i]? = (rs.map view)[i]? := fun i => by rw [h]
    simpa [hi, hi'] using hget i
  exact List.inj_on_of_nodup_map hn (hperm.subset (List.getElem_mem hi)) (List.getElem_mem hi')
    (congrArg DeliveryView.deliveryId hview)

theorem length_of_reads {rs records : List DeliveryRecord} {limit : Nat}
    (hcut : rs.length ≤ limit) (h : (newestFirst records).map view = rs.map view) :
    records.length ≤ limit := by
  have hlength := congrArg List.length h
  rw [List.length_map, List.length_map, length_newestFirst] at hlength
  omega

theorem memory_reads_all_iff (s : Memory.MemoryWebhookDeliveryStore) (subId : SubscriptionId)
    {limit : Nat} (hlimit : 0 < limit) :
    ReadsAll (memoryRecent s subId) limit (ofSubscription s.records.rows subId) ↔
      (ofSubscription s.records.rows subId).length ≤ limit ∧
        (ofSubscription s.records.rows subId).Pairwise Newer := by
  have hcut : (memoryRecent s subId limit).length ≤ limit := by
    rw [memoryRecent, length_lastOf hlimit]
    exact Nat.min_le_left ..
  rw [ReadsAll, reads_iff hcut]
  constructor
  · intro h
    have hlength := length_of_reads hcut h
    rw [memoryRecent, lastOf_of_length_le hlength] at h
    have hsorted : newestFirst (ofSubscription s.records.rows subId) =
        ofSubscription s.records.rows subId :=
      eq_of_map_view (s.records.nodup_keys_filter _) (List.perm_insertionSort Newer _) h
    refine ⟨hlength, ?_⟩
    rw [← hsorted]
    exact List.pairwise_insertionSort Newer _
  · rintro ⟨hlength, hpairwise⟩
    rw [memoryRecent, lastOf_of_length_le hlength, newestFirst, hpairwise.insertionSort_eq]

theorem pg_reads_all_iff {s : Pg.PgWebhookDeliveryStore} {subId : SubscriptionId}
    {recent : Nat → List DeliveryRecord} (limit : Nat)
    (hdistinct : ((ofSubscription (pgRecords s) subId).map (·.createdAt)).Nodup)
    (hrecent : ∀ n, ∃ order, pgRecent s subId n order = some (recent n)) :
    ReadsAll recent limit (ofSubscription (pgRecords s) subId) ↔
      (ofSubscription (pgRecords s) subId).length ≤ limit := by
  obtain ⟨order, horder⟩ := hrecent limit
  have heq := pgRecent_eq hdistinct horder
  have hcut : (recent limit).length ≤ limit := heq ▸ List.length_take_le ..
  rw [ReadsAll, reads_iff hcut]
  constructor
  · exact length_of_reads hcut
  · intro hlength
    rw [heq, List.take_of_length_le (by rwa [length_newestFirst])]

/-- **When reading page after page gives the whole list**, once and newest first: when it is no
longer than the limit, and over the memory store only if it was enqueued newest first. -/
theorem pages_complete_iff (subId : SubscriptionId) (limit : Nat) (hlimit : 0 < limit) :
    (∀ s : Memory.MemoryWebhookDeliveryStore,
      ReadsAll (memoryRecent s subId) limit (ofSubscription s.records.rows subId) ↔
        (ofSubscription s.records.rows subId).length ≤ limit ∧
          (ofSubscription s.records.rows subId).Pairwise Newer) ∧
    ∀ (s : Pg.PgWebhookDeliveryStore) (recent : Nat → List DeliveryRecord),
      ((ofSubscription (pgRecords s) subId).map (·.createdAt)).Nodup →
      (∀ n, ∃ order, pgRecent s subId n order = some (recent n)) →
        (ReadsAll recent limit (ofSubscription (pgRecords s) subId) ↔
          (ofSubscription (pgRecords s) subId).length ≤ limit) :=
  ⟨fun s => memory_reads_all_iff s subId hlimit,
    fun _ _ hdistinct hrecent => pg_reads_all_iff limit hdistinct hrecent⟩

/-! ## Two deliveries -/

/-- The second is the newer one. -/
def twoDeliveries : List DeliveryRecord :=
  [exampleRecord "d_1" "https://x.dev/a",
    { exampleRecord "d_2" "https://x.dev/a" with createdAt := 1 }]

def memoryTwo : Memory.MemoryWebhookDeliveryStore := Memory.enqueueMany Memory.empty twoDeliveries

def pgTwo : Pg.PgWebhookDeliveryStore := Pg.insertRows Pg.empty twoDeliveries

/-- What the database answers. -/
def pgTwoRecent (n : Nat) : List DeliveryRecord := twoDeliveries.reverse.take n

theorem pgRecent_two (n : Nat) :
    ∃ order, pgRecent pgTwo "sub_1" n order = some (pgTwoRecent n) := by
  have hvalid : twoDeliveries.reverse.Perm (ofSubscription (pgRecords pgTwo) "sub_1") ∧
      twoDeliveries.reverse.Pairwise Newer := by decide +kernel
  exact ⟨twoDeliveries.reverse, if_pos hvalid⟩

theorem pages_complete_two :
    ReadsAll pgTwoRecent 2 (ofSubscription (pgRecords pgTwo) "sub_1") :=
  (((pages_complete_iff "sub_1" 2 (by decide)).2 pgTwo pgTwoRecent (by decide +kernel)
    pgRecent_two).mpr (by decide +kernel))

/-- Page by page, only one of the two is read; and the memory store gives the older one first. -/
theorem second_page_never_read :
    ¬ ReadsAll pgTwoRecent 1 (ofSubscription (pgRecords pgTwo) "sub_1") ∧
      ¬ ReadsAll (memoryRecent memoryTwo "sub_1") 1
        (ofSubscription memoryTwo.records.rows "sub_1") ∧
      ¬ ReadsAll (memoryRecent memoryTwo "sub_1") 2
        (ofSubscription memoryTwo.records.rows "sub_1") := by
  refine ⟨?_, ?_, ?_⟩
  · rw [pg_reads_all_iff 1 (by decide +kernel) pgRecent_two]
    decide +kernel
  · rw [memory_reads_all_iff memoryTwo "sub_1" (by decide)]
    decide +kernel
  · rw [memory_reads_all_iff memoryTwo "sub_1" (by decide)]
    decide +kernel

end WebhookEngine.Stores.Pages
