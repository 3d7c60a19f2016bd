import WebhookEngine.Subscriptions.Redis
import WebhookEngine.Subscriptions.Registry

/-!
# The three key families of the Redis store

`Coherent` ties the hashes and the index sets to a registry: every hash is absent or
that of a subscription with all its fields, and an index set holds an id exactly
while its subscription is listed under that key.

* `call_coherent`: every call keeps it;
* `forEvent_standing`: so `for_event` answers from the calls alone, and no index keeps
  the id of a deleted subscription.
-/

namespace WebhookEngine.Subscriptions.Redis

open Lib

/-- The hash of a subscription, with the two fields that a rotation adds. -/
def hashOf (s : Subscription) (previous : Option String) (until_ : Option Datetime) : Hash where
  id := some s.id
  ownerId := some s.ownerId
  url := some s.url
  secret := some s.secret
  events := some s.events
  status := some s.status
  createdAt := some s.createdAt
  resolvedIp := some s.resolvedIp
  previousSecret := previous
  previousExpiresAt := until_

structure Coherent (k : Keyspace) (r : Registry) : Prop where
  absent : ∀ id, r.find? id = none → k.hashes (subKey id) = .absent
  present : ∀ id s, r.find? id = some s → s.secret ≠ "" ∧
    ∃ previous until_, k.hashes (subKey id) = hashOf s previous until_
  listed : ∀ key id, id ∈ k.sets key ↔ ∃ s, r.find? id = some s ∧ Listed s.ownerId s.events key

theorem coherent_empty : Coherent .empty (.empty : Registry) where
  absent _ _ := rfl
  present _ _ h := by cases h
  listed key id := by simp [Keyspace.empty]

theorem hashOf_ne_absent (s : Subscription) (previous : Option String)
    (until_ : Option Datetime) : hashOf s previous until_ ≠ .absent :=
  fun h => by cases congrArg Hash.id h

/-- A registry with the same subscriptions. -/
theorem Coherent.congr {k : Keyspace} {r r' : Registry} (h : Coherent k r)
    (hr : ∀ id, r'.find? id = r.find? id) : Coherent k r' where
  absent id hid := h.absent id (hr id ▸ hid)
  present id s hid := h.present id s (hr id ▸ hid)
  listed key id := by rw [hr]; exact h.listed key id

/-- A command that rewrites fields of one subscription, none of them listed. -/
theorem Coherent.hset {k : Keyspace} {r : Registry} (h : Coherent k r) {id : SubscriptionId}
    {s : Subscription} (hs : r.find? id = some s) {mapping : Hash} {f : Subscription → Subscription}
    {hf : ∀ x, (f x).id = x.id} (howner : (f s).ownerId = s.ownerId)
    (hevents : (f s).events = s.events) (hsecret : (f s).secret ≠ "")
    (hset : ∀ previous until_, ∃ previous' until',
      (hashOf s previous until_).hset mapping = hashOf (f s) previous' until') :
    Coherent (k.hset (subKey id) mapping) (r.modify id f hf) where
  absent j hj := by
    rw [Table.find?_modify] at hj
    rw [hashes_hset]
    by_cases hji : j = id
    · subst hji
      rw [if_pos rfl, hs] at hj
      cases hj
    · rw [if_neg hji] at hj ⊢
      exact h.absent j hj
  present j t hj := by
    rw [Table.find?_modify] at hj
    rw [hashes_hset]
    by_cases hji : j = id
    · subst hji
      rw [if_pos rfl, hs] at hj
      cases hj
      obtain ⟨-, previous, until_, hhash⟩ := h.present j s hs
      rw [if_pos rfl, hhash]
      exact ⟨hsecret, hset previous until_⟩
    · rw [if_neg hji] at hj ⊢
      exact h.present j t hj
  listed key j := by
    rw [Table.find?_modify]
    refine (h.listed key j).trans ?_
    split
    case isTrue hji =>
      subst hji
      simp [hs, howner, hevents]
    case isFalse => rfl

/-! ## The calls -/

theorem create_coherent {k : Keyspace} {r : Registry} (h : Coherent k r) {c : Creation}
    (hfresh : r.find? c.id = none) : Coherent (create k c) (r.apply (.create c)) where
  absent id hid := by
    rw [Registry.find?_create] at hid
    rw [hashes_create]
    split at hid
    case isTrue => cases hid
    case isFalse hne =>
      rw [if_neg hne]
      exact h.absent id hid
  present id s hid := by
    rw [Registry.find?_create] at hid
    rw [hashes_create]
    split at hid
    case isTrue hid' =>
      cases hid
      subst hid'
      rw [if_pos rfl, h.absent _ hfresh]
      exact ⟨orToken_ne_empty _ _, none, none, rfl⟩
    case isFalse hne =>
      rw [if_neg hne]
      exact h.present id s hid
  listed key id := by
    rw [mem_create, h.listed, Registry.find?_create]
    by_cases hne : id = c.id
    · subst hne
      simp [hfresh, Creation.subscription]
    · simp [hne]

theorem delete_coherent {k : Keyspace} {r : Registry} (h : Coherent k r) {s : Subscription}
    (hs : r.find? s.id = some s) :
    Coherent (second k (.delete s.id s.ownerId s.events)).1 (r.erase s.id) where
  absent id hid := by
    rw [Table.find?_erase] at hid
    rw [hashes_delete]
    split at hid
    case isTrue heq => rw [if_pos heq]
    case isFalse hne =>
      rw [if_neg hne]
      exact h.absent id hid
  present id t hid := by
    rw [Table.find?_erase] at hid
    rw [hashes_delete]
    split at hid
    case isTrue => cases hid
    case isFalse hne =>
      rw [if_neg hne]
      exact h.present id t hid
  listed key id := by
    rw [mem_delete, h.listed, Table.find?_erase]
    by_cases hne : id = s.id
    · subst hne
      simp [hs]
    · simp [hne]

/-- A call that changes no subscription of the registry. -/
theorem modify_absent {r : Registry} {id : SubscriptionId} {f : Subscription → Subscription}
    (hf : ∀ x, (f x).id = x.id) (h : r.find? id = none) (j : SubscriptionId) :
    (r.modify id f hf).find? j = r.find? j := by
  rw [Table.find?_modify]
  split
  case isTrue hj =>
    rw [hj, h]
    rfl
  case isFalse => rfl

theorem setStatus_coherent {k : Keyspace} {r : Registry} (h : Coherent k r) (id : SubscriptionId)
    (status : SubscriptionStatus) {c : Call} (hc : store.first k c = (k, setStatus k id status)) :
    Coherent (store.call k c).1 (r.setStatus id status) := by
  cases hs : r.find? id with
  | none =>
    rw [setStatus, if_pos (h.absent id hs)] at hc
    rw [Serial.call_of_returns (by rw [hc]), hc]
    exact h.congr (modify_absent _ hs)
  | some s =>
    obtain ⟨hsecret, previous, until_, hhash⟩ := h.present id s hs
    have hpresent : k.hashes (subKey id) ≠ .absent := hhash ▸ hashOf_ne_absent s previous until_
    rw [setStatus, if_neg hpresent] at hc
    rw [Serial.call_of_pending (by rw [hc])]
    exact h.hset (f := fun x => { x with status := status }) hs rfl rfl hsecret
      fun previous until_ => ⟨previous, until_, rfl⟩

theorem rotateSecret_coherent {k : Keyspace} {r : Registry} (h : Coherent k r)
    (id : SubscriptionId) (graceS : Int) (secret : Option String) (token : Token)
    (now : Datetime) : Coherent (store.call k (.rotateSecret id graceS secret token now)).1
      (r.apply (.rotateSecret id graceS secret token now)) := by
  have hfirst : (store.first k (.rotateSecret id graceS secret token now)).2 =
      rotateSecret k id graceS secret token now := rfl
  cases hs : r.find? id with
  | none =>
    rw [rotateSecret, h.absent id hs] at hfirst
    rw [Serial.call_of_returns hfirst, Registry.apply]
    split
    · exact h
    · exact h.congr (modify_absent _ hs)
  | some s =>
    obtain ⟨hsecret, previous, until_, hhash⟩ := h.present id s hs
    have hold : (k.hashes (subKey id)).secret.filter (· ≠ "") = some s.secret := by
      rw [hhash]
      simp [hashOf, hsecret]
    rw [rotateSecret, hold, graceUntil] at hfirst
    rw [Registry.apply]
    split
    case isTrue hneg =>
      rw [if_pos hneg] at hfirst
      rw [Serial.call_of_returns hfirst]
      exact h
    case isFalse hneg =>
      rw [if_neg hneg] at hfirst
      rw [Serial.call_of_pending hfirst]
      exact h.hset (f := fun x => { x with secret := orToken secret token }) hs rfl rfl
        (orToken_ne_empty secret token) fun _ _ => ⟨some s.secret, some (now + graceS), rfl⟩

/-- **Every call keeps the key families in step.** -/
theorem call_coherent {k : Keyspace} {r : Registry} (h : Coherent k r) {c : Call}
    (hfresh : ∀ id, c.mints = some id → r.find? id = none) :
    Coherent (store.call k c).1 (r.apply c) := by
  cases c with
  | create c => exact create_coherent h (hfresh c.id rfl)
  | pause id => exact setStatus_coherent h id .paused rfl
  | resume id => exact setStatus_coherent h id .active rfl
  | rotateSecret id graceS secret token now => exact rotateSecret_coherent h ..
  | delete id =>
    have hfirst : (store.first k (.delete id)).2 = delete k id := rfl
    cases hs : r.find? id with
    | none =>
      rw [delete, if_pos (h.absent id hs)] at hfirst
      rw [Serial.call_of_returns hfirst]
      apply h.congr
      intro j
      rw [Registry.apply, Table.find?_erase]
      split
      case isTrue hj => rw [hj, hs]
      case isFalse => rfl
    | some s =>
      obtain rfl := Table.find?_key hs
      obtain ⟨-, previous, until_, hhash⟩ := h.present _ s hs
      rw [delete, hhash, if_neg (hashOf_ne_absent s previous until_)] at hfirst
      rw [Serial.call_of_pending hfirst]
      exact delete_coherent h hs

theorem coherent_serial {calls : List Call} (hfresh : FreshIds calls) :
    Coherent (store.serial .empty calls).1 (Registry.after .empty calls) := by
  induction calls using List.reverseRecOn with
  | nil => exact coherent_empty
  | append_singleton calls call ih =>
    rw [Serial.serial_snoc, Registry.after_append]
    apply call_coherent (ih (freshIds_left hfresh))
    intro id hid
    exact Registry.find?_not_minted fun x hx => freshIds_snoc hfresh hid x hx

/-! ## `for_event` -/

theorem select_hashOf (tenant : Option String) (s : Subscription) (previous : Option String)
    (until_ : Option Datetime) : select tenant (hashOf s previous until_) =
      some (if s.admitted tenant then some s.snapshot else none) := by
  rw [select, if_neg (hashOf_ne_absent s previous until_), Subscription.admitted]
  by_cases hstatus : s.status = .active
  · simp only [hashOf, hstatus, ne_eq, not_true_eq_false, if_false, decide_true, Bool.true_and,
      Option.bind_eq_bind, Option.bind_some]
    split <;> rfl
  · simp [hashOf, hstatus]

/-- The rows of any list of ids, in that order. -/
theorem collect_coherent {k : Keyspace} {r : Registry} (h : Coherent k r) (tenant : Option String)
    (ids : List SubscriptionId) : forEvent k ids tenant =
      some ((ids.filterMap fun id => (r.find? id).filter (·.admitted tenant)).map
        Subscription.snapshot) := by
  unfold forEvent
  induction ids with
  | nil => rfl
  | cons id ids ih =>
    rw [List.map_cons, collect, ih]
    cases hs : r.find? id with
    | none =>
      rw [h.absent id hs, List.filterMap_cons_none (by rw [hs]; rfl)]
      rfl
    | some s =>
      obtain ⟨-, previous, until_, hhash⟩ := h.present id s hs
      rw [hhash, select_hashOf]
      by_cases hadmitted : s.admitted tenant = true
      · rw [List.filterMap_cons_some (b := s) (by simp [hs, hadmitted]), if_pos hadmitted]
        rfl
      · rw [List.filterMap_cons_none (by simp [hs, hadmitted]), if_neg hadmitted]
        rfl

/-- A selection of rows by their ids has each id once. -/
theorem nodup_selected (r : Registry) (p : Subscription → Bool) {ids : List SubscriptionId}
    (h : ids.Nodup) : (((ids.filterMap fun id => (r.find? id).filter p).map
      Subscription.snapshot).map (·.id)).Nodup := by
  rw [List.map_map]
  have hsub :
      ((ids.filterMap fun id => (r.find? id).filter p).map Subscription.id).Sublist ids := by
    clear h
    induction ids with
    | nil => exact List.Sublist.slnil
    | cons id ids ih =>
      cases hs : (r.find? id).filter p with
      | none =>
        simp only [List.filterMap_cons, hs]
        exact ih.cons id
      | some s =>
        have hid : s.id = id := Table.find?_key (Option.filter_eq_some_iff.mp hs).1
        simp only [List.filterMap_cons, hs, List.map_cons, hid]
        exact ih.cons_cons id
  exact h.sublist hsub

theorem forEvent_coherent {k : Keyspace} {r : Registry} (h : Coherent k r) {event : String}
    (tenant : Option String) {ids : List SubscriptionId}
    (hids : Lists (k.sets (eventKey event)) ids) : ∃ subs, forEvent k ids tenant = some subs ∧
      (subs.map (·.id)).Nodup ∧ Selected r.rows event tenant subs := by
  refine ⟨_, collect_coherent h tenant ids, nodup_selected r _ hids.1, fun x => ?_⟩
  have hmem : ∀ id, id ∈ ids ↔ ∃ s, r.find? id = some s ∧ event ∈ s.events := by
    intro id
    rw [← List.mem_toFinset, hids.2, h.listed]
    simp [Listed, eventKey_inj, (ownerKey_ne_eventKey _ event).symm]
  rw [List.mem_map]
  constructor
  · rintro ⟨s, hs, rfl⟩
    obtain ⟨id, hid, hs⟩ := List.mem_filterMap.mp hs
    obtain ⟨hs, hadmitted⟩ := Option.filter_eq_some_iff.mp hs
    obtain ⟨s', hs', hevent⟩ := (hmem id).mp hid
    cases hs.symm.trans hs'
    obtain rfl := Table.find?_key hs
    refine ⟨s, (Table.find?_eq_some.mp hs).1, ?_, rfl⟩
    rw [Subscription.wanted, List.contains_iff_mem.mpr hevent, hadmitted]
    rfl
  · rintro ⟨s, hrow, hwanted, rfl⟩
    have hs := Table.find?_of_mem hrow
    rw [Subscription.wanted, Bool.and_eq_true, List.contains_iff_mem] at hwanted
    refine ⟨s, List.mem_filterMap.mpr ⟨s.id, (hmem s.id).mpr ⟨s, hs, hwanted.1⟩, ?_⟩, rfl⟩
    rw [hs, Option.filter_some_pos hwanted.2]

/-- **`for_event` answers from the calls**, each subscription once, and no index set keeps
the id of a deleted subscription. -/
theorem forEvent_standing (calls : List Call) (hfresh : FreshIds calls) (event : String)
    (tenant : Option String) (ids : List SubscriptionId)
    (hids : Lists ((store.serial .empty calls).1.sets (eventKey event)) ids) :
    (∃ subs, forEvent (store.serial .empty calls).1 ids tenant = some subs ∧
      (subs.map (·.id)).Nodup ∧
      ∀ x, x ∈ subs ↔ ∃ c since, Standing calls c since ∧ lastStatus c.id since ≠ some .paused ∧
        event ∈ c.events ∧ (∀ t, tenant = some t → c.ownerId = t) ∧
        x = c.subscription.snapshot) ∧
    ∀ id, Deleted calls id → ∀ key, id ∉ (store.serial .empty calls).1.sets key := by
  have hcoherent := coherent_serial hfresh
  obtain ⟨subs, hsubs, hnodup, hmem⟩ := forEvent_coherent hcoherent tenant hids
  refine ⟨⟨subs, hsubs, hnodup, fun x => ?_⟩, fun id hdeleted key hid => ?_⟩
  · rw [hmem]
    constructor
    · rintro ⟨s, hrow, hwanted, rfl⟩
      have hs := Table.find?_of_mem hrow
      obtain ⟨c, since, hid, hstanding⟩ := Registry.standing_of_find? hfresh hs
      obtain ⟨secret, hfound⟩ := Registry.find?_standing hfresh hstanding
      rw [← hid, hfound] at hs
      cases hs
      obtain ⟨hevent, hactive, howner⟩ := Subscription.wanted_iff.mp hwanted
      exact ⟨c, since, hstanding, lastStatus_active.mp hactive, hevent, howner, rfl⟩
    · rintro ⟨c, since, hstanding, hactive, hevent, howner, rfl⟩
      obtain ⟨secret, hfound⟩ := Registry.find?_standing hfresh hstanding
      refine ⟨{ c.subscription with
        status := (lastStatus c.id since).getD .active, secret := secret },
        (Table.find?_eq_some.mp hfound).1, ?_, rfl⟩
      exact Subscription.wanted_iff.mpr ⟨hevent, lastStatus_active.mpr hactive, howner⟩
  · obtain ⟨s, hs, -⟩ := (hcoherent.listed key id).mp hid
    rw [Registry.find?_of_deleted hfresh hdeleted] at hs
    cases hs

/-- Two owners, one subscription deleted and one paused and resumed. -/
def exampleCalls : List Call := [
  .create (exampleCreation "a" "owner-a"), .create (exampleCreation "b" "owner-b"), .pause "b",
  .create (exampleCreation "c" "owner-b"), .resume "b", .delete "a", .pause "a"]

theorem forEvent_standing_two_owners :
    (∃ subs, forEvent (store.serial .empty exampleCalls).1 ["c", "b"] (some "owner-b") =
      some subs ∧ (exampleCreation "b" "owner-b").subscription.snapshot ∈ subs) ∧
    "a" ∉ (store.serial .empty exampleCalls).1.sets (eventKey "order.paid") := by
  obtain ⟨⟨subs, hsubs, -, hmem⟩, hdeleted⟩ := forEvent_standing exampleCalls
    (by unfold FreshIds; decide) "order.paid" (some "owner-b") ["c", "b"]
    ⟨by decide, by decide +kernel⟩
  constructor
  · refine ⟨subs, hsubs, (hmem _).mpr ⟨exampleCreation "b" "owner-b", exampleCalls.drop 2, ?_⟩⟩
    refine ⟨⟨⟨exampleCalls.take 1, rfl⟩, ?_⟩, by decide, by decide, by decide, rfl⟩
    simp [exampleCalls, exampleCreation]
  · apply hdeleted
    exact ⟨exampleCalls.take 5, [.pause "a"], rfl, exampleCreation "a" "owner-a", rfl,
      List.mem_cons_self ..⟩

end WebhookEngine.Subscriptions.Redis
