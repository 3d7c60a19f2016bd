import WebhookEngine.Lib.Run
import WebhookEngine.Stores.Redis

/-!
# The status in the hash and the sorted sets

Redis keeps the state of a delivery twice: the status in its hash, which `get` reports,
and its membership in `ready` or `inflight`. Runs of complete calls on deliveries that
were each enqueued once, as pending.

* `agrees_claim`, `agrees_complete`, `agrees_enqueue`: these calls write both sides;
* `statuses_agree_iff`: `RECLAIM_LUA` moves the members alone, so that the two sides agree
  for as long as no reclaim finds a lease that has run out.
-/

namespace WebhookEngine.Stores.RedisStatuses

open Lib Lib.Run WebhookEngine.Stores.Queue WebhookEngine.Stores.Redis

/-! ## Runs -/

/-- The store, and the ids that were enqueued. -/
structure World where
  store : RedisState
  known : List DeliveryId

def init : World := ⟨empty, []⟩

inductive Label where
  | enqueueMany (records : List DeliveryRecord)
  | claimBatch (now : Datetime) (leaseTtlS batchSize : Nat)
  | reclaimStale (now : Datetime)
  | complete (id : DeliveryId) (c : Completion) (attempt : AttemptRecord)

/-- Records are enqueued pending and with fresh ids; completions are of known deliveries. -/
def step (historyLimit : Nat) (w : World) : Label → Option World
  | .enqueueMany rs =>
    if (rs.map (·.deliveryId)).Nodup ∧ ∀ r ∈ rs, r.status = .pending ∧ r.deliveryId ∉ w.known then
      (enqueueMany w.store rs).map fun s => ⟨s, rs.map (·.deliveryId) ++ w.known⟩
    else none
  | .claimBatch now ttl n => some { w with store := (claimBatch w.store now ttl n).2 }
  | .reclaimStale now => some { w with store := (reclaimStale w.store now).2 }
  | .complete id c a =>
    if id ∈ w.known then
      some { w with store := execAll w.store (complete historyLimit id a c) }
    else none

/-! ## Agreement -/

/-- The status that `get` reports. -/
def reported (s : RedisState) (id : DeliveryId) : Option DeliveryStatus :=
  (get s id).map (·.status)

def isReady (s : RedisState) (id : DeliveryId) : Bool := (s.ready.find? id).isSome

def isInflight (s : RedisState) (id : DeliveryId) : Bool := (s.inflight.find? id).isSome

/-- The reported status of a delivery agrees with the two sets. -/
structure Agrees (s : RedisState) (id : DeliveryId) : Prop where
  known : (reported s id).isSome = true
  inflight : reported s id = some .inFlight ↔ isInflight s id = true
  ready : reported s id = some .pending ∨ reported s id = some .failedRetry ↔ isReady s id = true
  settled : reported s id = some .sent ∨ reported s id = some .deadLettered ↔
    isReady s id = false ∧ isInflight s id = false

structure Consistent (w : World) : Prop where
  agrees : ∀ id ∈ w.known, Agrees w.store id
  disjoint : ∀ id, ¬ (isReady w.store id = true ∧ isInflight w.store id = true)

theorem reported_congr {s t : RedisState} {id : DeliveryId} (h : t.hashOf id = s.hashOf id) :
    reported t id = reported s id := by
  rw [reported, Redis.get, h]
  rfl

theorem agrees_congr {s t : RedisState} {id : DeliveryId} (hat : at_ t id = at_ s id)
    (h : Agrees s id) : Agrees t id := by
  have hreported : reported t id = reported s id := reported_congr (congrArg Prod.fst hat)
  have hready : isReady t id = isReady s id := congrArg (·.2.1.isSome) hat
  have hinflight : isInflight t id = isInflight s id := congrArg (·.2.2.isSome) hat
  constructor
  · rw [hreported]
    exact h.known
  · rw [hreported, hinflight]
    exact h.inflight
  · rw [hreported, hready]
    exact h.ready
  · rw [hreported, hready, hinflight]
    exact h.settled

/-- The hash and the members that belong together. -/
theorem agrees_of_at {s : RedisState} {id : DeliveryId} {h : Hash} {q : DeliveryRecord}
    {ready inflight : Option (DeliveryId × Int)} (hat : at_ s id = (some h, ready, inflight))
    (hq : hashToRecord h = some q) (hst : q.status ≠ .cancelled)
    (hready : ready.isSome = q.status.claimable)
    (hinflight : inflight.isSome = decide (q.status = .inFlight)) : Agrees s id := by
  have hreported : reported s id = some q.status := by
    rw [reported, get_of_hash hat hq, Option.map_some]
  have hready' : isReady s id = q.status.claimable :=
    (congrArg (·.2.1.isSome) hat).trans hready
  have hinflight' : isInflight s id = decide (q.status = .inFlight) :=
    (congrArg (·.2.2.isSome) hat).trans hinflight
  constructor
  · rw [hreported]
    rfl
  all_goals
    rw [hreported]
    simp only [hready', hinflight']
    cases hs : q.status <;> simp_all [DeliveryStatus.claimable]

theorem not_both_of_agrees {s : RedisState} {id : DeliveryId} (h : Agrees s id) :
    ¬ (isReady s id = true ∧ isInflight s id = true) := by
  rintro ⟨hready, hinflight⟩
  have hst := h.inflight.mpr hinflight
  rcases h.ready.mpr hready with h' | h' <;> rw [hst] at h' <;> cases h'

/-! ## The invariant -/

structure Sound (w : World) : Prop where
  readable : Readable w.store
  agrees : ∀ id ∈ w.known, Agrees w.store id
  unknown : ∀ id, id ∉ w.known → at_ w.store id = (none, none, none)

theorem sound_init : Sound init := by
  constructor
  · intro id h hh
    cases hh
  · intro id hid
    cases hid
  · intro id _
    rfl

theorem consistent_of_sound {w : World} (hw : Sound w) : Consistent w := by
  refine ⟨hw.agrees, fun id => ?_⟩
  by_cases hid : id ∈ w.known
  · exact not_both_of_agrees (hw.agrees id hid)
  · rintro ⟨hready, -⟩
    have hnone : w.store.ready.find? id = none := congrArg (·.2.1) (hw.unknown id hid)
    rw [isReady, hnone] at hready
    cases hready

/-- The hash of a delivery that agrees. -/
theorem hash_of_agrees {s : RedisState} {id : DeliveryId} (h : Agrees s id) :
    ∃ x q, s.hashOf id = some x ∧ hashToRecord x = some q ∧ reported s id = some q.status := by
  obtain ⟨q, hq⟩ := Option.isSome_iff_exists.mp (Option.isSome_map ▸ h.known)
  obtain ⟨x, hx, hrec⟩ := Option.bind_eq_some_iff.mp hq
  exact ⟨x, q, hx, hrec, by rw [reported, hq, Option.map_some]⟩

/-! ### Calls that write both sides -/

theorem agrees_enqueue {s : RedisState} {rs : List DeliveryRecord} {cs : List Command}
    (hcs : enqueuePipeline rs = some cs) (hn : (rs.map (·.deliveryId)).Nodup)
    {r : DeliveryRecord} (hr : r ∈ rs) (hpending : r.status = .pending)
    (hfresh : at_ s r.deliveryId = (none, none, none)) :
    Agrees (execAll s cs) r.deliveryId := by
  obtain ⟨data, -, hat⟩ := at_enqueuePipeline hcs hn hr s
  have hinflight : s.inflight.find? r.deliveryId = none := congrArg (·.2.2) hfresh
  have hst : (stored r data).status = .pending := hpending
  refine agrees_of_at hat (hashToRecord_recordFields _ r data) ?_ ?_ ?_ <;> rw [hst]
  · decide
  · rfl
  · rw [hinflight]
    rfl

theorem agrees_claim {s : RedisState} (hs : Readable s) {id : DeliveryId} (h : Agrees s id)
    (now : Datetime) (ttl n : Nat) : Agrees (claimBatch s now ttl n).2 id := by
  by_cases hm : ∃ q ∈ (claimScript s (toMs now) (toMs now + ttl * 1000) n).1.filterMap (get s),
      q.deliveryId = id
  · obtain ⟨q, hq, rfl⟩ := hm
    obtain ⟨x, -, hrec, -, hat⟩ := at_claimed hs hq
    exact agrees_of_at hat (hashToRecord_status hrec .inFlight) (by simp) rfl rfl
  · have hne : ∀ q ∈ (claimScript s (toMs now) (toMs now + ttl * 1000) n).1.filterMap (get s),
        q.deliveryId ≠ id := fun q hq he => hm ⟨q, hq, he⟩
    rcases at_unclaimed hs hne with hat | ⟨-, hnone, -⟩
    · exact agrees_congr hat h
    · obtain ⟨x, q, hx, -⟩ := hash_of_agrees h
      rw [hnone] at hx
      cases hx

theorem agrees_complete {s : RedisState} {id : DeliveryId} (h : Agrees s id) (limit : Nat)
    (a : AttemptRecord) (c : Completion) : Agrees (execAll s (complete limit id a c)) id := by
  obtain ⟨x, q, hx, hrec, -⟩ := hash_of_agrees h
  obtain ⟨x', hat, hrec'⟩ := at_completed hx hrec limit a c
  cases c with
  | sent => exact agrees_of_at hat hrec' (by simp [settled]) rfl rfl
  | retry t => exact agrees_of_at hat hrec' (by simp [settled]) rfl rfl
  | dead => exact agrees_of_at hat hrec' (by simp [settled]) rfl rfl
  | append =>
    have hsame : at_ (execAll s (complete limit id a .append)) id = at_ s id := rfl
    exact agrees_congr hsame h

/-! ### A reclaim -/

/-- No lease has run out when a reclaim looks for one. -/
def NothingStale (w : World) : Label → Prop
  | .reclaimStale now => ∀ m ∈ w.store.inflight.rows, ¬ (0 ≤ m.2 ∧ m.2 ≤ toMs now)
  | _ => True

/-- A reclaim that finds nothing changes nothing. -/
theorem at_reclaim_nothing {w : World} {now : Datetime} (h : NothingStale w (.reclaimStale now))
    (id : DeliveryId) : at_ (reclaimStale w.store now).2 id = at_ w.store id := by
  rw [at_reclaimStale, if_neg]
  intro hstale
  obtain ⟨score, hscore, hrange⟩ := mem_rangeByScore.mp hstale
  exact h _ (Table.find?_eq_some.mp hscore).1 hrange

/-- A delivery whose lease has run out becomes ready, and is still reported in flight. -/
theorem reclaimed_disagrees {s : RedisState} {id : DeliveryId} (h : Agrees s id) {score : Int}
    {now : Datetime} (hscore : s.inflight.find? id = some (id, score))
    (hrange : 0 ≤ score ∧ score ≤ toMs now) : ¬ Agrees (reclaimStale s now).2 id := by
  intro h'
  have hat := at_reclaimStale s now id
  rw [if_pos (mem_rangeByScore.mpr ⟨score, hscore, hrange⟩)] at hat
  have hleased : isInflight s id = true := by rw [isInflight, hscore]; rfl
  have hreported : reported (reclaimStale s now).2 id = reported s id :=
    reported_congr (congrArg Prod.fst hat)
  have hinflight : isInflight (reclaimStale s now).2 id = false := congrArg (·.2.2.isSome) hat
  have hback := h'.inflight.mp (hreported.trans (h.inflight.mpr hleased))
  rw [hinflight] at hback
  cases hback

/-! ## One step -/

theorem sound_enqueueMany {limit : Nat} {w w' : World} (hw : Sound w) {rs : List DeliveryRecord}
    (h : step limit w (.enqueueMany rs) = some w') : Sound w' := by
  obtain ⟨⟨hn, hfresh⟩, h⟩ := Option.ite_none_right_eq_some.mp h
  obtain ⟨s, hs, rfl⟩ := Option.map_eq_some_iff.mp h
  obtain ⟨cs, hcs, rfl⟩ := Option.map_eq_some_iff.mp hs
  constructor
  · exact readable_enqueuePipeline hcs hw.readable
  · intro id hid
    by_cases hm : id ∈ rs.map (·.deliveryId)
    · obtain ⟨r, hr, rfl⟩ := List.mem_map.mp hm
      obtain ⟨hpending, hnew⟩ := hfresh r hr
      exact agrees_enqueue hcs hn hr hpending (hw.unknown _ hnew)
    · have hold := (List.mem_append.mp hid).resolve_left hm
      have hne : ∀ r ∈ rs, r.deliveryId ≠ id := fun r hr he => hm (he ▸ List.mem_map_of_mem hr)
      exact agrees_congr (at_enqueuePipeline_other hcs hne w.store) (hw.agrees id hold)
  · intro id hid
    obtain ⟨hnew, hold⟩ := not_or.mp (mt List.mem_append.mpr hid)
    have hne : ∀ r ∈ rs, r.deliveryId ≠ id := fun r hr he => hnew (he ▸ List.mem_map_of_mem hr)
    exact (at_enqueuePipeline_other hcs hne w.store).trans (hw.unknown id hold)

/-- **Step lemma.** Only a reclaim that finds something breaks the invariant. -/
theorem sound_step {limit : Nat} {w w' : World} {a : Label} (hw : Sound w)
    (ha : NothingStale w a) (h : step limit w a = some w') : Sound w' := by
  cases a with
  | enqueueMany rs => exact sound_enqueueMany hw h
  | claimBatch now ttl n =>
    cases h
    constructor
    · exact readable_claimBatch hw.readable now ttl n
    · intro id hid
      exact agrees_claim hw.readable (hw.agrees id hid) now ttl n
    · intro id hid
      exact at_claimBatch_fresh hw.readable (hw.unknown id hid) now ttl n
  | reclaimStale now =>
    cases h
    constructor
    · exact readable_reclaimStale hw.readable now
    · intro id hid
      exact agrees_congr (at_reclaim_nothing ha id) (hw.agrees id hid)
    · intro id hid
      exact (at_reclaim_nothing ha id).trans (hw.unknown id hid)
  | complete id c a =>
    obtain ⟨hid, h⟩ := Option.ite_none_right_eq_some.mp h
    cases h
    obtain ⟨x, q, hx, -⟩ := hash_of_agrees (hw.agrees id hid)
    constructor
    · exact readable_complete hw.readable (by rw [hx]; rfl) limit a c
    · intro id' hid'
      by_cases he : id' = id
      · subst he
        exact agrees_complete (hw.agrees id' hid') limit a c
      · exact agrees_congr (at_complete_other w.store limit he a c) (hw.agrees id' hid')
    · intro id' hid'
      have hne : id' ≠ id := fun he => hid' (he ▸ hid)
      exact (at_complete_other w.store limit hne a c).trans (hw.unknown id' hid')

/-- The state a call leaves is consistent. -/
def LeavesConsistent (limit : Nat) (w : World) (a : Label) : Prop :=
  ∀ w', step limit w a = some w' → Consistent w'

theorem leavesConsistent_iff {limit : Nat} {w w' : World} {a : Label} (hw : Sound w)
    (h : step limit w a = some w') : LeavesConsistent limit w a ↔ NothingStale w a := by
  constructor
  · intro hleaves
    cases a with
    | reclaimStale now =>
      rintro ⟨id, score⟩ hm hrange
      have hscore := Table.find?_of_mem hm
      have hid : id ∈ w.known := by
        by_contra hid
        have hnone : w.store.inflight.find? id = none := congrArg (·.2.2) (hw.unknown id hid)
        rw [hnone] at hscore
        cases hscore
      exact reclaimed_disagrees (hw.agrees id hid) hscore hrange ((hleaves _ rfl).agrees id hid)
    | enqueueMany rs => trivial
    | claimBatch now ttl n => trivial
    | complete id c a => trivial
  · intro ha v hv
    exact consistent_of_sound (sound_step hw ha hv)

/-! ## Runs -/

/-- **Status and queue.** Every state of a run, no key expiring, is consistent if and only if no
reclaim of the run finds a lease that has run out. -/
theorem statuses_agree_iff (limit : Nat) (as : List Label) (w : World)
    (h : run (step limit) init as = some w) :
    Along (step limit) (LeavesConsistent limit) init as ↔ Along (step limit) NothingStale init as :=
  along_iff (I := Sound) (fun _ _ _ hw hstep => leavesConsistent_iff hw hstep)
    (fun _ _ _ hw ha hstep => sound_step hw ha hstep) sound_init h

def statusRecord : DeliveryRecord := exampleRecord "d" "https://example.com/hook"

def statusAttempt : AttemptRecord := ⟨1, 1, some 500, 3, none, "", [], false⟩

/-- A retry, a reclaim before the second lease has run out, and two late reports. -/
def retriedTwice : List Label := [.enqueueMany [statusRecord], .claimBatch 0 30 50,
  .complete "d" (.retry 5) statusAttempt, .claimBatch 6 30 50, .reclaimStale 20,
  .complete "d" .sent statusAttempt, .complete "d" (.retry 40) statusAttempt]

theorem statuses_agree_iff_retriedTwice :
    ∃ w, run (step 20) init retriedTwice = some w ∧
      (Along (step 20) (LeavesConsistent 20) init retriedTwice ↔
        Along (step 20) NothingStale init retriedTwice) := by
  obtain ⟨w, hw⟩ := Option.isSome_iff_exists.mp (by decide +kernel :
    (run (step 20) init retriedTwice).isSome = true)
  exact ⟨w, hw, statuses_agree_iff 20 retriedTwice w hw⟩

/-- The worker that held the lease is gone: the delivery waits in `ready`, and `get`
reports it in flight. -/
theorem reclaimed_reported_inflight : ¬ Along (step 20) (LeavesConsistent 20) init
    ([.enqueueMany [statusRecord], .claimBatch 0 30 50] ++ [.reclaimStale 31]) := by
  obtain ⟨u, hu, hready⟩ := (Option.any_eq_true ..).mp (by decide +kernel :
    (run (step 20) init [.enqueueMany [statusRecord], .claimBatch 0 30 50]).any (fun u =>
      "d" ∈ u.known ∧ reported (reclaimStale u.store 31).2 "d" = some .inFlight ∧
        isInflight (reclaimStale u.store 31).2 "d" = false) = true)
  obtain ⟨hid, hst, hinflight⟩ := of_decide_eq_true hready
  intro h
  have hagrees := (along_at h hu _ rfl).agrees "d" hid
  have hback := hagrees.inflight.mp hst
  rw [hinflight] at hback
  cases hback

end WebhookEngine.Stores.RedisStatuses
