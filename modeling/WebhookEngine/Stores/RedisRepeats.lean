import WebhookEngine.Lib.Run
import WebhookEngine.Stores.Redis

/-!
# Repeated enqueues in Redis

`enqueue_many` writes the hash and the member of `ready` without a look at what is
there. Runs of complete calls in which records are enqueued under ids that are stored,
at any time of the delivery's life and with any fields.

* `unseen_iff`: two states with the same leases look the same to `claim_batch`,
  `reclaim_stale` and `get` if and only if they have the same records and the same
  members of `ready` that a claim can find;
* `repeat_unseen_iff`: the second enqueue shows, unless the record is the stored one and
  the delivery waits for its `fire_at`;
* `held_iff`: a delivery that is pending, or waits for a retry, does.
-/

namespace WebhookEngine.Stores.RedisRepeats

open Lib Lib.Run WebhookEngine.Stores.Queue WebhookEngine.Stores.Redis

/-! ## Runs -/

inductive Label where
  /-- Records under ids that are not in use. -/
  | enqueueMany (records : List DeliveryRecord)
  /-- The same call, with any records under ids that are stored. -/
  | enqueueAgain (records : List DeliveryRecord)
  | claimBatch (now : Datetime) (leaseTtlS batchSize : Nat)
  | reclaimStale (now : Datetime)
  | complete (id : DeliveryId) (c : Completion) (attempt : AttemptRecord)

def step (historyLimit : Nat) (s : RedisState) : Label → Option RedisState
  | .enqueueMany rs =>
    if (rs.map (·.deliveryId)).Nodup ∧ ∀ r ∈ rs, (s.hashOf r.deliveryId).isSome = false then
      enqueueMany s rs
    else none
  | .enqueueAgain rs =>
    if (rs.map (·.deliveryId)).Nodup ∧ ∀ r ∈ rs, (s.hashOf r.deliveryId).isSome = true then
      enqueueMany s rs
    else none
  | .claimBatch now ttl n => some (claimBatch s now ttl n).2
  | .reclaimStale now => some (reclaimStale s now).2
  | .complete id c a =>
    if (s.hashOf id).isSome = true then some (execAll s (complete historyLimit id a c)) else none

/-! ## What can be observed -/

inductive Observer where
  | claimBatch (now : Datetime) (leaseTtlS batchSize : Nat)
  | reclaimStale (now : Datetime)
  | get (id : DeliveryId)

inductive Observation where
  | records (rs : Option (List DeliveryRecord))
  | count (n : Nat)
  | record (r : Option DeliveryRecord)
  deriving DecidableEq

def observe (s : RedisState) : Observer → Observation × RedisState
  | .claimBatch now ttl n => ((.records (claimBatch s now ttl n).1), (claimBatch s now ttl n).2)
  | .reclaimStale now => ((.count (reclaimStale s now).1), (reclaimStale s now).2)
  | .get id => (.record (get s id), s)

/-- What a sequence of calls returns. -/
def observations : RedisState → List Observer → List Observation
  | _, [] => []
  | s, o :: os => (observe s o).1 :: observations (observe s o).2 os

def Unseen (s t : RedisState) : Prop := ∀ os, observations t os = observations s os

theorem Unseen.symm {s t : RedisState} (h : Unseen s t) : Unseen t s := fun os => (h os).symm

theorem get_of_unseen {s t : RedisState} (h : Unseen s t) (id : DeliveryId) :
    get t id = get s id := by
  have hout := h [.get id]
  simpa [observations, observe] using hout

/-! ## What a state shows -/

/-- `ZRANGEBYSCORE` looks from 0 on. -/
def found (score : Option Int) : Option Int := score.filter (0 ≤ ·)

/-- What a claim finds of a delivery. -/
def score (set : ZSet) (id : DeliveryId) : Option Int := found ((set.find? id).map (·.2))

def sightAt (x : Option Hash × Option (DeliveryId × Int) × Option (DeliveryId × Int)) :
    Option DeliveryRecord × Option Int × Option (DeliveryId × Int) :=
  (x.1.bind hashToRecord, found (x.2.1.map (·.2)), x.2.2)

/-- The record of a delivery, its score in `ready` and its lease. -/
def sight (s : RedisState) (id : DeliveryId) :
    Option DeliveryRecord × Option Int × Option (DeliveryId × Int) := sightAt (at_ s id)

theorem score_eq_some {set : ZSet} {id : DeliveryId} {ms : Int} :
    score set id = some ms ↔ set.find? id = some (id, ms) ∧ 0 ≤ ms := by
  rw [score, found, Option.filter_eq_some_iff, Option.map_eq_some_iff, decide_eq_true_eq]
  constructor
  · rintro ⟨⟨m, hm, rfl⟩, hle⟩
    obtain rfl := Table.find?_key hm
    exact ⟨hm, hle⟩
  · rintro ⟨hfind, hle⟩
    exact ⟨⟨_, hfind, rfl⟩, hle⟩

theorem mem_rangeByScore_iff {set : ZSet} {nowMs : Int} {id : DeliveryId} :
    id ∈ rangeByScore set nowMs ↔ ∃ ms, score set id = some ms ∧ ms ≤ nowMs := by
  simp only [mem_rangeByScore, score_eq_some, and_assoc]

/-- The order of a sorted set. -/
abbrev Before (m m' : DeliveryId × Int) : Prop := m.2 < m'.2 ∨ m.2 = m'.2 ∧ m.1 ≤ m'.1

instance : Std.Total Before where
  total m m' := by
    rcases lt_trichotomy m.2 m'.2 with hlt | heq | hlt
    · exact .inl (.inl hlt)
    · exact (String.le_total m.1 m'.1).imp (fun hle => .inr ⟨heq, hle⟩)
        fun hle => .inr ⟨heq.symm, hle⟩
    · exact .inr (.inl hlt)

instance : IsTrans (DeliveryId × Int) Before where
  trans a b c hab hbc := by
    rcases hab with hab | ⟨hab, hab'⟩
    · exact .inl (hbc.elim hab.trans fun h => h.1 ▸ hab)
    · exact hbc.imp (hab ▸ ·) fun h => ⟨hab.trans h.1, String.le_trans hab' h.2⟩

theorem before_antisymm {l l' : List (DeliveryId × Int)} (m m' : DeliveryId × Int) (_ : m ∈ l)
    (_ : m' ∈ l') (h : Before m m') (h' : Before m' m) : m = m' := by
  rcases h with hlt | ⟨heq, hle⟩
  · exact absurd h' (by rintro (hlt' | ⟨heq', -⟩) <;> omega)
  · have hle' := (h'.resolve_left (by omega)).2
    exact Prod.ext (String.le_antisymm hle hle') heq

/-- A range is a matter of the scores alone, not of the order in which they were written. -/
theorem rangeByScore_congr {set set' : ZSet} (h : ∀ id, score set' id = score set id)
    (nowMs : Int) : rangeByScore set' nowMs = rangeByScore set nowMs := by
  have hmem : ∀ (z : ZSet) (m : DeliveryId × Int),
      m ∈ z.rows.filter (fun m => decide (0 ≤ m.2) && decide (m.2 ≤ nowMs)) ↔
        score z m.1 = some m.2 ∧ m.2 ≤ nowMs := by
    intro z m
    rw [List.mem_filter, score_eq_some, Table.find?_eq_some, Bool.and_eq_true, decide_eq_true_eq,
      decide_eq_true_eq, and_iff_left rfl, and_assoc]
  have hnodup : ∀ z : ZSet,
      (z.rows.filter fun m => decide (0 ≤ m.2) && decide (m.2 ≤ nowMs)).Nodup :=
    fun z => (List.Nodup.of_map _ z.nodup).filter _
  have hperm := (List.perm_ext_iff_of_nodup (hnodup set') (hnodup set)).mpr fun m => by
    rw [hmem, hmem, h]
  refine congrArg (List.map (·.1)) (List.Perm.eq_of_pairwise before_antisymm
    (List.pairwise_insertionSort Before _) (List.pairwise_insertionSort Before _) ?_)
  exact ((List.perm_insertionSort _ _).trans hperm).trans (List.perm_insertionSort _ _).symm

/-! ### Calls -/

theorem sight_claimBatch {s : RedisState} (hs : Readable s) (now : Datetime) (ttl n : Nat)
    (id : DeliveryId) : sight (claimBatch s now ttl n).2 id =
      if id ∈ (claimScript s (toMs now) (toMs now + ttl * 1000) n).1 then
        ((get s id).map fun r => { r with status := .inFlight }, none,
          some (id, toMs now + ttl * 1000))
      else sight s id := by
  by_cases hread : ∃ r ∈ (claimScript s (toMs now) (toMs now + ttl * 1000) n).1.filterMap (get s),
      r.deliveryId = id
  · obtain ⟨r, hr, rfl⟩ := hread
    obtain ⟨h, hh, hrec, -, hat⟩ := at_claimed hs hr
    obtain ⟨id, hid, hget⟩ := List.mem_filterMap.mp hr
    obtain rfl := get_deliveryId hs hget
    rw [if_pos hid, sight, hat, hget]
    exact Prod.ext (hashToRecord_status hrec .inFlight) rfl
  · have hne : ∀ r ∈ (claimScript s (toMs now) (toMs now + ttl * 1000) n).1.filterMap (get s),
        r.deliveryId ≠ id := fun r hr he => hread ⟨r, hr, he⟩
    rw [sight, at_claimBatch_unread hs hne, at_claimScript]
    by_cases hid : id ∈ (claimScript s (toMs now) (toMs now + ttl * 1000) n).1
    · rw [if_pos hid, if_pos hid]
      -- a member of `ready` without a hash
      cases hget : get s id with
      | none => exact Prod.ext hget rfl
      | some r =>
        exact absurd (get_deliveryId hs hget) (hne r (List.mem_filterMap.mpr ⟨id, hid, hget⟩))
    · rw [if_neg hid, if_neg hid, sight]

theorem sight_reclaimStale (s : RedisState) (now : Datetime) (id : DeliveryId) :
    sight (reclaimStale s now).2 id =
      if id ∈ rangeByScore s.inflight (toMs now) then (get s id, found (some (toMs now)), none)
      else sight s id := by
  rw [sight, at_reclaimStale]
  split <;> rfl

/-- Two states that show the same. -/
structure Alike (s t : RedisState) : Prop where
  left : Readable s
  right : Readable t
  sight : ∀ id, sight t id = sight s id

theorem Alike.get {s t : RedisState} (h : Alike s t) : get t = get s :=
  funext fun id => congrArg Prod.fst (h.sight id)

theorem Alike.claimed {s t : RedisState} (h : Alike s t) (nowMs leaseMs : Int) (n : Nat) :
    (claimScript t nowMs leaseMs n).1 = (claimScript s nowMs leaseMs n).1 :=
  congrArg (List.take n) (rangeByScore_congr (fun id => congrArg (·.2.1) (h.sight id)) nowMs)

theorem Alike.stale {s t : RedisState} (h : Alike s t) (nowMs : Int) :
    rangeByScore t.inflight nowMs = rangeByScore s.inflight nowMs := by
  refine rangeByScore_congr (fun id => ?_) nowMs
  have hlease : t.inflight.find? id = s.inflight.find? id := congrArg (·.2.2) (h.sight id)
  rw [score, hlease, score]

/-- **Step lemma.** A call returns the same of both, and leaves them alike. -/
theorem alike_observe {s t : RedisState} (h : Alike s t) (o : Observer) :
    (observe t o).1 = (observe s o).1 ∧ Alike (observe s o).2 (observe t o).2 := by
  cases o with
  | claimBatch now ttl n =>
    refine ⟨?_, readable_claimBatch h.left now ttl n, readable_claimBatch h.right now ttl n, ?_⟩
    · simp only [observe, claimBatch_eq h.left, claimBatch_eq h.right, h.claimed, h.get]
    · intro id
      simp only [observe, sight_claimBatch h.left, sight_claimBatch h.right, h.claimed, h.get,
        h.sight]
  | reclaimStale now =>
    refine ⟨?_, readable_reclaimStale h.left now, readable_reclaimStale h.right now, ?_⟩
    · have hcount : (reclaimStale t now).1 = (reclaimStale s now).1 :=
        congrArg List.length (h.stale (toMs now))
      simp only [observe, hcount]
    · intro id
      simp only [observe, sight_reclaimStale, h.stale, h.get, h.sight]
  | get id =>
    refine ⟨?_, h⟩
    simp only [observe, h.get]

/-- Deliveries that are found at a score in `t` are found at no later one in `s`. -/
theorem score_le_of_unseen {s t : RedisState} (hs : Readable s) (ht : Readable t)
    (h : Unseen s t) {id : DeliveryId} (hid : (get t id).isSome = true) {ms : Int}
    (hms : score t.ready id = some ms) : ∃ ms', score s.ready id = some ms' ∧ ms' ≤ ms := by
  obtain ⟨q, hq⟩ := Option.isSome_iff_exists.mp hid
  -- a claim at this very score, of as many as there are
  have hout := h [.claimBatch (fromMs ms) 0 (rangeByScore t.ready (toMs (fromMs ms))).length]
  simp only [observations, observe, claimBatch_eq hs, claimBatch_eq ht, claimScript,
    List.take_length, List.cons.injEq, and_true, Observation.records.injEq, Option.some.injEq,
    toMs_fromMs] at hout
  have hmem : id ∈ rangeByScore t.ready ms := mem_rangeByScore_iff.mpr ⟨ms, hms, le_refl ms⟩
  have hread := List.mem_map_of_mem (f := fun r : DeliveryRecord => { r with status := .inFlight })
    (List.mem_filterMap.mpr ⟨id, hmem, hq⟩)
  rw [hout] at hread
  obtain ⟨r, hr, he⟩ := List.mem_map.mp hread
  obtain ⟨id', hid', hget⟩ := List.mem_filterMap.mp hr
  have hkey : r.deliveryId = q.deliveryId := (DeliveryRecord.mk.inj he).1
  rw [get_deliveryId hs hget, get_deliveryId ht hq] at hkey
  rw [hkey] at hid'
  exact mem_rangeByScore_iff.mp (List.mem_of_mem_take hid')

theorem score_of_unseen {s t : RedisState} (hs : Readable s) (ht : Readable t) (h : Unseen s t)
    {id : DeliveryId} (hid : (get t id).isSome = true) : score t.ready id = score s.ready id := by
  have hid' : (get s id).isSome = true := by rwa [← get_of_unseen h]
  cases hms : score t.ready id with
  | some ms =>
    obtain ⟨ms', hms', hle⟩ := score_le_of_unseen hs ht h hid hms
    obtain ⟨ms'', hms'', hge⟩ := score_le_of_unseen ht hs h.symm hid' hms'
    rw [hms] at hms''
    cases hms''
    rw [hms', le_antisymm hge hle]
  | none =>
    cases hms' : score s.ready id with
    | none => rfl
    | some ms' =>
      obtain ⟨ms, hms'', -⟩ := score_le_of_unseen ht hs h.symm hid' hms'
      rw [hms] at hms''
      cases hms''

theorem unseen_of_alike {s t : RedisState} (h : Alike s t) : Unseen s t := by
  intro os
  induction os generalizing s t with
  | nil => rfl
  | cons o os ih =>
    obtain ⟨hout, hnext⟩ := alike_observe h o
    rw [observations, observations, hout, ih hnext]

/-- **What shows.** States with the same leases, of which each delivery in `ready` has a hash,
wherever they differ. -/
theorem unseen_iff {s t : RedisState} (hs : Readable s) (ht : Readable t)
    (hlease : ∀ id, t.inflight.find? id = s.inflight.find? id)
    (hdiffer : ∀ id, (get t id).isSome = true ∨ at_ t id = at_ s id) :
    Unseen s t ↔ ∀ id, sight t id = sight s id := by
  refine ⟨fun h id => ?_, fun h => unseen_of_alike ⟨hs, ht, h⟩⟩
  rcases hdiffer id with hid | hat
  · exact Prod.ext (get_of_unseen h id) (Prod.ext (score_of_unseen hs ht h hid) (hlease id))
  · rw [sight, hat, sight]

/-! ## A second enqueue -/

/-- The hash says what the record says, and a claim finds the delivery at the record's
`fire_at`. -/
structure Held (s : RedisState) (r : DeliveryRecord) : Prop where
  record : ∃ data, decodeUtf8 r.dataJson = some data ∧ get s r.deliveryId = some (stored r data)
  ready : score s.ready r.deliveryId = found (some (toMs r.fireAt))

instance (s : RedisState) (r : DeliveryRecord) : Decidable (Held s r) :=
  decidable_of_iff ((decodeUtf8 r.dataJson).any
      (fun data => get s r.deliveryId = some (stored r data)) = true ∧
    score s.ready r.deliveryId = found (some (toMs r.fireAt)))
    ⟨fun ⟨hget, hready⟩ => ⟨by simpa [Option.any_eq_true] using hget, hready⟩,
      fun h => ⟨by simpa [Option.any_eq_true] using h.record, h.ready⟩⟩

/-- A second enqueue shows nowhere. -/
def NotSeen (limit : Nat) (s : RedisState) : Label → Prop
  | .enqueueAgain rs => ∀ t, step limit s (.enqueueAgain rs) = some t → Unseen s t
  | _ => True

/-- A second enqueue is of records that the store holds. -/
def AllHeld (s : RedisState) : Label → Prop
  | .enqueueAgain rs => ∀ r ∈ rs, Held s r
  | _ => True

instance (s : RedisState) : (a : Label) → Decidable (AllHeld s a)
  | .enqueueAgain rs => inferInstanceAs (Decidable (∀ r ∈ rs, Held s r))
  | .enqueueMany _ | .claimBatch .. | .reclaimStale _ | .complete .. =>
    inferInstanceAs (Decidable True)

/-- What an enqueue shows of the delivery of one of its records. -/
theorem sight_enqueued {rs : List DeliveryRecord} {cs : List Command}
    (h : enqueuePipeline rs = some cs) (hn : (rs.map (·.deliveryId)).Nodup) {r : DeliveryRecord}
    (hr : r ∈ rs) (s : RedisState) : ∃ data, decodeUtf8 r.dataJson = some data ∧
      sight (execAll s cs) r.deliveryId = (some (stored r data), found (some (toMs r.fireAt)),
        s.inflight.find? r.deliveryId) := by
  obtain ⟨data, hdata, hat⟩ := at_enqueuePipeline h hn hr s
  refine ⟨data, hdata, ?_⟩
  simp only [sight, hat, sightAt, Option.bind_some, hashToRecord_recordFields, Option.map_some]

/-- **Step lemma.** A second enqueue is not seen if and only if it is of records that the store
holds. -/
theorem notSeen_iff {limit : Nat} {s t : RedisState} (hs : Readable s) {a : Label}
    (h : step limit s a = some t) : NotSeen limit s a ↔ AllHeld s a := by
  cases a with
  | enqueueAgain rs =>
    have hnext : NotSeen limit s (.enqueueAgain rs) ↔ Unseen s t :=
      ⟨fun hseen => hseen t h, fun hseen u hu => by
        cases h.symm.trans hu
        exact hseen⟩
    obtain ⟨⟨hn, -⟩, h⟩ := Option.ite_none_right_eq_some.mp h
    obtain ⟨cs, hcs, rfl⟩ := Option.map_eq_some_iff.mp h
    have hother : ∀ id, (∀ r ∈ rs, r.deliveryId ≠ id) → at_ (execAll s cs) id = at_ s id :=
      fun id hid => at_enqueuePipeline_other hcs hid s
    have hlease : ∀ id, (execAll s cs).inflight.find? id = s.inflight.find? id := by
      intro id
      by_cases hid : ∃ r ∈ rs, r.deliveryId = id
      · obtain ⟨r, hr, rfl⟩ := hid
        obtain ⟨data, -, hsight⟩ := sight_enqueued hcs hn hr s
        exact congrArg (·.2.2) hsight
      · exact congrArg (·.2.2) (hother id fun r hr he => hid ⟨r, hr, he⟩)
    have hdiffer : ∀ id, (get (execAll s cs) id).isSome = true ∨
        at_ (execAll s cs) id = at_ s id := by
      intro id
      by_cases hid : ∃ r ∈ rs, r.deliveryId = id
      · obtain ⟨r, hr, rfl⟩ := hid
        obtain ⟨data, -, hsight⟩ := sight_enqueued hcs hn hr s
        exact .inl (congrArg (Option.isSome ∘ Prod.fst) hsight)
      · exact .inr (hother id fun r hr he => hid ⟨r, hr, he⟩)
    rw [hnext, unseen_iff hs (readable_enqueuePipeline hcs hs) hlease hdiffer]
    constructor
    · intro hsame r hr
      obtain ⟨data, hdata, hsight⟩ := sight_enqueued hcs hn hr s
      have hbefore := (hsame r.deliveryId).symm.trans hsight
      exact ⟨⟨data, hdata, congrArg Prod.fst hbefore⟩, congrArg (·.2.1) hbefore⟩
    · intro hheld id
      by_cases hid : ∃ r ∈ rs, r.deliveryId = id
      · obtain ⟨r, hr, rfl⟩ := hid
        obtain ⟨data, hdata, hsight⟩ := sight_enqueued hcs hn hr s
        obtain ⟨data', hdata', hget⟩ := (hheld r hr).record
        cases hdata.symm.trans hdata'
        rw [hsight]
        exact Prod.ext hget.symm (Prod.ext (hheld r hr).ready.symm rfl)
      · rw [sight, hother id fun r hr he => hid ⟨r, hr, he⟩, sight]
  | enqueueMany rs => exact Iff.rfl
  | claimBatch now ttl n => exact Iff.rfl
  | reclaimStale now => exact Iff.rfl
  | complete id c a => exact Iff.rfl

theorem readable_step {limit : Nat} {s t : RedisState} {a : Label} (hs : Readable s)
    (h : step limit s a = some t) : Readable t := by
  cases a with
  | enqueueMany rs | enqueueAgain rs =>
    obtain ⟨-, h⟩ := Option.ite_none_right_eq_some.mp h
    obtain ⟨cs, hcs, rfl⟩ := Option.map_eq_some_iff.mp h
    exact readable_enqueuePipeline hcs hs
  | claimBatch now ttl n =>
    cases h
    exact readable_claimBatch hs now ttl n
  | reclaimStale now =>
    cases h
    exact readable_reclaimStale hs now
  | complete id c a =>
    obtain ⟨hid, h⟩ := Option.ite_none_right_eq_some.mp h
    cases h
    exact readable_complete hs hid limit a c

theorem readable_empty : Readable empty := fun _ _ h => by cases h

/-- **Repeated enqueues.** In every run of complete calls, no key expiring: no second
enqueue can be observed if and only if each is of records that the store holds as they
are. -/
theorem repeat_unseen_iff (limit : Nat) (as : List Label) (s : RedisState)
    (h : run (step limit) empty as = some s) :
    Along (step limit) (NotSeen limit) empty as ↔ Along (step limit) AllHeld empty as :=
  along_iff (I := Readable) (fun _ _ _ hs hstep => notSeen_iff hs hstep)
    (fun _ _ _ hs _ hstep => readable_step hs hstep) readable_empty h

/-! ## The life of a delivery -/

/-- A delivery that is pending or waits for a retry is in `ready` for its `fire_at`, and not
leased. -/
structure Waiting (s : RedisState) : Prop where
  readable : Readable s
  unknown : ∀ id, s.hashOf id = none → at_ s id = (none, none, none)
  ready : ∀ id q, get s id = some q → q.status.claimable = true →
    s.ready.find? id = some (id, toMs q.fireAt) ∧ s.inflight.find? id = none

theorem waiting_empty : Waiting empty where
  readable := readable_empty
  unknown _ _ := rfl
  ready _ _ h := by cases h

theorem waiting_congr {s t : RedisState} (hs : Waiting s) {id : DeliveryId}
    (hat : at_ t id = at_ s id) : (t.hashOf id = none → at_ t id = (none, none, none)) ∧
      ∀ q, get t id = some q → q.status.claimable = true →
        t.ready.find? id = some (id, toMs q.fireAt) ∧ t.inflight.find? id = none := by
  have hhash : t.hashOf id = s.hashOf id := congrArg Prod.fst hat
  have hready : t.ready.find? id = s.ready.find? id := congrArg (·.2.1) hat
  have hlease : t.inflight.find? id = s.inflight.find? id := congrArg (·.2.2) hat
  refine ⟨fun hnone => hat.trans (hs.unknown id (hhash.symm.trans hnone)), fun q hq hst => ?_⟩
  have hget : get t id = get s id := get_of_at hat
  rw [hready, hlease]
  exact hs.ready id q (hget.symm.trans hq) hst

theorem waiting_enqueued {s : RedisState} (hs : Waiting s) {rs : List DeliveryRecord}
    {cs : List Command} (hcs : enqueuePipeline rs = some cs)
    (hn : (rs.map (·.deliveryId)).Nodup)
    (hrs : ∀ r ∈ rs, r.status.claimable = true → s.inflight.find? r.deliveryId = none) :
    Waiting (execAll s cs) := by
  have hpart : ∀ id, ((execAll s cs).hashOf id = none →
      at_ (execAll s cs) id = (none, none, none)) ∧
      ∀ q, get (execAll s cs) id = some q → q.status.claimable = true →
        (execAll s cs).ready.find? id = some (id, toMs q.fireAt) ∧
          (execAll s cs).inflight.find? id = none := by
    intro id
    by_cases hid : ∃ r ∈ rs, r.deliveryId = id
    · obtain ⟨r, hr, rfl⟩ := hid
      obtain ⟨data, -, hat⟩ := at_enqueuePipeline hcs hn hr s
      have hget := get_of_hash hat (hashToRecord_recordFields _ r data)
      refine ⟨fun hnone => ?_, fun q hq hst => ?_⟩
      · cases hnone.symm.trans (congrArg Prod.fst hat)
      · cases hget.symm.trans hq
        have hfire : toMs (stored r data).fireAt = toMs r.fireAt := toMs_fromMs _
        rw [hfire]
        exact ⟨congrArg (·.2.1) hat, (congrArg (·.2.2) hat).trans (hrs r hr hst)⟩
    · exact waiting_congr hs (at_enqueuePipeline_other hcs (fun r hr he => hid ⟨r, hr, he⟩) s)
  exact ⟨readable_enqueuePipeline hcs hs.readable, fun id => (hpart id).1, fun id => (hpart id).2⟩

theorem waiting_claimBatch {s : RedisState} (hs : Waiting s) (now : Datetime) (ttl n : Nat) :
    Waiting (claimBatch s now ttl n).2 := by
  have hpart : ∀ id, ((claimBatch s now ttl n).2.hashOf id = none →
      at_ (claimBatch s now ttl n).2 id = (none, none, none)) ∧
      ∀ q, get (claimBatch s now ttl n).2 id = some q → q.status.claimable = true →
        (claimBatch s now ttl n).2.ready.find? id = some (id, toMs q.fireAt) ∧
          (claimBatch s now ttl n).2.inflight.find? id = none := by
    intro id
    by_cases hread : ∃ r ∈ (claimScript s (toMs now) (toMs now + ttl * 1000) n).1.filterMap
        (get s), r.deliveryId = id
    · obtain ⟨r, hr, rfl⟩ := hread
      obtain ⟨h, -, hrec, -, hat⟩ := at_claimed hs.readable hr
      have hget := get_of_hash hat (hashToRecord_status hrec .inFlight)
      refine ⟨fun hnone => ?_, fun q hq hst => ?_⟩
      · cases hnone.symm.trans (congrArg Prod.fst hat)
      · -- a claimed delivery is in flight
        cases hget.symm.trans hq
        cases hst
    · have hne : ∀ r ∈ (claimScript s (toMs now) (toMs now + ttl * 1000) n).1.filterMap (get s),
          r.deliveryId ≠ id := fun r hr he => hread ⟨r, hr, he⟩
      rcases at_unclaimed hs.readable hne with hat | ⟨hready, hnone, -⟩
      · exact waiting_congr hs hat
      · have hat : s.ready.find? id = none := congrArg (·.2.1) (hs.unknown id hnone)
        rw [hat] at hready
        cases hready
  exact ⟨readable_claimBatch hs.readable now ttl n, fun id => (hpart id).1,
    fun id => (hpart id).2⟩

theorem waiting_reclaimStale {s : RedisState} (hs : Waiting s) (now : Datetime) :
    Waiting (reclaimStale s now).2 := by
  have hpart : ∀ id, ((reclaimStale s now).2.hashOf id = none →
      at_ (reclaimStale s now).2 id = (none, none, none)) ∧
      ∀ q, get (reclaimStale s now).2 id = some q → q.status.claimable = true →
        (reclaimStale s now).2.ready.find? id = some (id, toMs q.fireAt) ∧
          (reclaimStale s now).2.inflight.find? id = none := by
    intro id
    cases hlease : s.inflight.find? id with
    | none => exact waiting_congr hs (at_reclaimStale_unleased hlease now)
    | some m =>
      -- a leased delivery neither is pending nor waits for a retry
      refine ⟨fun hnone => ?_, fun q hq hst => ?_⟩
      · have hat : s.inflight.find? id = none := congrArg (·.2.2) (hs.unknown id hnone)
        cases hlease.symm.trans hat
      · cases hlease.symm.trans (hs.ready id q hq hst).2
  exact ⟨readable_reclaimStale hs.readable now, fun id => (hpart id).1, fun id => (hpart id).2⟩

theorem waiting_complete {s : RedisState} (hs : Waiting s) {id : DeliveryId}
    (hid : (s.hashOf id).isSome = true) (limit : Nat) (a : AttemptRecord) (c : Completion) :
    Waiting (execAll s (complete limit id a c)) := by
  have hpart : ∀ id', ((execAll s (complete limit id a c)).hashOf id' = none →
      at_ (execAll s (complete limit id a c)) id' = (none, none, none)) ∧
      ∀ q, get (execAll s (complete limit id a c)) id' = some q → q.status.claimable = true →
        (execAll s (complete limit id a c)).ready.find? id' = some (id', toMs q.fireAt) ∧
          (execAll s (complete limit id a c)).inflight.find? id' = none := by
    intro id'
    by_cases he : id' = id
    · subst he
      obtain ⟨h, hh⟩ := Option.isSome_iff_exists.mp hid
      obtain ⟨r, hr, -⟩ := hs.readable id' h hh
      obtain ⟨h', hat, hr'⟩ := at_completed hh hr limit a c
      have hget := get_of_hash hat hr'
      refine ⟨fun hnone => ?_, fun q hq hst => ?_⟩
      · cases hnone.symm.trans (congrArg Prod.fst hat)
      · cases hget.symm.trans hq
        have hready := congrArg (·.2.1) hat
        have hlease := congrArg (·.2.2) hat
        cases c with
        | append =>
          obtain ⟨hwaits, hfree⟩ := hs.ready id' r (by rw [Redis.get, hh, Option.bind_some, hr]) hst
          exact ⟨hready.trans hwaits, hlease.trans hfree⟩
        | retry t =>
          have hfire : toMs (fromMs (toMs t)) = toMs t := toMs_fromMs _
          exact ⟨hready.trans (by rw [settled, hfire]; rfl), hlease⟩
        | sent => cases hst
        | dead => cases hst
    · exact waiting_congr hs (at_complete_other s limit he a c)
  exact ⟨readable_complete hs.readable hid limit a c, fun id => (hpart id).1,
    fun id => (hpart id).2⟩

theorem waiting_step {limit : Nat} {s t : RedisState} {a : Label} (hs : Waiting s)
    (ha : AllHeld s a) (h : step limit s a = some t) : Waiting t := by
  cases a with
  | enqueueMany rs =>
    obtain ⟨⟨hn, hfresh⟩, h⟩ := Option.ite_none_right_eq_some.mp h
    obtain ⟨cs, hcs, rfl⟩ := Option.map_eq_some_iff.mp h
    refine waiting_enqueued hs hcs hn fun r hr _ => ?_
    have hnone : s.hashOf r.deliveryId = none := by simpa using hfresh r hr
    exact congrArg (·.2.2) (hs.unknown r.deliveryId hnone)
  | enqueueAgain rs =>
    obtain ⟨⟨hn, -⟩, h⟩ := Option.ite_none_right_eq_some.mp h
    obtain ⟨cs, hcs, rfl⟩ := Option.map_eq_some_iff.mp h
    refine waiting_enqueued hs hcs hn fun r hr hst => ?_
    obtain ⟨data, -, hget⟩ := (ha r hr).record
    exact (hs.ready r.deliveryId _ hget hst).2
  | claimBatch now ttl n =>
    cases h
    exact waiting_claimBatch hs now ttl n
  | reclaimStale now =>
    cases h
    exact waiting_reclaimStale hs now
  | complete id c a =>
    obtain ⟨hid, h⟩ := Option.ite_none_right_eq_some.mp h
    cases h
    exact waiting_complete hs hid limit a c

/-- **The life of a delivery.** While it is pending or waits for a retry, the store holds its
record: the one that `get` returns can be enqueued again. -/
theorem held_iff {limit : Nat} {as : List Label} {s : RedisState}
    (h : run (step limit) empty as = some s) (has : Along (step limit) AllHeld empty as)
    {r : DeliveryRecord} (hr : r.status.claimable = true) :
    Held s r ↔ ∃ data, decodeUtf8 r.dataJson = some data ∧
      get s r.deliveryId = some (stored r data) := by
  have hs : Waiting s :=
    run_preserves (fun _ _ _ hs ha hstep => waiting_step hs ha hstep) has waiting_empty h
  refine ⟨Held.record, fun hget => ⟨hget, ?_⟩⟩
  obtain ⟨data, -, hrecord⟩ := hget
  have hfire : toMs (stored r data).fireAt = toMs r.fireAt := toMs_fromMs _
  obtain ⟨hready, -⟩ := hs.ready r.deliveryId _ hrecord hr
  rw [score, hready, hfire]
  rfl

def repeatRecord : DeliveryRecord := exampleRecord "d" "https://example.com/hook"

/-- A record is enqueued again before the first claim, and once more, as `get` returns it, while
it waits for its second attempt. -/
def enqueuedThrice : List Label := [.enqueueMany [repeatRecord], .enqueueAgain [repeatRecord],
  .claimBatch 0 30 50, .complete "d" (.retry 60) ⟨1, 1, some 503, 5, none, "", [], false⟩,
  .enqueueAgain [{ repeatRecord with status := .failedRetry, attempts := 1, fireAt := 60 }],
  .claimBatch 61 30 50]

theorem repeat_unseen_iff_thrice : (run (step 20) empty enqueuedThrice).isSome = true ∧
    Along (step 20) (NotSeen 20) empty enqueuedThrice := by
  obtain ⟨s, hs⟩ := Option.isSome_iff_exists.mp (by decide +kernel :
    (run (step 20) empty enqueuedThrice).isSome = true)
  exact ⟨by rw [hs]; rfl, (repeat_unseen_iff 20 enqueuedThrice s hs).mpr (by decide +kernel)⟩

/-- A leased delivery that is enqueued again is handed out a second time, to a worker
that claims while the first one holds it. -/
theorem enqueued_while_leased : ¬ Along (step 20) (NotSeen 20) empty
    ([.enqueueMany [repeatRecord], .claimBatch 0 30 50] ++ [.enqueueAgain [repeatRecord]]) := by
  obtain ⟨u, hu, hseen⟩ := (Option.any_eq_true ..).mp (by decide +kernel :
    (run (step 20) empty [.enqueueMany [repeatRecord], .claimBatch 0 30 50]).any (fun u =>
      (step 20 u (.enqueueAgain [repeatRecord])).any fun v =>
        observations v [.claimBatch 1 30 50] ≠ observations u [.claimBatch 1 30 50]) =
      true)
  obtain ⟨v, hv, hseen⟩ := (Option.any_eq_true ..).mp hseen
  intro h
  have hnot := along_at h hu
  have hsame := hnot v hv [.claimBatch 1 30 50]
  simp [hsame] at hseen

end WebhookEngine.Stores.RedisRepeats
