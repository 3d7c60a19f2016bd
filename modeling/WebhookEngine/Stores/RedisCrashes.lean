import WebhookEngine.Lib.Run
import WebhookEngine.Stores.Redis

/-!
# Redis calls cut by a crash

A call of the Redis store is a list of commands, and only a Lua script is atomic: a
crash leaves the effect of a prefix of the list. Runs of calls, each cut anywhere;
enqueues are complete and of fresh ids, completions are of stored deliveries.

* `atoms_all`: a call that is not cut is the call of the store;
* `handed_out_again`: a member of a sorted set is claimed again;
* `crash_safe_iff`: a delivery that is neither sent nor dead stays in one of the two
  sets exactly if no crash falls between the `ZREM` that takes it out of the last one
  and the command that makes up for it.
-/

namespace WebhookEngine.Stores.RedisCrashes

open Lib Lib.Run WebhookEngine.Stores.Queue WebhookEngine.Stores.Redis

/-! ## Calls as lists of commands -/

/-- What Redis executes as a whole. -/
inductive Atom where
  | command (c : Command)
  | claimScript (nowMs leaseMs : Int) (batchSize : Nat)
  | reclaimScript (nowMs : Int)

def execAtom (s : RedisState) : Atom → RedisState
  | .command c => exec s c
  | .claimScript nowMs leaseMs n => (claimScript s nowMs leaseMs n).2
  | .reclaimScript nowMs => (reclaimScript s nowMs).2

def execAtoms (s : RedisState) (as : List Atom) : RedisState := as.foldl execAtom s

/-- The calls on stored deliveries; a completion is `mark_sent`, `schedule_retry`,
`mark_dead` or `append_attempt`. -/
inductive Call where
  | claimBatch (now : Datetime) (leaseTtlS batchSize : Nat)
  | reclaimStale (now : Datetime)
  | complete (id : DeliveryId) (c : Completion) (attempt : AttemptRecord)

/-- What a call sends, reads left out. The last commands of a claim depend on what its
script took; a hash that cannot be read raises before them. -/
def atoms (historyLimit : Nat) (s : RedisState) : Call → List Atom
  | .claimBatch now ttl n =>
    let (ids, s') := claimScript s (toMs now) (toMs now + ttl * 1000) n
    .claimScript (toMs now) (toMs now + ttl * 1000) n ::
      ((readAll (ids.filterMap s'.hashOf)).getD []).map fun r => .command (markInFlight r)
  | .reclaimStale now => [.reclaimScript (toMs now)]
  | .complete id c a => (complete historyLimit id a c).map .command

/-- The call of the store. -/
def effect (historyLimit : Nat) (s : RedisState) : Call → RedisState
  | .claimBatch now ttl n => (claimBatch s now ttl n).2
  | .reclaimStale now => (reclaimStale s now).2
  | .complete id c a => execAll s (complete historyLimit id a c)

theorem execAtoms_commands (s : RedisState) (cs : List Command) :
    execAtoms s (cs.map .command) = execAll s cs := by
  induction cs generalizing s with
  | nil => rfl
  | cons c cs ih => exact ih (exec s c)

theorem execAtoms_markInFlight (s : RedisState) (rs : List DeliveryRecord) :
    execAtoms s (rs.map fun r => .command (markInFlight r)) = execAll s (rs.map markInFlight) := by
  rw [← execAtoms_commands, List.map_map]
  rfl

/-- A call that is not cut. -/
theorem atoms_all (limit : Nat) (s : RedisState) (x : Call) :
    execAtoms s (atoms limit s x) = effect limit s x := by
  cases x with
  | claimBatch now ttl n =>
    simp only [atoms, effect, claimBatch]
    generalize hx : claimScript s (toMs now) (toMs now + ttl * 1000) n = x
    have hcons : ∀ as, execAtoms s (.claimScript (toMs now) (toMs now + ttl * 1000) n :: as) =
        execAtoms x.2 as := by
      intro as
      rw [← hx]
      rfl
    rw [hcons, execAtoms_markInFlight]
    cases readAll (x.1.filterMap x.2.hashOf) with
    | none => rfl
    | some rs => rfl
  | reclaimStale now => rfl
  | complete id c a => exact execAtoms_commands s _

/-! ## Runs -/

inductive Label where
  | enqueueMany (records : List DeliveryRecord)
  /-- A call of which Redis executes the first `executed` commands. -/
  | call (x : Call) (executed : Nat)

/-- A worker completes what a claim handed it. -/
def Call.known (s : RedisState) : Call → Bool
  | .complete id _ _ => (s.hashOf id).isSome
  | _ => true

def step (historyLimit : Nat) (s : RedisState) : Label → Option RedisState
  | .enqueueMany rs =>
    if (rs.map (·.deliveryId)).Nodup ∧ ∀ r ∈ rs, s.hashOf r.deliveryId = none then
      enqueueMany s rs
    else none
  | .call x executed =>
    if x.known s then some (execAtoms s ((atoms historyLimit s x).take executed)) else none

/-- A member of `ready` or of `inflight`. -/
def Member (s : RedisState) (id : DeliveryId) : Prop :=
  (s.ready.find? id).isSome = true ∨ (s.inflight.find? id).isSome = true

/-- Every delivery that is neither sent nor dead is in one of the two sets. -/
def Safe (s : RedisState) : Prop :=
  ∀ id r, get s id = some r → r.status.terminal = false → Member s id

/-- The hash says that the delivery is sent or dead. -/
def Closed (s : RedisState) (id : DeliveryId) : Prop :=
  (get s id).any (·.status.terminal) = true

/-- The commands executed end after a `ZREM` and before the command that makes up for
it: a completion first logs the attempt, with two commands. -/
def exposed (isReady : Bool) : Completion → Nat → Bool
  | .sent, k | .dead, k => k = 3 && !isReady || k = 4
  | .retry _, k => k = 3 && !isReady
  | .append, _ => false

/-- The crash does not take a delivery that is neither sent nor dead out of both sets. -/
def Covered (s : RedisState) : Label → Prop
  | .call (.complete id c _) executed =>
    exposed (s.ready.find? id).isSome c executed = true → Closed s id
  | _ => True

instance (s : RedisState) : ∀ a, Decidable (Covered s a)
  | .call (.complete id c _) executed =>
    inferInstanceAs (Decidable
      (exposed (s.ready.find? id).isSome c executed = true → (get s id).any _ = true))
  | .enqueueMany _ | .call (.claimBatch ..) _ | .call (.reclaimStale _) _ =>
    inferInstanceAs (Decidable True)

/-! ## One delivery -/

theorem member_of_at {s : RedisState} {id : DeliveryId} {h : Option Hash}
    {ready inflight : Option (DeliveryId × Int)} (hat : at_ s id = (h, ready, inflight)) :
    Member s id ↔ ready.isSome = true ∨ inflight.isSome = true := by
  have hready : s.ready.find? id = ready := congrArg (·.2.1) hat
  have hinflight : s.inflight.find? id = inflight := congrArg (·.2.2) hat
  rw [Member, hready, hinflight]

/-- Whether a delivery is safe shows at its keys. -/
theorem safe_at_congr {s t : RedisState} {id : DeliveryId} (hat : at_ t id = at_ s id)
    (h : ∀ r, get s id = some r → r.status.terminal = false → Member s id) :
    ∀ r, get t id = some r → r.status.terminal = false → Member t id := by
  intro r hr hst
  have hget : get s id = some r := (get_of_at hat).symm.trans hr
  exact (member_of_at hat).mpr (h r hget hst)

theorem safe_of_member {s t : RedisState} (hs : Safe s)
    (h : ∀ id, at_ t id = at_ s id ∨ Member t id) : Safe t := by
  intro id r hr hst
  rcases h id with hat | hm
  · exact safe_at_congr hat (hs id) r hr hst
  · exact hm

/-! ### Claims and reclaims -/

structure Sound (s : RedisState) : Prop where
  readable : Readable s
  safe : Safe s

theorem sound_empty : Sound empty := by
  constructor
  · intro id h hh
    cases hh
  · intro id r hr
    cases hr

/-- The status of a record that a claim has read, written to its hash. -/
theorem sound_markInFlight {s : RedisState} (hs : Sound s) {r : DeliveryRecord}
    (hh : (s.hashOf r.deliveryId).isSome = true) (hm : Member s r.deliveryId) :
    Sound (exec s (markInFlight r)) := by
  obtain ⟨h, hh⟩ := Option.isSome_iff_exists.mp hh
  obtain ⟨r₀, hr₀, hid⟩ := hs.readable _ h hh
  constructor
  · have hrec := hashToRecord_status hr₀ .inFlight
    exact readable_hset (r := { r₀ with status := .inFlight }) hs.readable
      (by rw [hh]; exact hrec) hid
  · apply safe_of_member hs.safe
    intro id
    by_cases he : r.deliveryId = id
    · exact Or.inr (he ▸ hm)
    · exact Or.inl (at_exec s (markInFlight r) he)

theorem sound_markAll {s : RedisState} (hs : Sound s) {rs : List DeliveryRecord}
    (h : ∀ r ∈ rs, (s.hashOf r.deliveryId).isSome = true ∧ Member s r.deliveryId) :
    Sound (execAll s (rs.map markInFlight)) := by
  induction rs generalizing s with
  | nil => exact hs
  | cons r rs ih =>
    obtain ⟨hh, hm⟩ := h r (List.mem_cons_self ..)
    refine ih (sound_markInFlight hs hh hm) fun r' hr' => ?_
    obtain ⟨hh', hm'⟩ := h r' (List.mem_cons_of_mem _ hr')
    refine ⟨?_, hm'⟩
    rw [markInFlight, hashOf_hset]
    split
    · rfl
    · exact hh'

theorem sound_claimScript {s : RedisState} (hs : Sound s) (nowMs leaseMs : Int) (n : Nat) :
    Sound (claimScript s nowMs leaseMs n).2 := by
  constructor
  · exact readable_congr (fun _ => rfl) hs.readable
  · apply safe_of_member hs.safe
    intro id
    have hat := at_claimScript s nowMs leaseMs n id
    split at hat
    · exact Or.inr ((member_of_at hat).mpr (Or.inr rfl))
    · exact Or.inl hat

theorem sound_reclaimScript {s : RedisState} (hs : Sound s) (nowMs : Int) :
    Sound (reclaimScript s nowMs).2 := by
  constructor
  · exact readable_congr (fun _ => rfl) hs.readable
  · apply safe_of_member hs.safe
    intro id
    have hat := at_moveToReady s nowMs (nodup_rangeByScore s.inflight nowMs) id
    split at hat
    · exact Or.inr ((member_of_at hat).mpr (Or.inl rfl))
    · exact Or.inl hat

/-- A claim cut anywhere. -/
theorem sound_claimBatch {s : RedisState} (hs : Sound s) (limit executed : Nat) (now : Datetime)
    (ttl n : Nat) :
    Sound (execAtoms s ((atoms limit s (.claimBatch now ttl n)).take executed)) := by
  cases executed with
  | zero => exact hs
  | succ k =>
    simp only [atoms, List.take_succ_cons, ← List.map_take]
    have hscript := sound_claimScript hs (toMs now) (toMs now + ttl * 1000) n
    have hread : readAll ((claimScript s (toMs now) (toMs now + ttl * 1000) n).1.filterMap
        (claimScript s (toMs now) (toMs now + ttl * 1000) n).2.hashOf) =
        some ((claimScript s (toMs now) (toMs now + ttl * 1000) n).1.filterMap (get s)) :=
      readAll_eq hs.readable _
    rw [hread, Option.getD_some]
    change Sound (execAtoms (claimScript s (toMs now) (toMs now + ttl * 1000) n).2 _)
    rw [execAtoms_markInFlight]
    apply sound_markAll hscript
    intro r hr
    obtain ⟨id, hid, hget⟩ := List.mem_filterMap.mp (List.mem_of_mem_take hr)
    obtain rfl := get_deliveryId hs.readable hget
    obtain ⟨h, hh, -⟩ := Option.bind_eq_some_iff.mp hget
    have hat := at_claimScript s (toMs now) (toMs now + ttl * 1000) n r.deliveryId
    rw [if_pos hid] at hat
    refine ⟨?_, (member_of_at hat).mpr (Or.inr rfl)⟩
    exact Option.isSome_iff_exists.mpr ⟨h, hh⟩

theorem sound_reclaimStale {s : RedisState} (hs : Sound s) (limit executed : Nat)
    (now : Datetime) : Sound (execAtoms s ((atoms limit s (.reclaimStale now)).take executed)) := by
  cases executed with
  | zero => exact hs
  | succ k =>
    rw [atoms, List.take_succ_cons, List.take_nil]
    exact sound_reclaimScript hs (toMs now)

/-! ### Completions -/

theorem at_zremInflight (s : RedisState) (id : DeliveryId) :
    at_ (exec s (.zremInflight id)) id = (s.hashOf id, s.ready.find? id, none) := by
  have hinflight := Table.find?_erase s.inflight id id
  rw [if_pos rfl] at hinflight
  exact Prod.ext rfl (Prod.ext rfl hinflight)

theorem at_zremReady (s : RedisState) (id : DeliveryId) :
    at_ (exec s (.zremReady id)) id = (s.hashOf id, none, s.inflight.find? id) := by
  have hready := Table.find?_erase s.ready id id
  rw [if_pos rfl] at hready
  exact Prod.ext rfl (Prod.ext hready rfl)

theorem at_zaddReady (s : RedisState) (id : DeliveryId) (score : Int) :
    at_ (exec s (.zaddReady id score)) id =
      (s.hashOf id, some (id, score), s.inflight.find? id) := by
  have hready := Table.find?_put s.ready (id, score) id
  rw [if_pos rfl] at hready
  exact Prod.ext rfl (Prod.ext hready rfl)

/-- The first `ZREM`: only a member of `ready` is left in a set. -/
theorem cut_after_zremInflight {s u : RedisState} {id : DeliveryId} (hat : at_ u id = at_ s id) :
    get (exec u (.zremInflight id)) id = get s id ∧
      (Member (exec u (.zremInflight id)) id ↔ (s.ready.find? id).isSome = true) := by
  have hready : u.ready.find? id = s.ready.find? id := congrArg (·.2.1) hat
  have hafter := at_zremInflight u id
  constructor
  · exact (get_of_at hafter).trans (get_of_at hat)
  · rw [member_of_at hafter, hready]
    simp

/-- Both `ZREM`s of `mark_sent` and `mark_dead`, and then their `HSET`. -/
theorem cut_after_zrems {s u : RedisState} {id : DeliveryId} {h : Hash} {r : DeliveryRecord}
    (hat : at_ u id = at_ s id) (hh : s.hashOf id = some h) (hr : hashToRecord h = some r)
    {st : DeliveryStatus} (hst : st.terminal = true) (n : Nat) :
    get (execAll u [.zremInflight id, .zremReady id]) id = get s id ∧
      ¬ Member (execAll u [.zremInflight id, .zremReady id]) id ∧
      Closed (execAll u [.zremInflight id, .zremReady id,
        .hset id [("status", st.value), ("attempts", intText n)]]) id := by
  have hu : u.hashOf id = some h := (congrArg Prod.fst hat).trans hh
  have hgone := at_zremReady (exec u (.zremInflight id)) id
  have hinflight : (exec u (.zremInflight id)).inflight.find? id = none :=
    congrArg (·.2.2) (at_zremInflight u id)
  rw [hinflight] at hgone
  have hget : get u id = get s id := get_of_at hat
  refine ⟨(get_of_at hgone).trans hget, ?_, ?_⟩
  · intro hm
    have hsome := (member_of_at hgone).mp hm
    simp at hsome
  · have hrec : hashToRecord (hset h [("status", st.value), ("attempts", intText n)]) =
        some { r with status := st, attempts := n } :=
      hashToRecord_attempts (hashToRecord_status hr st) n
    generalize [("status", st.value), ("attempts", intText n)] = fields at hrec
    have hkeys : (execAll u [.zremInflight id, .zremReady id]).hashOf id = some h := hu
    have hafter := at_hset hkeys fields
    exact (Option.any_eq_true ..).mpr ⟨_, get_of_hash hafter hrec, hst⟩

/-- `ZREM` and `ZADD` of `schedule_retry`, and whatever follows. -/
theorem cut_after_zadd (u : RedisState) (id : DeliveryId) (score : Int)
    (fields : List (String × String)) :
    Member (execAll u [.zremInflight id, .zaddReady id score]) id ∧
      Member (execAll u [.zremInflight id, .zaddReady id score, .hset id fields]) id := by
  have hm := (member_of_at (at_zaddReady (exec u (.zremInflight id)) id score)).mpr (Or.inl rfl)
  exact ⟨hm, hm⟩

/-- The outcome of a cut at a delivery: in the gap the hash is as before and the delivery
in no set; outside of it the keys are as before, the delivery is in a set, or it is over. -/
def CutAt (s t : RedisState) (id : DeliveryId) : Bool → Prop
  | true => get t id = get s id ∧ ¬ Member t id
  | false => at_ t id = at_ s id ∨ Member t id ∨ Closed t id

/-- The first `ZREM` is the last command executed. -/
theorem cutAt_zremInflight {s u : RedisState} {id : DeliveryId} (hat : at_ u id = at_ s id) :
    CutAt s (exec u (.zremInflight id)) id (!(s.ready.find? id).isSome) := by
  obtain ⟨hget, hmember⟩ := cut_after_zremInflight hat
  cases hready : (s.ready.find? id).isSome with
  | false => exact ⟨hget, fun hm => by rw [hmember, hready] at hm; cases hm⟩
  | true => exact Or.inr (Or.inl (hmember.mpr hready))

/-- `mark_sent` and `mark_dead`, cut. -/
theorem cut_closing {s : RedisState} {id : DeliveryId} {h : Hash} {r : DeliveryRecord}
    (hh : s.hashOf id = some h) (hr : hashToRecord h = some r) (limit : Nat) (a : AttemptRecord)
    (st : DeliveryStatus) (hst : st.terminal = true) (executed : Nat) :
    CutAt s (execAll s ((appendAttempt limit id a ++ [Command.zremInflight id, .zremReady id,
      .hset id [("status", st.value), ("attempts", intText a.attempt)]]).take executed)) id
      (executed = 3 && !(s.ready.find? id).isSome || executed = 4) := by
  have hat : at_ (execAll s (appendAttempt limit id a)) id = at_ s id := rfl
  obtain ⟨hget, hnone, hclosed⟩ := cut_after_zrems hat hh hr hst a.attempt
  match executed with
  | 0 | 1 | 2 => exact Or.inl rfl
  | 3 =>
    simp only [decide_true, Bool.true_and, Nat.reduceEqDiff, decide_false, Bool.or_false]
    exact cutAt_zremInflight hat
  | 4 => simpa using ⟨hget, hnone⟩
  | n + 5 =>
    rw [List.take_of_length_le (by simp [appendAttempt])]
    exact Or.inr (Or.inr hclosed)

/-- `schedule_retry`, cut. -/
theorem cut_retry (s : RedisState) (id : DeliveryId) (limit : Nat) (a : AttemptRecord) (score : Int)
    (fields : List (String × String)) (executed : Nat) :
    CutAt s (execAll s ((appendAttempt limit id a ++ [Command.zremInflight id, .zaddReady id score,
      .hset id fields]).take executed)) id (executed = 3 && !(s.ready.find? id).isSome) := by
  have hat : at_ (execAll s (appendAttempt limit id a)) id = at_ s id := rfl
  obtain ⟨hadd, hset⟩ := cut_after_zadd (execAll s (appendAttempt limit id a)) id score fields
  match executed with
  | 0 | 1 | 2 => exact Or.inl rfl
  | 3 =>
    simp only [decide_true, Bool.true_and]
    exact cutAt_zremInflight hat
  | 4 => exact Or.inr (Or.inl hadd)
  | n + 5 =>
    rw [List.take_of_length_le (by simp [appendAttempt])]
    exact Or.inr (Or.inl hset)

/-- **A cut completion.** -/
theorem cut_complete {s : RedisState} {id : DeliveryId} {h : Hash} {r : DeliveryRecord}
    (hh : s.hashOf id = some h) (hr : hashToRecord h = some r) (limit : Nat) (a : AttemptRecord)
    (c : Completion) (executed : Nat) :
    CutAt s (execAll s ((complete limit id a c).take executed)) id
      (exposed (s.ready.find? id).isSome c executed) := by
  cases c with
  | sent => exact cut_closing hh hr limit a .sent rfl executed
  | dead => exact cut_closing hh hr limit a .deadLettered rfl executed
  | retry t => exact cut_retry s id limit a (toMs t) _ executed
  | append =>
    match executed with
    | 0 | 1 => exact Or.inl rfl
    | n + 2 =>
      rw [List.take_of_length_le (by simp [complete, appendAttempt])]
      exact Or.inl rfl

theorem readable_cut {s : RedisState} (hs : Readable s) {id : DeliveryId}
    (hid : (s.hashOf id).isSome = true) (limit : Nat) (a : AttemptRecord) (c : Completion)
    (executed : Nat) : Readable (execAll s ((complete limit id a c).take executed)) := by
  by_cases hall : (complete limit id a c).length ≤ executed
  · rw [List.take_of_length_le hall]
    exact readable_complete hs hid limit a c
  · apply readable_congr (s := s) _ hs
    intro id'
    -- the `HSET` is the last command
    have hlt : executed < (complete limit id a c).length := Nat.lt_of_not_le hall
    cases c with
    | append =>
      have hcut : executed < 2 := hlt
      obtain rfl | rfl : executed = 0 ∨ executed = 1 := by omega
      all_goals rfl
    | sent | dead | retry _ =>
      have hcut : executed < 5 := hlt
      obtain rfl | rfl | rfl | rfl | rfl : executed = 0 ∨ executed = 1 ∨ executed = 2 ∨
        executed = 3 ∨ executed = 4 := by omega
      all_goals rfl

/-! ## One step -/

theorem sound_enqueueMany {s t : RedisState} (hs : Sound s) {rs : List DeliveryRecord}
    (hn : (rs.map (·.deliveryId)).Nodup) (h : enqueueMany s rs = some t) : Sound t := by
  obtain ⟨cs, hcs, rfl⟩ := Option.map_eq_some_iff.mp h
  constructor
  · exact readable_enqueuePipeline hcs hs.readable
  · apply safe_of_member hs.safe
    intro id
    by_cases hm : ∃ r ∈ rs, r.deliveryId = id
    · obtain ⟨r, hr, rfl⟩ := hm
      obtain ⟨data, -, hat⟩ := at_enqueuePipeline hcs hn hr s
      exact Or.inr ((member_of_at hat).mpr (Or.inl rfl))
    · left
      apply at_execAll
      intro c hc he
      obtain ⟨r, hr, hrid⟩ := enqueuePipeline_id hcs c hc
      exact hm ⟨r, hr, hrid.symm.trans he⟩

theorem not_closed {s : RedisState} {id : DeliveryId} {r : DeliveryRecord}
    (hr : get s id = some r) (hst : r.status.terminal = false) : ¬Closed s id := by
  intro hclosed
  rw [Closed, hr, Option.any_some, hst] at hclosed
  cases hclosed

/-- A completion is safe if and only if its crash is covered. -/
theorem safe_cut_iff {s : RedisState} (hs : Sound s) {id : DeliveryId}
    (hid : (s.hashOf id).isSome = true) (limit : Nat) (a : AttemptRecord) (c : Completion)
    (executed : Nat) : Safe (execAll s ((complete limit id a c).take executed)) ↔
      (exposed (s.ready.find? id).isSome c executed = true → Closed s id) := by
  obtain ⟨h, hh⟩ := Option.isSome_iff_exists.mp hid
  obtain ⟨r, hr, -⟩ := hs.readable id h hh
  have hget : get s id = some r := (get_of_at (s := s) rfl).trans (by rw [hh]; exact hr)
  have hcut := cut_complete hh hr limit a c executed
  have hother : ∀ id', id' ≠ id →
      at_ (execAll s ((complete limit id a c).take executed)) id' = at_ s id' := by
    intro id' hne
    apply at_execAll
    intro cmd hcmd
    exact (complete_id limit id a c cmd (List.mem_of_mem_take hcmd)).symm ▸ Ne.symm hne
  generalize execAll s ((complete limit id a c).take executed) = t at hcut hother ⊢
  cases he : exposed (s.ready.find? id).isSome c executed with
  | true =>
    rw [he] at hcut
    obtain ⟨hsame, hgone⟩ := hcut
    constructor
    · intro ht _
      refine (Option.any_eq_true ..).mpr ⟨r, hget, ?_⟩
      by_contra hst
      exact hgone (ht id r (hsame.trans hget) (by simpa using hst))
    · intro hclosed id' r' hr' hst
      by_cases hid' : id' = id
      · subst hid'
        exact absurd (hclosed rfl) (not_closed (hsame.symm.trans hr') hst)
      · exact safe_at_congr (hother id' hid') (hs.safe id') r' hr' hst
  | false =>
    rw [he] at hcut
    refine iff_of_true ?_ (fun h => by cases h)
    intro id' r' hr' hst
    by_cases hid' : id' = id
    · subst hid'
      rcases hcut with hat | hm | hclosed
      · exact safe_at_congr hat (hs.safe id') r' hr' hst
      · exact hm
      · exact absurd hclosed (not_closed hr' hst)
    · exact safe_at_congr (hother id' hid') (hs.safe id') r' hr' hst

/-- **Step lemma.** From a sound state a step leads to a safe one if and only if its
crash is covered, and every step keeps the hashes readable. -/
theorem step_spec {limit : Nat} {s t : RedisState} {a : Label} (hs : Sound s)
    (h : step limit s a = some t) : Readable t ∧ (Safe t ↔ Covered s a) := by
  cases a with
  | enqueueMany rs =>
    obtain ⟨⟨hn, -⟩, h⟩ := Option.ite_none_right_eq_some.mp h
    have ht := sound_enqueueMany hs hn h
    exact ⟨ht.readable, iff_of_true ht.safe trivial⟩
  | call x executed =>
    obtain ⟨hknown, h⟩ := Option.ite_none_right_eq_some.mp h
    cases h
    cases x with
    | claimBatch now ttl n =>
      have ht := sound_claimBatch hs limit executed now ttl n
      exact ⟨ht.readable, iff_of_true ht.safe trivial⟩
    | reclaimStale now =>
      have ht := sound_reclaimStale hs limit executed now
      exact ⟨ht.readable, iff_of_true ht.safe trivial⟩
    | complete id c a =>
      rw [atoms, ← List.map_take, execAtoms_commands]
      exact ⟨readable_cut hs.readable hknown limit a c executed,
        safe_cut_iff hs hknown limit a c executed⟩

/-! ## A member is handed out again -/

/-- The next reclaim and claim from the time of its score on hand out a member. -/
theorem handed_out_again {s : RedisState} (hs : Readable s) {id : DeliveryId} {r : DeliveryRecord}
    (hr : get s id = some r) {score : Int}
    (hm : s.ready.find? id = some (id, score) ∨ s.inflight.find? id = some (id, score))
    (hscore : 0 ≤ score) {now : Datetime} (hnow : score ≤ toMs now) (ttl : Nat) :
    ∃ n rs, (claimBatch (reclaimStale s now).2 now ttl n).1 = some rs ∧
      ∃ r' ∈ rs, r'.deliveryId = id := by
  have hat := at_moveToReady s (toMs now) (nodup_rangeByScore s.inflight (toMs now)) id
  -- the reclaim leaves it in `ready`, with a score that is due
  have hready : ∃ sc, (reclaimStale s now).2.ready.find? id = some (id, sc) ∧ 0 ≤ sc ∧
      sc ≤ toMs now := by
    by_cases hstale : id ∈ rangeByScore s.inflight (toMs now)
    · rw [if_pos hstale] at hat
      exact ⟨toMs now, congrArg (·.2.1) hat, hscore.trans hnow, le_refl _⟩
    · rw [if_neg hstale] at hat
      have hkept : (reclaimStale s now).2.ready.find? id = s.ready.find? id :=
        congrArg (·.2.1) hat
      rcases hm with hm | hm
      · exact ⟨score, hkept.trans hm, hscore, hnow⟩
      · exact absurd (mem_rangeByScore.mpr ⟨score, hm, hscore, hnow⟩) hstale
  have hreadable := readable_reclaimStale hs now
  have hget : get (reclaimStale s now).2 id = some r := hr
  have hid : r.deliveryId = id := get_deliveryId hreadable hget
  have hmem := mem_rangeByScore.mpr hready
  refine ⟨(rangeByScore (reclaimStale s now).2.ready (toMs now)).length, _,
    congrArg Prod.fst (claimBatch_eq hreadable now ttl _), ?_⟩
  rw [claimScript, List.take_of_length_le (le_refl _)]
  exact ⟨_, List.mem_map_of_mem (List.mem_filterMap.mpr ⟨id, hmem, hget⟩), hid⟩

/-! ## Runs -/

/-- **Crash safety.** In every run of calls cut anywhere, no key expiring: every state
has each delivery that is neither sent nor dead in one of the two sets, if and only if no
crash of the run takes such a delivery out of both. -/
theorem crash_safe_iff (limit : Nat) (as : List Label) (s : RedisState)
    (h : run (step limit) empty as = some s) :
    Along (step limit) (fun u a => ∀ v, step limit u a = some v → Safe v) empty as ↔
      Along (step limit) Covered empty as := by
  refine along_iff (I := Sound) ?_ ?_ sound_empty h
  · intro u a v hu hv
    constructor
    · intro hsafe
      exact (step_spec hu hv).2.mp (hsafe v hv)
    · intro hcovered v' hv'
      exact (step_spec hu hv').2.mpr hcovered
  · intro u a v hu hcovered hv
    obtain ⟨hreadable, hsafe⟩ := step_spec hu hv
    exact ⟨hreadable, hsafe.mpr hcovered⟩

def crashRecord : DeliveryRecord := exampleRecord "d" "https://example.com/hook"

def crashAttempt : AttemptRecord where
  attempt := 1
  attemptedAt := 1
  httpCode := some 503
  durationMs := 0
  error := none
  responseSnippet := ""

/-- A delivery is claimed, and the first try is to be repeated. -/
def claimed : List Label := [.enqueueMany [crashRecord], .call (.claimBatch 0 30 50) 2]

/-- The crash comes after the first of the commands that schedule the retry. -/
def crashedRetry : Label := .call (.complete "d" (.retry 10) crashAttempt) 3

/-- A claim is cut behind its script, and the delivery is claimed again after a reclaim; the retry
is cut behind its `ZADD`, and claimed. -/
def cutHarmlessly : List Label :=
  [.enqueueMany [crashRecord], .call (.claimBatch 0 30 50) 1, .call (.reclaimStale 31) 1,
    .call (.claimBatch 31 30 50) 2, .call (.complete "d" (.retry 40) crashAttempt) 4,
    .call (.claimBatch 41 30 50) 2]

theorem crash_safe_iff_cut : ∃ s, run (step 20) empty cutHarmlessly = some s ∧
    (get s "d").map (fun r => (r.status, r.attempts)) = some (.inFlight, 0) ∧
    Along (step 20) (fun u a => ∀ v, step 20 u a = some v → Safe v) empty cutHarmlessly := by
  obtain ⟨s, hs, hstatus⟩ := (Option.any_eq_true ..).mp (by decide +kernel :
    (run (step 20) empty cutHarmlessly).any (fun s => decide
      ((get s "d").map (fun r => (r.status, r.attempts)) = some (.inFlight, 0))) = true)
  exact ⟨s, hs, of_decide_eq_true hstatus,
    (crash_safe_iff 20 cutHarmlessly s hs).mpr (by decide +kernel)⟩

/-- The crash leaves the delivery in flight and in no set. -/
theorem crashed_retry_is_lost :
    ¬ Along (step 20) (fun u a => ∀ v, step 20 u a = some v → Safe v) empty
      (claimed ++ [crashedRetry]) := by
  obtain ⟨u, hu, hlost⟩ := (Option.any_eq_true ..).mp (by decide +kernel :
    (run (step 20) empty claimed).any (fun u => (step 20 u crashedRetry).any fun v =>
      (get v "d").any (fun r => r.status = .inFlight) && !(v.ready.find? "d").isSome &&
        !(v.inflight.find? "d").isSome) = true)
  obtain ⟨v, hv, hlost⟩ := (Option.any_eq_true ..).mp hlost
  simp only [Bool.and_eq_true, Bool.not_eq_true'] at hlost
  obtain ⟨⟨hget, hready⟩, hinflight⟩ := hlost
  obtain ⟨r, hr, hst⟩ := (Option.any_eq_true ..).mp hget
  intro hsafe
  have hstatus : r.status = .inFlight := by simpa using hst
  rcases along_at hsafe hu v hv "d" r hr (by rw [hstatus]; rfl) with hm | hm
  · rw [hready] at hm
    cases hm
  · rw [hinflight] at hm
    cases hm

end WebhookEngine.Stores.RedisCrashes
