import Mathlib.Data.List.Sort
import WebhookEngine.Lib.Run
import WebhookEngine.Stores.Pg

/-!
# Purging sent deliveries

`PgDeliveryRepo.purge_sent` deletes sent deliveries that have attempts, all of them older than
a cutoff, and with them these attempts. A delivery is only sent by a call that appends an
attempt, so in a state that the store can reach none is passed over for having none.

* `purgeSent_spec`: what one call deletes;
* `sentHasAttempt_step`: a sent delivery keeps an attempt;
* `purge_correct`: one call, and calls until nothing is left.
-/

namespace WebhookEngine.Stores.PgPurge

open Lib Lib.Run Stores.Queue Stores.Pg

/-! ## The call -/

/-- An attempt of the delivery, at or after the cutoff or before it. -/
def recent (olderThan : Datetime) (id : DeliveryId) (x : DeliveryId × AttemptRecord) : Bool :=
  x.1 = id && decide (olderThan ≤ x.2.attemptedAt)

def old (olderThan : Datetime) (id : DeliveryId) (x : DeliveryId × AttemptRecord) : Bool :=
  x.1 = id && decide (x.2.attemptedAt < olderThan)

/-- The `WHERE` of the `SELECT`. -/
def purgeable (s : PgWebhookDeliveryStore) (olderThan : Datetime) (row : Row) : Bool :=
  decide (row.record.status = .sent) && decide (row.record.createdAt < olderThan) &&
    s.attempts.any (old olderThan row.deliveryId) &&
    !s.attempts.any (recent olderThan row.deliveryId)

def purgeableRows (s : PgWebhookDeliveryStore) (olderThan : Datetime) : List Row :=
  s.deliveries.rows.filter (purgeable s olderThan)

/-- `ids` is the first `limit` of these rows in some order by `created_at`; among equal ones the
collation of the database decides. -/
def validPick (s : PgWebhookDeliveryStore) (olderThan : Datetime) (limit : Nat)
    (ids : List DeliveryId) : Bool :=
  decide ids.Nodup && decide (ids.length = min limit (purgeableRows s olderThan).length) &&
    (ids.all fun id => decide (id ∈ (purgeableRows s olderThan).map Row.deliveryId)) &&
    (purgeableRows s olderThan).all fun row => (purgeableRows s olderThan).all fun row' =>
      decide (row.deliveryId ∈ ids → row'.deliveryId ∉ ids →
        row.record.createdAt ≤ row'.record.createdAt)

/-- `PgDeliveryRepo.purge_sent`; `none` is the `ValueError`, or a choice that is not valid. -/
def purgeSent (s : PgWebhookDeliveryStore) (olderThan : Datetime) (limit : Nat)
    (ids : List DeliveryId) : Option (Nat × PgWebhookDeliveryStore) :=
  if limit = 0 then none
  else if validPick s olderThan limit ids then
    if ids = [] then some (0, s)
    else
      some (ids.length,
        { deliveries := s.deliveries.filter fun row => decide (row.deliveryId ∉ ids)
          attempts := s.attempts.filter fun x => decide (x.1 ∉ ids) })
  else none

/-! ## What one call deletes -/

/-- Sent, created before the cutoff, and without an attempt at or after it. -/
structure Outdated (s : PgWebhookDeliveryStore) (olderThan : Datetime) (row : Row) : Prop where
  status : row.record.status = .sent
  created : row.record.createdAt < olderThan
  attempts : ∀ x ∈ s.attempts, x.1 = row.deliveryId → x.2.attemptedAt < olderThan

theorem purgeable_iff (s : PgWebhookDeliveryStore) (olderThan : Datetime) (row : Row) :
    purgeable s olderThan row = true ↔
      Outdated s olderThan row ∧ ∃ x ∈ s.attempts, x.1 = row.deliveryId := by
  simp only [purgeable, old, recent, Bool.and_eq_true, Bool.not_eq_true', decide_eq_true_eq,
    List.any_eq_true, List.any_eq_false, not_and, not_le]
  constructor
  · rintro ⟨⟨⟨hstatus, hcreated⟩, x, hx, hid, -⟩, hrecent⟩
    exact ⟨⟨hstatus, hcreated, hrecent⟩, x, hx, hid⟩
  · rintro ⟨⟨hstatus, hcreated, hrecent⟩, x, hx, hid⟩
    exact ⟨⟨⟨hstatus, hcreated⟩, x, hx, hid, hrecent x hx hid⟩, hrecent⟩

/-- The deliveries `gone` are deleted with their attempts, and nothing else. -/
structure Purged (s : PgWebhookDeliveryStore) (olderThan : Datetime) (limit : Nat)
    (gone : List DeliveryId) (n : Nat) (s' : PgWebhookDeliveryStore) : Prop where
  returned : n = gone.length
  atMost : n ≤ limit
  distinct : gone.Nodup
  outdated : ∀ id ∈ gone, ∃ row, s.deliveries.find? id = some row ∧ Outdated s olderThan row
  deliveries : s'.deliveries.rows = s.deliveries.rows.filter fun row => row.deliveryId ∉ gone
  attempts : s'.attempts = s.attempts.filter fun x => x.1 ∉ gone

variable {s s' : PgWebhookDeliveryStore} {olderThan : Datetime} {limit n : Nat}
  {ids : List DeliveryId}

theorem mem_purgeableRows {row : Row} (h : row ∈ purgeableRows s olderThan) :
    s.deliveries.find? row.deliveryId = some row ∧ Outdated s olderThan row := by
  obtain ⟨hrow, hpurgeable⟩ := List.mem_filter.mp h
  exact ⟨Table.find?_of_mem hrow, ((purgeable_iff s olderThan row).mp hpurgeable).1⟩

theorem validPick_iff : validPick s olderThan limit ids = true ↔
    ids.Nodup ∧ ids.length = min limit (purgeableRows s olderThan).length ∧
      (∀ id ∈ ids, id ∈ (purgeableRows s olderThan).map Row.deliveryId) ∧
      ∀ row ∈ purgeableRows s olderThan, ∀ row' ∈ purgeableRows s olderThan,
        row.deliveryId ∈ ids → row'.deliveryId ∉ ids →
          row.record.createdAt ≤ row'.record.createdAt := by
  simp only [validPick, Bool.and_eq_true, List.all_eq_true, decide_eq_true_eq, and_assoc]

theorem purgeSent_spec (h : purgeSent s olderThan limit ids = some (n, s')) :
    validPick s olderThan limit ids = true ∧ Purged s olderThan limit ids n s' := by
  obtain ⟨-, h⟩ := Option.ite_none_left_eq_some.mp h
  obtain ⟨hpick, h⟩ := Option.ite_none_right_eq_some.mp h
  obtain ⟨hnodup, hlength, hmem, -⟩ := validPick_iff.mp hpick
  have houtdated : ∀ id ∈ ids, ∃ row, s.deliveries.find? id = some row ∧
      Outdated s olderThan row := by
    intro id hid
    obtain ⟨row, hrow, rfl⟩ := List.mem_map.mp (hmem id hid)
    exact ⟨row, mem_purgeableRows hrow⟩
  have hlimit : ids.length ≤ limit := hlength ▸ Nat.min_le_left ..
  refine ⟨hpick, ?_⟩
  split at h
  case isTrue hnil =>
    cases h
    subst hnil
    exact ⟨rfl, Nat.zero_le _, hnodup, houtdated, by simp, by simp⟩
  case isFalse =>
    cases h
    exact ⟨rfl, hlimit, hnodup, houtdated, rfl, rfl⟩

/-! ## Until nothing is left -/

theorem exists_validPick (s : PgWebhookDeliveryStore) (olderThan : Datetime) (limit : Nat) :
    ∃ ids, validPick s olderThan limit ids = true := by
  let older : Row → Row → Prop := fun row row' => row.record.createdAt ≤ row'.record.createdAt
  have htotal : Std.Total older := ⟨fun _ _ => le_total _ _⟩
  have htrans : IsTrans Row older := ⟨fun _ _ _ h h' => le_trans h h'⟩
  let sorted := (purgeableRows s olderThan).insertionSort older
  have hperm : sorted.Perm (purgeableRows s olderThan) := List.perm_insertionSort older _
  have hnodup : (sorted.map Row.deliveryId).Nodup :=
    (hperm.map Row.deliveryId).nodup_iff.mpr (s.deliveries.nodup_keys_filter _)
  refine ⟨(sorted.take limit).map Row.deliveryId, validPick_iff.mpr ⟨?_, ?_, ?_, ?_⟩⟩
  · exact hnodup.sublist ((List.take_sublist limit sorted).map Row.deliveryId)
  · rw [List.length_map, List.length_take, hperm.length_eq]
  · intro id hid
    obtain ⟨row, hrow, rfl⟩ := List.mem_map.mp hid
    exact List.mem_map_of_mem (hperm.subset (List.mem_of_mem_take hrow))
  · intro row hrow row' hrow' hin hout
    have hsorted : (sorted.take limit ++ sorted.drop limit).Pairwise older := by
      rw [List.take_append_drop]
      exact List.pairwise_insertionSort older _
    -- the chosen row stands in the front of the sorted rows, the other one in the rest
    have hfront : row ∈ sorted.take limit := by
      obtain ⟨r, hr, hid⟩ := List.mem_map.mp hin
      have hmem := hperm.symm.subset hrow
      rwa [List.inj_on_of_nodup_map hnodup hmem (List.mem_of_mem_take hr) hid.symm]
    have hrest : row' ∈ sorted.drop limit := by
      have hmem := hperm.symm.subset hrow'
      rw [← List.take_append_drop limit sorted] at hmem
      refine (List.mem_append.mp hmem).resolve_left fun h => hout ?_
      exact List.mem_map_of_mem h
    exact (List.pairwise_append.mp hsorted).2.2 row hfront row' hrest

/-- A purge is never refused. -/
theorem exists_purgeSent (s : PgWebhookDeliveryStore) (olderThan : Datetime) (hlimit : 0 < limit) :
    ∃ ids n s', purgeSent s olderThan limit ids = some (n, s') := by
  obtain ⟨ids, hids⟩ := exists_validPick s olderThan limit
  have hsome : (purgeSent s olderThan limit ids).isSome = true := by
    rw [purgeSent, if_neg hlimit.ne', if_pos hids]
    split <;> rfl
  obtain ⟨⟨n, s'⟩, h⟩ := Option.isSome_iff_exists.mp hsome
  exact ⟨ids, n, s', h⟩

/-- Calls with one cutoff and limit, until one returns 0. -/
inductive PurgesAll (olderThan : Datetime) (limit : Nat) :
    PgWebhookDeliveryStore → PgWebhookDeliveryStore → Prop where
  | done (s s' : PgWebhookDeliveryStore) (ids : List DeliveryId)
      (h : purgeSent s olderThan limit ids = some (0, s')) : PurgesAll olderThan limit s s'
  | again (s s' t : PgWebhookDeliveryStore) (ids : List DeliveryId) (n : Nat) (hn : n ≠ 0)
      (h : purgeSent s olderThan limit ids = some (n, s'))
      (hrest : PurgesAll olderThan limit s' t) : PurgesAll olderThan limit s t

/-- A call that deletes something leaves fewer deliveries. -/
theorem length_lt_of_purgeSent (h : purgeSent s olderThan limit ids = some (n, s')) (hn : n ≠ 0) :
    s'.deliveries.rows.length < s.deliveries.rows.length := by
  obtain ⟨-, hpurged⟩ := purgeSent_spec h
  have hne : ids ≠ [] := by
    rintro rfl
    exact hn hpurged.returned
  obtain ⟨id, hid⟩ := List.exists_mem_of_ne_nil ids hne
  obtain ⟨row, hrow, -⟩ := hpurged.outdated id hid
  obtain ⟨hmem, rfl⟩ := Table.find?_eq_some.mp hrow
  rw [hpurged.deliveries]
  exact List.length_filter_lt_length_iff_exists.mpr ⟨row, hmem, by simpa using hid⟩

theorem exists_purgesAll (s : PgWebhookDeliveryStore) (olderThan : Datetime) (hlimit : 0 < limit) :
    ∃ s', PurgesAll olderThan limit s s' := by
  induction hlength : s.deliveries.rows.length using Nat.strong_induction_on generalizing s with
  | _ length ih =>
    obtain ⟨ids, n, t, ht⟩ := exists_purgeSent s olderThan hlimit
    by_cases hn : n = 0
    · subst hn
      exact ⟨t, .done s t ids ht⟩
    · obtain ⟨s', hs'⟩ := ih _ (hlength ▸ length_lt_of_purgeSent ht hn) t rfl
      exact ⟨s', .again s t s' ids n hn ht hs'⟩

/-- Where a call returns 0, nothing can be purged. -/
theorem purgeableRows_of_purgeSent (h : purgeSent s olderThan limit ids = some (0, s')) :
    s' = s ∧ purgeableRows s olderThan = [] := by
  obtain ⟨hpick, hpurged⟩ := purgeSent_spec h
  obtain ⟨hlimit, h⟩ := Option.ite_none_left_eq_some.mp h
  rw [if_pos hpick] at h
  have hnil : ids = [] := List.length_eq_zero_iff.mp hpurged.returned.symm
  have hlength := (validPick_iff.mp hpick).2.1
  rw [if_pos hnil] at h
  cases h
  refine ⟨rfl, List.length_eq_zero_iff.mp ?_⟩
  rw [hnil, List.length_nil] at hlength
  omega

/-! ## The operations of the store -/

inductive Call where
  | enqueueMany (records : List DeliveryRecord)
  | claimBatch (now : Datetime) (leaseTtlS batchSize : Nat) (pick : List DeliveryId)
  | reclaimStale (now : Datetime)
  | complete (id : DeliveryId) (c : Completion) (attempt : AttemptRecord)
  | purgeSent (olderThan : Datetime) (limit : Nat) (pick : List DeliveryId)

def step (s : PgWebhookDeliveryStore) : Call → Option PgWebhookDeliveryStore
  | .enqueueMany rs => enqueueMany s rs
  | .claimBatch now ttl n pick => (claimBatch s now ttl n pick).map (·.2)
  | .reclaimStale now => some (reclaimStale s now).2
  | .complete id c a => complete s id c a
  | .purgeSent olderThan limit pick => (purgeSent s olderThan limit pick).map (·.2)

/-- A sent delivery has an attempt. -/
def SentHasAttempt (s : PgWebhookDeliveryStore) : Prop :=
  ∀ id row, s.deliveries.find? id = some row → row.record.status = .sent →
    ∃ x ∈ s.attempts, x.1 = id

theorem sentHasAttempt_insertRows (hs : SentHasAttempt s) (rs : List DeliveryRecord) :
    SentHasAttempt (insertRows s rs) := by
  intro id row hrow hsent
  rw [insertRows, Table.find?_insertMany, Option.or_eq_some_iff] at hrow
  rcases hrow with hrow | ⟨-, hnew⟩
  · exact hs id row hrow hsent
  · -- what is inserted is pending
    obtain ⟨r, -, rfl⟩ := List.mem_map.mp (List.mem_of_find?_eq_some hnew)
    cases hsent

/-- A claim and a reclaim write another status. -/
theorem sentHasAttempt_update (hs : SentHasAttempt s) {p : Row → Bool} {f : Row → Row}
    (hf : ∀ row, (f row).deliveryId = row.deliveryId)
    (hstatus : ∀ row, (f row).record.status ≠ .sent)
    (hrows : s'.deliveries = s.deliveries.update p f hf) (hattempts : s'.attempts = s.attempts) :
    SentHasAttempt s' := by
  intro id row hrow hsent
  rw [hattempts]
  rw [hrows, Table.find?_update, Option.map_eq_some_iff] at hrow
  obtain ⟨old, hold, rfl⟩ := hrow
  split at hsent
  · exact absurd hsent (hstatus old)
  · exact hs id old hold hsent

/-- Where a completion writes, it has appended an attempt. -/
theorem sentHasAttempt_report (hs : SentHasAttempt s) (id : DeliveryId) (c : Completion)
    (a : AttemptRecord) : SentHasAttempt (report s id c a) := by
  intro k row hrow hsent
  rw [report, Table.find?_modify] at hrow
  by_cases hk : k = id
  · subst hk
    exact ⟨_, List.mem_append_right _ (List.mem_singleton_self _), rfl⟩
  · rw [if_neg hk] at hrow
    obtain ⟨x, hx, hid⟩ := hs k row hrow hsent
    exact ⟨x, List.mem_append_left _ hx, hid⟩

/-- A purge deletes no attempt of a delivery that it leaves. -/
theorem sentHasAttempt_purgeSent (hs : SentHasAttempt s)
    (h : purgeSent s olderThan limit ids = some (n, s')) : SentHasAttempt s' := by
  obtain ⟨-, hpurged⟩ := purgeSent_spec h
  intro id row hrow hsent
  obtain ⟨hmem, rfl⟩ := Table.find?_eq_some.mp hrow
  rw [hpurged.deliveries] at hmem
  obtain ⟨hmem, hkept⟩ := List.mem_filter.mp hmem
  obtain ⟨x, hx, hid⟩ := hs row.deliveryId row (Table.find?_of_mem hmem) hsent
  refine ⟨x, ?_, hid⟩
  rw [hpurged.attempts]
  exact List.mem_filter.mpr ⟨hx, by rwa [hid]⟩

theorem sentHasAttempt_step (s : PgWebhookDeliveryStore) (call : Call)
    (t : PgWebhookDeliveryStore) (hs : SentHasAttempt s) (h : step s call = some t) :
    SentHasAttempt t := by
  cases call with
  | enqueueMany rs =>
    rw [eq_of_enqueueMany h]
    exact sentHasAttempt_insertRows hs rs
  | claimBatch now ttl n pick =>
    obtain ⟨⟨rs, s'⟩, hclaim, rfl⟩ := Option.map_eq_some_iff.mp h
    obtain ⟨-, hclaim⟩ := Option.ite_none_right_eq_some.mp hclaim
    cases hclaim
    exact sentHasAttempt_update hs (claim_deliveryId _) (fun _ h => (by cases h)) rfl rfl
  | reclaimStale now =>
    cases h
    exact sentHasAttempt_update hs reclaim_deliveryId (fun _ h => (by cases h)) rfl rfl
  | complete id c a =>
    rw [eq_of_complete h]
    exact sentHasAttempt_report hs id c a
  | purgeSent olderThan limit pick =>
    obtain ⟨⟨n, s'⟩, hpurge, rfl⟩ := Option.map_eq_some_iff.mp h
    exact sentHasAttempt_purgeSent hs hpurge

theorem sentHasAttempt_run {calls : List Call} (h : run step empty calls = some s) :
    SentHasAttempt s := by
  refine run_invariant sentHasAttempt_step ?_ h
  intro id row hrow
  cases hrow

/-- When the calls end, a delivery that could have been purged was. -/
theorem not_outdated_of_purgesAll (hs : SentHasAttempt s) (h : PurgesAll olderThan limit s s') :
    ∀ row ∈ s'.deliveries.rows, ¬ Outdated s' olderThan row := by
  induction h with
  | done s s' ids h =>
    obtain ⟨rfl, hnone⟩ := purgeableRows_of_purgeSent h
    intro row hrow houtdated
    have hattempt := hs row.deliveryId row (Table.find?_of_mem hrow) houtdated.status
    have hmem : row ∈ purgeableRows s' olderThan :=
      List.mem_filter.mpr ⟨hrow, (purgeable_iff s' olderThan row).mpr ⟨houtdated, hattempt⟩⟩
    rw [hnone] at hmem
    cases hmem
  | again s s' t ids n _ h _ ih => exact ih (sentHasAttempt_purgeSent hs h)

/-- **Purging**: from every state that the operations reach, each call deletes outdated
deliveries with their attempts and nothing else, at most the limit, and tells how many; no call
is refused; calling until 0 is returned comes to an end, and leaves no outdated delivery. -/
theorem purge_correct (calls : List Call) (s : PgWebhookDeliveryStore)
    (hs : run step empty calls = some s) (olderThan : Datetime) (limit : Nat)
    (hlimit : 0 < limit) :
    (∀ ids n s', purgeSent s olderThan limit ids = some (n, s') →
      ∃ gone, Purged s olderThan limit gone n s') ∧
    (∃ ids n s', purgeSent s olderThan limit ids = some (n, s')) ∧
    (∃ s', PurgesAll olderThan limit s s') ∧
    ∀ s', PurgesAll olderThan limit s s' →
      ∀ row ∈ s'.deliveries.rows, ¬ Outdated s' olderThan row :=
  ⟨fun ids _ _ h => ⟨ids, (purgeSent_spec h).2⟩, exists_purgeSent s olderThan hlimit,
    exists_purgesAll s olderThan hlimit,
    fun _ h => not_outdated_of_purgesAll (sentHasAttempt_run hs) h⟩

/-- Two deliveries are sent, one of them after the cutoff. -/
def exampleCalls : List Call :=
  [.enqueueMany [exampleRecord "d_1" "https://x.dev/a", exampleRecord "d_2" "https://x.dev/a"],
    .claimBatch 1 30 2 ["d_1", "d_2"],
    .complete "d_1" .sent { attempt := 1, attemptedAt := 2, httpCode := some 200, durationMs := 1,
                            error := none, responseSnippet := "" },
    .complete "d_2" .sent { attempt := 1, attemptedAt := 20, httpCode := some 200, durationMs := 1,
                            error := none, responseSnippet := "" }]

theorem purge_correct_example : ∃ s, run step empty exampleCalls = some s ∧
    (purgeSent s 10 5 ["d_1"]).isSome = true ∧ (∃ s', PurgesAll 10 5 s s') ∧
      ∀ s', PurgesAll 10 5 s s' → ∀ row ∈ s'.deliveries.rows, ¬ Outdated s' 10 row := by
  obtain ⟨s, hs, hpurge⟩ := (Option.any_eq_true ..).mp (by decide +kernel :
    (run step empty exampleCalls).any (fun s => (purgeSent s 10 5 ["d_1"]).isSome) = true)
  obtain ⟨-, -, hends, hleft⟩ := purge_correct exampleCalls s hs 10 5 (by decide)
  exact ⟨s, hs, hpurge, hends, hleft⟩

end WebhookEngine.Stores.PgPurge
