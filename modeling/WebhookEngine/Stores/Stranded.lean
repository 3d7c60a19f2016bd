import WebhookEngine.Lib.Run
import WebhookEngine.Stores.Memory

/-!
# No delivery is stranded in memory

Runs of the methods of `MemoryWebhookDeliveryStore`, calls that raise included. A
completion is three statements on three dictionaries, and a `KeyError` between them
would leave the first one done; `completion_eq` shows that this does not happen, since a
stored record has its list of attempts from the start.

* `sound_step`: what one call preserves;
* `no_delivery_stranded`: the leased ids are the ones in flight, and what is neither sent
  nor dead is claimed again once it is due and its lease is over.
-/

namespace WebhookEngine.Stores.Stranded

open Lib Lib.Run WebhookEngine.Stores.Queue WebhookEngine.Stores.Memory

/-! ## Calls -/

inductive Call where
  | enqueueMany (records : List DeliveryRecord)
  | claimBatch (now : Datetime) (leaseTtlS batchSize : Nat)
  | reclaimStale (now : Datetime)
  | complete (id : DeliveryId) (c : Completion) (attempt : AttemptRecord)

/-- What a completion writes into the record. -/
def rewritten (c : Completion) (r : DeliveryRecord) : DeliveryRecord :=
  match c with
  | .sent => setStatus .sent r
  | .retry t => { r with status := .failedRetry, fireAt := t, attempts := r.attempts + 1 }
  | .dead => setStatus .deadLettered r
  | .append => r

theorem rewritten_deliveryId (c : Completion) (r : DeliveryRecord) :
    (rewritten c r).deliveryId = r.deliveryId := by
  cases c <;> rfl

/-- The statements of a completion, one after the other, up to the first that raises. -/
def completion (s : MemoryWebhookDeliveryStore) (id : DeliveryId) (c : Completion)
    (a : AttemptRecord) : MemoryWebhookDeliveryStore :=
  match c, s.records.find? id, s.attempts.find? id with
  -- `_attempts.setdefault(id, [])` knows no unknown id
  | .append, _, _ => appendAttempt s id a
  -- `self._records[id]` raises
  | _, none, _ => s
  -- `self._attempts[id]` raises, with the record rewritten and the lease in place
  | c, some _, none =>
    { s with
      records := s.records.modify id (rewritten c) (rewritten_deliveryId c)
      leased := fun k h => by
        rw [Table.find?_modify]
        split
        · rw [Option.isSome_map]
          exact s.leased k h
        · exact s.leased k h }
  | c, some _, some _ => (complete s id a (rewritten c) (rewritten_deliveryId c)).getD s

/-- The state a call leaves; records are enqueued as pending. -/
def step (s : MemoryWebhookDeliveryStore) : Call → Option MemoryWebhookDeliveryStore
  | .enqueueMany rs =>
    if rs.all fun r => r.status = .pending then some (enqueueMany s rs) else none
  | .claimBatch now ttl n => some (claimBatch s now ttl n).2
  | .reclaimStale now => some (reclaimStale s now).2
  | .complete id c a => some (completion s id c a)

/-! ## The invariant -/

/-- A job is leased when it is in flight, and is never cancelled. -/
def Fit (j : Job) : Prop := (j.lease.isSome = true ↔ j.status = .inFlight) ∧ j.status ≠ .cancelled

structure Sound (s : MemoryWebhookDeliveryStore) : Prop where
  fit : ∀ id j, view s id = some j → Fit j
  logged : ∀ id, (s.records.find? id).isSome = true → (s.attempts.find? id).isSome = true

/-- `self._records[id]` raises. -/
theorem complete_unknown {s : MemoryWebhookDeliveryStore} {id : DeliveryId} {c : Completion}
    (hr : s.records.find? id = none) (hc : c ≠ .append) (a : AttemptRecord) :
    memoryStore.complete s id c a = none := by
  have hraise : ∀ f hf, complete s id a f hf = none := by
    intro f hf
    rw [complete, hr, if_neg (by simp)]
  cases c with
  | append => exact absurd rfl hc
  | sent => exact hraise _ _
  | retry t => exact hraise _ _
  | dead => exact hraise _ _

/-- The second `KeyError` of a completion does not happen. -/
theorem completion_eq {s : MemoryWebhookDeliveryStore} (hs : Sound s) (id : DeliveryId)
    (c : Completion) (a : AttemptRecord) :
    completion s id c a = (memoryStore.complete s id c a).getD s := by
  have hlog := hs.logged id
  unfold completion
  cases hr : s.records.find? id with
  | none =>
    by_cases hc : c = .append
    · rw [hc]
      rfl
    · rw [complete_unknown hr hc]
      cases c <;> first | rfl | exact absurd rfl hc
  | some r =>
    rw [hr] at hlog
    obtain ⟨log, hlog⟩ := Option.isSome_iff_exists.mp (hlog rfl)
    rw [hlog]
    cases c <;> rfl

theorem fit_settle {counter : Counter} {c : Completion} {n : Nat} {j : Job} (hj : Fit j) :
    Fit (c.settle counter n j) := by
  cases c with
  | sent => simp [Fit, Completion.settle]
  | retry t => simp [Fit, Completion.settle]
  | dead => simp [Fit, Completion.settle]
  | append => exact hj

theorem fit_of_claimable {j : Job} {st : DeliveryStatus} (h : st.claimable = true) :
    Fit { j with status := st, lease := none } := by
  cases st <;> simp_all [Fit, DeliveryStatus.claimable]

theorem view_append (s : MemoryWebhookDeliveryStore) (id id' : DeliveryId) (a : AttemptRecord) :
    view (appendAttempt s id a) id' = view s id' := rfl

/-- A completion shows in the job of its id, and in no other. -/
theorem view_completed {s s' : MemoryWebhookDeliveryStore} {id : DeliveryId} {c : Completion}
    {a : AttemptRecord} (h : memoryStore.complete s id c a = some s') {id' : DeliveryId} {j : Job}
    (hj : view s' id' = some j) :
    ∃ j₀, view s id' = some j₀ ∧ (j = j₀ ∨ j = c.settle counter a.attempt j₀) := by
  by_cases he : id' = id
  · subst he
    cases h₀ : view s id' with
    | some j₀ =>
      have hv := memoryQueue.view_complete s id' c a j₀ s' h₀ h
      exact ⟨j₀, rfl, Or.inr (Option.some_inj.mp (hj.symm.trans hv))⟩
    | none =>
      -- only `append_attempt` takes an unknown id
      have hr : s.records.find? id' = none := Option.map_eq_none_iff.mp h₀
      by_cases hc : c = .append
      · subst hc
        cases h
        rw [view_append, h₀] at hj
        cases hj
      · rw [complete_unknown hr hc] at h
        cases h
  · have hother : view s' id' = view s id' := memoryQueue.view_complete_other s id c a s' id' h he
    exact ⟨j, hother ▸ hj, Or.inl rfl⟩

theorem logged_logAttempt (log : Dict DeliveryId (List AttemptRecord)) (id k : DeliveryId)
    (a : AttemptRecord) (h : (log.find? k).isSome = true) :
    ((logAttempt log id a).find? k).isSome = true := by
  rw [logAttempt, Table.find?_put]
  split
  · rfl
  · exact h

theorem logged_enqueue {s : MemoryWebhookDeliveryStore} (hs : Sound s) (rs : List DeliveryRecord)
    {id : DeliveryId} (h : ((enqueueMany s rs).records.find? id).isSome = true) :
    ((enqueueMany s rs).attempts.find? id).isSome = true := by
  have hput : ∀ (log : Dict DeliveryId (List AttemptRecord)) (ls : List (DeliveryId × _)),
      (log.find? id).isSome = true ∨ id ∈ ls.map (·.1) →
      ((log.putMany ls).find? id).isSome = true := by
    intro log ls
    induction ls generalizing log with
    | nil => simp [Table.putMany]
    | cons e ls ih =>
      intro hmem
      apply ih (log.put e)
      rw [Table.find?_put]
      by_cases he : e.1 = id
      · exact Or.inl (by rw [if_pos he]; rfl)
      · rw [if_neg he]
        simp only [List.map_cons, List.mem_cons] at hmem
        rcases hmem with hlog | rfl | hmem
        · exact Or.inl hlog
        · exact absurd rfl he
        · exact Or.inr hmem
  apply hput
  cases hr : s.records.find? id with
  | some r => exact Or.inl (hs.logged id (by rw [hr]; rfl))
  | none =>
    right
    simp only [enqueueMany, Table.find?_insertMany, hr, Option.none_or] at h
    obtain ⟨r, hfind⟩ := Option.isSome_iff_exists.mp h
    have hid : r.deliveryId = id := by simpa using List.find?_some hfind
    rw [List.map_map]
    refine List.mem_map.mpr ⟨r, List.mem_filter.mpr ⟨List.mem_of_find?_eq_some hfind, ?_⟩, hid⟩
    rw [hid, hr]
    rfl

theorem sound_empty : Sound empty := by
  constructor
  · intro id j hj
    cases hj
  · intro id h
    cases h

/-- **One call keeps the invariant.** -/
theorem sound_step {s s' : MemoryWebhookDeliveryStore} (call : Call) (hs : Sound s)
    (h : step s call = some s') : Sound s' := by
  cases call with
  | enqueueMany rs =>
    obtain ⟨hpending, h⟩ := Option.ite_none_right_eq_some.mp h
    cases h
    refine ⟨fun id j hj => ?_, fun id hid => logged_enqueue hs rs hid⟩
    rw [view_enqueue, Option.or_eq_some_iff] at hj
    rcases hj with hj | ⟨-, hj⟩
    · exact hs.fit id j hj
    · obtain ⟨r, hr, rfl⟩ := Option.map_eq_some_iff.mp hj
      have hnew := List.all_eq_true.mp hpending r (List.mem_of_find?_eq_some hr)
      simp [Fit, toJob, of_decide_eq_true hnew]
  | claimBatch now ttl n =>
    cases h
    obtain ⟨hin, hout⟩ := view_claim s now ttl n
    refine ⟨fun id j hj => ?_, fun id hid => ?_⟩
    · by_cases hm : ∃ r ∈ (claimBatch s now ttl n).1, r.deliveryId = id
      · obtain ⟨r, hr, rfl⟩ := hm
        obtain ⟨j₀, e, -, -, -, -, hv⟩ := hin r hr
        rw [hv] at hj
        cases hj
        simp [Fit]
      · rw [hout id fun r hr he => hm ⟨r, hr, he⟩] at hj
        exact hs.fit id j hj
    · simp only [claimBatch, Table.find?_update, Option.isSome_map] at hid
      exact hs.logged id hid
  | reclaimStale now =>
    cases h
    refine ⟨fun id j hj => ?_, fun id hid => ?_⟩
    · rcases view_reclaim s now id with hv | ⟨j₀, e, st, -, -, -, -, hst, hv⟩
      · exact hs.fit id j (hv ▸ hj)
      · rw [hv] at hj
        cases hj
        exact fit_of_claimable hst
    · simp only [reclaimStale, Table.find?_update, Option.isSome_map] at hid
      exact hs.logged id hid
  | complete id c a =>
    cases h
    rw [completion_eq hs]
    cases hc : memoryStore.complete s id c a with
    | none => exact hs
    | some s' =>
      refine ⟨fun id' j hj => ?_, fun k hk => ?_⟩
      · obtain ⟨j₀, hj₀, rfl | rfl⟩ := view_completed hc hj
        · exact hs.fit id' _ hj₀
        · exact fit_settle (hs.fit id' j₀ hj₀)
      · have hlogs : ∀ f hf, complete s id a f hf = some s' →
            (s'.attempts.find? k).isSome = true := by
          intro f hf hcomplete
          obtain ⟨-, hs'⟩ := Option.ite_none_right_eq_some.mp hcomplete
          cases hs'
          apply logged_logAttempt
          change ((s.records.modify id f hf).find? k).isSome = true at hk
          rw [Table.find?_modify] at hk
          split at hk
          · rw [Option.isSome_map] at hk
            exact hs.logged k hk
          · exact hs.logged k hk
        cases c with
        | append =>
          cases hc
          exact logged_logAttempt _ _ _ _ (hs.logged k hk)
        | sent => exact hlogs _ _ hc
        | retry t => exact hlogs _ _ hc
        | dead => exact hlogs _ _ hc

theorem sound_run {calls : List Call} {s : MemoryWebhookDeliveryStore}
    (h : run step empty calls = some s) : Sound s :=
  run_invariant (fun _ call _ hs hstep => sound_step call hs hstep) sound_empty h

/-! ## Claiming again -/

theorem leased_iff {s : MemoryWebhookDeliveryStore} (hs : Sound s) (id : DeliveryId) :
    (s.leaseExpiry.find? id).isSome = true ↔
      ∃ r, s.records.find? id = some r ∧ r.status = .inFlight := by
  cases hr : s.records.find? id with
  | none =>
    refine iff_of_false (fun hl => ?_) (by simp)
    have hsome := s.leased id hl
    rw [hr] at hsome
    cases hsome
  | some r =>
    have hfit := (hs.fit id _ (by rw [view, hr]; rfl)).1
    simpa [toJob] using hfit

/-- With room for every record, a claim takes all that is due. -/
theorem mem_ready {s : MemoryWebhookDeliveryStore} {now : Datetime} {n : Nat} {r : DeliveryRecord}
    (hr : r ∈ s.records.rows) (hclaim : r.status.claimable = true) (hdue : r.fireAt ≤ now)
    (hn : s.records.rows.length ≤ n) : r ∈ ready s now n := by
  rw [ready, List.take_of_length_le, List.mem_insertionSort, List.mem_filter]
  · exact ⟨hr, by simp [hclaim, hdue]⟩
  · rw [List.length_insertionSort]
    exact (List.length_filter_le _ _).trans hn

theorem claimed_again {s : MemoryWebhookDeliveryStore} (hs : Sound s) {r : DeliveryRecord}
    (hr : r ∈ s.records.rows) (hsent : r.status ≠ .sent) (hdead : r.status ≠ .deadLettered)
    {t : Datetime} (hdue : r.fireAt ≤ t)
    (hlease : ∀ e, s.leaseExpiry.find? r.deliveryId = some e → e.2 < t) (ttl n : Nat)
    (hn : s.records.rows.length ≤ n) :
    ∃ status, { r with status := status } ∈ (claimBatch (reclaimStale s t).2 t ttl n).1 := by
  have hfind := Table.find?_of_mem hr
  have hfit := hs.fit r.deliveryId _ (by rw [view, hfind]; rfl)
  have hafter : (reclaimStale s t).2.records.find? r.deliveryId =
      some (if stale s t r.deliveryId then setStatus .pending r else r) := by
    simp only [reclaimStale, Table.find?_update, hfind, Option.map_some]
  have hlen : (reclaimStale s t).2.records.rows.length ≤ n := by
    simpa [reclaimStale, Table.update] using hn
  obtain ⟨hrow, -⟩ := Table.find?_eq_some.mp hafter
  by_cases hflight : r.status = .inFlight
  · -- its lease is over, so the reclaim has made it pending
    obtain ⟨e, he⟩ := Option.isSome_iff_exists.mp ((leased_iff hs _).mpr ⟨r, hfind, hflight⟩)
    have hstale : stale s t r.deliveryId = true := by
      simp [stale, he, hlease e he, hfind, hflight]
    rw [if_pos hstale] at hrow
    exact ⟨.pending, mem_ready hrow rfl hdue hlen⟩
  · have hstale : ¬ stale s t r.deliveryId = true := by
      cases he : s.leaseExpiry.find? r.deliveryId <;> simp [stale, he, hfind, hflight]
    have hclaim : r.status.claimable = true := by
      have hcancelled : r.status ≠ .cancelled := hfit.2
      cases hst : r.status <;> simp_all [DeliveryStatus.claimable]
    rw [if_neg hstale] at hrow
    exact ⟨r.status, mem_ready hrow hclaim hdue hlen⟩

/-- **No delivery is stranded**: in every state that calls lead to, those that raise
included, the leased ids are the ids in flight; and a record that is neither sent nor
dead, once it is due and its lease is over, is handed out by a reclaim and a claim. -/
theorem no_delivery_stranded (calls : List Call) (s : MemoryWebhookDeliveryStore)
    (h : run step empty calls = some s) :
    (∀ id, (s.leaseExpiry.find? id).isSome = true ↔
      ∃ r, s.records.find? id = some r ∧ r.status = .inFlight) ∧
    ∀ r ∈ s.records.rows, r.status ≠ .sent → r.status ≠ .deadLettered →
      ∀ t, r.fireAt ≤ t → (∀ e, s.leaseExpiry.find? r.deliveryId = some e → e.2 < t) →
      ∀ ttl n, s.records.rows.length ≤ n →
        ∃ status, { r with status := status } ∈ (claimBatch (reclaimStale s t).2 t ttl n).1 :=
  ⟨leased_iff (sound_run h), fun _ hr hsent hdead _ hdue hlease ttl n hn =>
    claimed_again (sound_run h) hr hsent hdead hdue hlease ttl n hn⟩

/-- A lease, a reclaim and a late retry: the record is handed out again. -/
theorem no_delivery_stranded_late_retry : ∃ s,
    run step empty
      [.enqueueMany [exampleRecord "d" "https://example.com/hook"], .claimBatch 0 30 10,
        .complete "unknown" .dead ⟨1, 5, none, 0, none, "", [], false⟩, .reclaimStale 31,
        .claimBatch 31 30 10,
        .complete "d" (.retry 90) ⟨1, 32, some 500, 1, none, "", [], false⟩] = some s ∧
    ∃ status, { exampleRecord "d" "https://example.com/hook" with
        status := status, fireAt := 90, attempts := 1 } ∈
      (claimBatch (reclaimStale s 90).2 90 30 1).1 := by
  obtain ⟨s, hrun⟩ := Option.isSome_iff_exists.mp (by decide +kernel :
    (run step empty
      [.enqueueMany [exampleRecord "d" "https://example.com/hook"], .claimBatch 0 30 10,
        .complete "unknown" .dead ⟨1, 5, none, 0, none, "", [], false⟩, .reclaimStale 31,
        .claimBatch 31 30 10,
        .complete "d" (.retry 90) ⟨1, 32, some 500, 1, none, "", [], false⟩]).isSome = true)
  have hrecords : (run step empty
      [.enqueueMany [exampleRecord "d" "https://example.com/hook"], .claimBatch 0 30 10,
        .complete "unknown" .dead ⟨1, 5, none, 0, none, "", [], false⟩, .reclaimStale 31,
        .claimBatch 31 30 10,
        .complete "d" (.retry 90) ⟨1, 32, some 500, 1, none, "", [], false⟩]).map
      (fun s => (s.records.rows, s.leaseExpiry.rows)) =
    some ([{ exampleRecord "d" "https://example.com/hook" with
      status := .failedRetry, fireAt := 90, attempts := 1 }], []) := by decide +kernel
  rw [hrun, Option.map_some] at hrecords
  obtain ⟨hrows, hleases⟩ := Prod.mk.inj (Option.some_inj.mp hrecords)
  refine ⟨s, hrun, ?_⟩
  refine (no_delivery_stranded _ s hrun).2 _ (by rw [hrows]; exact List.mem_cons_self ..)
    (by decide) (by decide) 90 le_rfl (fun e he => ?_) 30 1 (by rw [hrows]; exact le_rfl)
  rw [Table.find?, hleases] at he
  cases he

end WebhookEngine.Stores.Stranded
