import Mathlib.Algebra.Order.BigOperators.Group.List
import Mathlib.Tactic.Linarith
import Mathlib.Tactic.Ring
import WebhookEngine.Dispatcher
import WebhookEngine.Lib.Run
import WebhookEngine.Stores.Memory

/-!
# The retries of one delivery

One delivery, from a stored counter of 0: claimed, sent, and claimed again after each retry that
`send` schedules, over any store that is a `LeaseQueue`, while other deliveries come and go.

* `delayS_spec`: the bounds of one delay;
* `climbs_step`: what a step keeps of the counter and of the retries so far;
* `retry_ladder`: how many retries there are, and the bounds of each and of their sum.
-/

namespace WebhookEngine.RetryLadder

open Lib Run Policy Dispatcher Stores.Queue

variable {py : Python}

/-! ## One delay -/

/-- A retry config with numbers that make sense. -/
structure Sane (cfg : WebhookRetryConfig) : Prop where
  base : 0 ≤ cfg.baseDelayS
  factor : 1 ≤ cfg.backoffFactor
  max : 0 ≤ cfg.maxDelayS
  jitter : 0 ≤ cfg.jitterPct
  jitter_le : cfg.jitterPct ≤ 1

/-- The least delay without a `Retry-After`. -/
def floor (cfg : WebhookRetryConfig) (attempt : Nat) : ℚ := (1 - cfg.jitterPct) * capped cfg attempt

/-- A draw of `uniform(-jitter, jitter)`. -/
def InRange (cfg : WebhookRetryConfig) (attempt : Nat) (uniform : ℚ) : Prop :=
  |uniform| ≤ cfg.jitterPct * capped cfg attempt

instance (cfg : WebhookRetryConfig) (attempt : Nat) (uniform : ℚ) :
    Decidable (InRange cfg attempt uniform) := by
  unfold InRange
  infer_instance

variable {cfg : WebhookRetryConfig}

theorem capped_le (cfg : WebhookRetryConfig) (attempt : Nat) :
    capped cfg attempt ≤ cfg.maxDelayS := min_le_right _ _

theorem capped_mono (h : Sane cfg) {n m : Nat} (hnm : n ≤ m) : capped cfg n ≤ capped cfg m := by
  refine min_le_min_right _ (mul_le_mul_of_nonneg_left ?_ h.base)
  exact pow_le_pow_right₀ h.factor (Nat.sub_le_sub_right hnm 1)

theorem floor_mono (h : Sane cfg) {n m : Nat} (hnm : n ≤ m) : floor cfg n ≤ floor cfg m :=
  mul_le_mul_of_nonneg_left (capped_mono h hnm) (sub_nonneg.mpr h.jitter_le)

/-- The bounds of a delay, with the seconds of a `Retry-After` that was honoured. -/
structure DelayBounds (cfg : WebhookRetryConfig) (attempt : Nat) (retryAfterS : Option ℚ)
    (delay : ℚ) : Prop where
  nonneg : 0 ≤ delay
  le : delay ≤ cfg.maxDelayS * (1 + cfg.jitterPct)
  honoured : ∀ x, retryAfterS = some x → delay ≤ cfg.maxDelayS
  floor_le : retryAfterS = none → floor cfg attempt ≤ delay

theorem delayS_spec (h : Sane cfg) {attempt : Nat} {uniform : ℚ}
    (hdraw : InRange cfg attempt uniform) {retryAfterS : Option ℚ}
    (hwait : ∀ x, retryAfterS = some x → 0 ≤ x) :
    DelayBounds cfg attempt retryAfterS (delayS attempt cfg uniform retryAfterS) := by
  have hroom : cfg.maxDelayS ≤ cfg.maxDelayS * (1 + cfg.jitterPct) :=
    le_mul_of_one_le_right h.max (le_add_of_nonneg_right h.jitter)
  cases retryAfterS with
  | some x =>
    exact
      { nonneg := le_min (hwait x rfl) h.max
        le := (min_le_right _ _).trans hroom
        honoured := fun _ _ => min_le_right _ _
        floor_le := fun hnone => by cases hnone }
  | none =>
    obtain ⟨hlow, hhigh⟩ := abs_le.mp hdraw
    have hle : capped cfg attempt + uniform ≤ cfg.maxDelayS * (1 + cfg.jitterPct) := by
      calc capped cfg attempt + uniform
          ≤ capped cfg attempt + cfg.jitterPct * capped cfg attempt := by linarith
        _ = capped cfg attempt * (1 + cfg.jitterPct) := by ring
        _ ≤ cfg.maxDelayS * (1 + cfg.jitterPct) :=
          mul_le_mul_of_nonneg_right (capped_le cfg attempt) (by linarith [h.jitter])
    have hge : floor cfg attempt ≤ capped cfg attempt + uniform := by
      calc floor cfg attempt = capped cfg attempt - cfg.jitterPct * capped cfg attempt := by
            rw [floor]
            ring
        _ ≤ capped cfg attempt + uniform := by linarith
    exact
      { nonneg := le_max_left _ _
        le := max_le (h.max.trans hroom) hle
        honoured := fun _ hsome => by cases hsome
        floor_le := fun _ => hge.trans (le_max_right _ _) }

/-! ## One retry -/

/-- The seconds of the `Retry-After` that `send` honours, if any. -/
def honoured (d : WebhookDispatcher py) (r : DeliveryRecord) (ans : Answers) : Option ℚ :=
  match d.profiles.of r, ans.post with
  | some profile, .response res => (waited py profile ans.now (some res.headers)).join
  | _, _ => none

/-- `float` of digits is not negative. -/
def DigitsNonneg (py : Python) : Prop :=
  ∀ s x, py.isDigit s = true → py.float s = some x → 0 ≤ x

theorem parseRetryAfter_nonneg (hpy : DigitsNonneg py) {raw : Option String} {now : Datetime}
    {x : ℚ} (h : parseRetryAfter py raw now = some (some x)) : 0 ≤ x := by
  cases raw with
  | none => cases h
  | some raw =>
    rw [parseRetryAfter] at h
    split at h
    · cases h
    split at h
    next hdigit =>
      obtain ⟨y, hy, hxy⟩ := Option.map_eq_some_iff.mp h
      cases hxy
      exact hpy _ _ hdigit hy
    split at h
    · cases h
    · cases h
    · cases h
      exact le_max_left _ _

theorem honoured_nonneg (hpy : DigitsNonneg py) {d : WebhookDispatcher py} {r : DeliveryRecord}
    {ans : Answers} {x : ℚ} (h : honoured d r ans = some x) : 0 ≤ x := by
  rw [honoured] at h
  split at h
  next profile res _ _ =>
    have hwaited := Option.join_eq_some_iff.mp h
    rw [waited] at hwaited
    split at hwaited
    · exact parseRetryAfter_nonneg hpy hwaited
    · cases hwaited
  · cases h

theorem transitionFor_retry {d : WebhookDispatcher py} {r : DeliveryRecord}
    {profile : DeliveryProfile} {ans : Answers} {reason : Option RetryReason}
    {attempt a : AttemptRecord} {headers : Option (List (String × String))} {t : Datetime}
    (h : transitionFor d r profile ans reason attempt headers = some (.retry t, a)) :
    ∃ w, waited py profile ans.now headers = some w ∧
      t = ans.now + delayS (r.attempts + 1) (retryConfig d profile) ans.uniform w := by
  rw [transitionFor] at h
  split at h
  · cases h
  · obtain ⟨w, hw, hmap⟩ := Option.bind_eq_some_iff.mp h
    obtain ⟨t, ht, heq⟩ := Option.map_eq_some_iff.mp hmap
    cases heq
    exact ⟨w, hw, eq_of_retryAt ht⟩
  · cases h

/-- The `fire_at` of a retry. -/
theorem send_retry {d : WebhookDispatcher py} {r : DeliveryRecord} {ans : Answers} {t : Datetime}
    {a : AttemptRecord} (h : (send d r ans).transition = some (.retry t, a)) :
    ∃ profile, d.profiles.of r = some profile ∧
      t = ans.now +
        delayS (r.attempts + 1) (retryConfig d profile) ans.uniform (honoured d r ans) := by
  rw [send] at h
  split at h
  next profile parsed hprofile _ =>
    split at h
    · cases h
    split at h
    · cases h
    · cases h
    · refine ⟨profile, hprofile, ?_⟩
      rw [settle] at h
      simp only at h
      rw [honoured, hprofile]
      split at h
      · cases h
      next hpost =>
        obtain ⟨w, hw, rfl⟩ := transitionFor_retry h
        cases hw
        rw [hpost]
      next res hpost =>
        obtain ⟨w, hw, rfl⟩ := transitionFor_retry h
        rw [hpost]
        simp only [hw, Option.join_some]
  · cases h

/-! ## The ladder -/

/-- A call of `schedule_retry`: the record that was sent, the answers to it, the new `fire_at`. -/
structure Retry where
  record : DeliveryRecord
  answers : Answers
  fireAt : Datetime

/-- The number of the attempt that failed. -/
def Retry.attempt (e : Retry) : Nat := e.record.attempts + 1

/-- `fire_at - now`. -/
def Retry.delay (e : Retry) : ℚ := e.fireAt - e.answers.now

/-- The store, the record of the delivery that a worker holds, and its retries so far. -/
structure Ladder (q : LeaseQueue) where
  store : q.State
  handed : Option DeliveryRecord
  retries : List Retry

/-- `attempt` sends the record that is held; `report` completes another delivery. -/
inductive Label where
  | claim (now : Datetime) (leaseTtlS batchSize : Nat) (pick : List DeliveryId)
  | attempt (answers : Answers)
  | reclaim (now : Datetime)
  | enqueue (records : List DeliveryRecord)
  | report (id : DeliveryId) (c : Completion) (attempt : AttemptRecord)

/-- The retry that a transition asks for. -/
def retryOf (r : DeliveryRecord) (ans : Answers) : Completion → List Retry
  | .retry fireAt => [⟨r, ans, fireAt⟩]
  | _ => []

/-- Nothing but `send` completes the delivery, and it is enqueued once. -/
def step (q : LeaseQueue) (d : WebhookDispatcher py) (id : DeliveryId) (w : Ladder q) :
    Label → Option (Ladder q)
  | .claim now ttl n pick =>
    (q.claimBatch w.store now ttl n pick).map fun x =>
      { w with store := x.2, handed := (x.1.find? fun r => r.deliveryId = id).or w.handed }
  | .attempt ans =>
    w.handed.bind fun r =>
      match (send d r ans).transition with
      | none => some { w with handed := none }
      | some (c, a) =>
        (q.complete w.store id c a).map fun s =>
          { store := s, handed := none, retries := w.retries ++ retryOf r ans c }
  | .reclaim now => some { w with store := (q.reclaimStale w.store now).2 }
  | .enqueue rs =>
    if rs.any (·.deliveryId = id) then none
    else (q.enqueueMany w.store rs).map fun s => { w with store := s }
  | .report id' c a =>
    if id' = id then none else (q.complete w.store id' c a).map fun s => { w with store := s }

/-- The jitter of an attempt is a draw from its range. -/
def Draws {q : LeaseQueue} (cfg : WebhookRetryConfig) (w : Ladder q) : Label → Prop
  | .attempt ans => ∀ r ∈ w.handed, InRange cfg (r.attempts + 1) ans.uniform
  | _ => True

instance {q : LeaseQueue} (cfg : WebhookRetryConfig) (w : Ladder q) (l : Label) :
    Decidable (Draws cfg w l) := by
  cases l <;> unfold Draws <;> infer_instance

/-- The delivery may still be sent. -/
def Live {q : LeaseQueue} (w : Ladder q) (j : Job) : Prop :=
  w.handed.isSome = true ∨ j.status.claimable = true ∨ j.status = .inFlight

/-- A retry that `send` has asked for, with its bounds. -/
structure Rung (d : WebhookDispatcher py) (cfg : WebhookRetryConfig) (e : Retry) : Prop where
  below : e.attempt < cfg.maxAttempts
  bounds : DelayBounds cfg e.attempt (honoured d e.record e.answers) e.delay

/-- The stored counter is the number of retries. -/
structure Climbs (q : LeaseQueue) (d : WebhookDispatcher py) (cfg : WebhookRetryConfig)
    (id : DeliveryId) (c₀ : DeliveryRecord) (w : Ladder q) (j : Job) : Prop where
  stored : q.view w.store id = some j
  kept : j.core = c₀
  handed : ∀ r, w.handed = some r → r.attempts = j.attempts ∧ core r = c₀
  counted : Live w j → j.attempts = w.retries.length
  numbered : w.retries.map Retry.attempt = List.range' 1 w.retries.length
  rungs : ∀ e ∈ w.retries, Rung d cfg e

variable {q : LeaseQueue} {d : WebhookDispatcher py} {id : DeliveryId} {c₀ : DeliveryRecord}
  {profile : DeliveryProfile} {w w' : Ladder q} {j j' : Job}

/-- A step on other deliveries, or a reclaim. -/
theorem climbs_store (hw : Climbs q d cfg id c₀ w j) {s : q.State}
    (hview : q.view s id = some j') (hattempts : j'.attempts = j.attempts)
    (hcore : j'.core = j.core) (hlive : Live w j' → Live w j) :
    Climbs q d cfg id c₀ { w with store := s } j' where
  stored := hview
  kept := hcore.trans hw.kept
  handed r hr := by
    rw [hattempts]
    exact hw.handed r hr
  counted h := hattempts.trans (hw.counted (hlive h))
  numbered := hw.numbered
  rungs := hw.rungs

theorem climbs_claim (hw : Climbs q d cfg id c₀ w j) {now : Datetime} {ttl n : Nat}
    {pick : List DeliveryId} {rs : List DeliveryRecord} {s : q.State}
    (h : q.claimBatch w.store now ttl n pick = some (rs, s)) :
    ∃ j', Climbs q d cfg id c₀
      { w with store := s, handed := (rs.find? fun r => r.deliveryId = id).or w.handed } j' := by
  cases hfind : rs.find? fun r => r.deliveryId = id with
  | none =>
    obtain ⟨j', hview, hattempts, hcore, hstatus⟩ := q.claim_present h hw.stored
    refine ⟨j', climbs_store hw hview hattempts hcore fun hlive => ?_⟩
    rcases hstatus with hsame | ⟨hclaimable, -⟩
    · rwa [Live, hsame] at hlive
    · exact Or.inr (Or.inl hclaimable)
  | some r =>
    have hid : r.deliveryId = id := by simpa using List.find?_some hfind
    obtain ⟨-, hin, -⟩ := q.view_claim w.store now ttl n pick rs s h
    obtain ⟨j₀, e, hj₀, hclaimable, hattempts, hcore, hview⟩ :=
      hin r (List.mem_of_find?_eq_some hfind)
    rw [hid, hw.stored] at hj₀
    cases hj₀
    rw [hid] at hview
    refine ⟨{ j with status := .inFlight, lease := some e }, ?_⟩
    exact
      { stored := hview
        kept := hw.kept
        handed := fun r' hr' => by
          cases hr'
          exact ⟨hattempts, hcore.trans hw.kept⟩
        counted := fun _ => hw.counted (Or.inr (Or.inl hclaimable))
        numbered := hw.numbered
        rungs := hw.rungs }

/-- The retry of the record that is held is the next rung. -/
theorem rung_of_send (hprofile : d.profiles.of c₀ = some profile)
    (hcfg : Sane (retryConfig d profile)) (hpy : DigitsNonneg py) {r : DeliveryRecord}
    (hcore : core r = c₀) {ans : Answers}
    (hdraw : InRange (retryConfig d profile) (r.attempts + 1) ans.uniform) {t : Datetime}
    {a : AttemptRecord} (h : (send d r ans).transition = some (.retry t, a)) :
    Rung d (retryConfig d profile) ⟨r, ans, t⟩ := by
  have hfound : d.profiles.of r = some profile := by
    rw [← hcore] at hprofile
    exact hprofile
  obtain ⟨profile₁, hprofile₁, hlt⟩ := (send_transition h).retry t rfl
  obtain ⟨profile₂, hprofile₂, ht⟩ := send_retry h
  rw [hfound] at hprofile₁ hprofile₂
  cases hprofile₁
  cases hprofile₂
  refine ⟨hlt, ?_⟩
  have hdelay : (⟨r, ans, t⟩ : Retry).delay =
      delayS (r.attempts + 1) (retryConfig d profile) ans.uniform (honoured d r ans) := by
    rw [Retry.delay, ht]
    ring
  rw [hdelay]
  exact delayS_spec hcfg hdraw fun x hx => honoured_nonneg hpy hx

/-- A delivery that is sent or dead is not sent again. -/
theorem climbs_ended (hw : Climbs q d cfg id c₀ w j) {s : q.State} {c : Completion} {n : Nat}
    (hview : q.view s id = some (c.settle q.counter n j)) (hc : c = .sent ∨ c = .dead)
    (r : DeliveryRecord) (ans : Answers) :
    Climbs q d cfg id c₀ { store := s, handed := none, retries := w.retries ++ retryOf r ans c }
      (c.settle q.counter n j) := by
  have hnone : retryOf r ans c = [] := by
    rcases hc with rfl | rfl <;> rfl
  rw [hnone, List.append_nil]
  exact
    { stored := hview
      kept := (settle_core ..).trans hw.kept
      handed := fun _ hr => by cases hr
      counted := fun hlive => by
        rcases hc with rfl | rfl <;>
          simp [Live, Completion.settle, DeliveryStatus.claimable] at hlive
      numbered := hw.numbered
      rungs := hw.rungs }

theorem climbs_attempt (hprofile : d.profiles.of c₀ = some profile)
    (hcfg : Sane (retryConfig d profile)) (hpy : DigitsNonneg py)
    (hw : Climbs q d (retryConfig d profile) id c₀ w j) {ans : Answers}
    (hdraw : Draws (retryConfig d profile) w (.attempt ans))
    (h : step q d id w (.attempt ans) = some w') :
    ∃ j', Climbs q d (retryConfig d profile) id c₀ w' j' := by
  obtain ⟨r, hr, h⟩ := Option.bind_eq_some_iff.mp h
  obtain ⟨hattempts, hcore⟩ := hw.handed r hr
  have hcount := hw.counted (Or.inl (by rw [hr]; rfl))
  split at h
  · cases h
    exact ⟨j, { hw with
      handed := fun r hr => by cases hr
      counted := fun hlive => hcount }⟩
  next c a hsend =>
    obtain ⟨s, hs, rfl⟩ := Option.map_eq_some_iff.mp h
    have hview := q.view_complete w.store id c a j s hw.stored hs
    have hreports := send_transition hsend
    refine ⟨c.settle q.counter a.attempt j, ?_⟩
    cases c with
    | append => exact absurd rfl hreports.status
    | sent => exact climbs_ended hw hview (Or.inl rfl) r ans
    | dead => exact climbs_ended hw hview (Or.inr rfl) r ans
    | retry t =>
      have hnext : (Completion.settle q.counter (.retry t) a.attempt j).attempts =
          w.retries.length + 1 := by
        rw [settle_attempts, hreports.attempt, hattempts, q.counter_retry, hcount]
      exact
        { stored := hview
          kept := hw.kept
          handed := fun r hr => by cases hr
          counted := fun _ => by rw [hnext, retryOf, List.length_append, List.length_singleton]
          numbered := by
            rw [retryOf, List.map_append, List.length_append, List.length_singleton,
              List.range'_1_concat, hw.numbered, List.map_singleton, Retry.attempt, hattempts,
              hcount, Nat.add_comm 1]
          rungs := fun e he => by
            rcases List.mem_append.mp he with he | he
            · exact hw.rungs e he
            · rw [List.mem_singleton.mp he]
              exact rung_of_send hprofile hcfg hpy hcore (hdraw r hr) hsend }

theorem climbs_step (hprofile : d.profiles.of c₀ = some profile)
    (hcfg : Sane (retryConfig d profile)) (hpy : DigitsNonneg py) {l : Label}
    (hw : Climbs q d (retryConfig d profile) id c₀ w j)
    (hdraw : Draws (retryConfig d profile) w l) (h : step q d id w l = some w') :
    ∃ j', Climbs q d (retryConfig d profile) id c₀ w' j' := by
  cases l with
  | claim now ttl n pick =>
    obtain ⟨⟨rs, s⟩, hclaim, rfl⟩ := Option.map_eq_some_iff.mp h
    exact climbs_claim hw hclaim
  | attempt ans => exact climbs_attempt hprofile hcfg hpy hw hdraw h
  | reclaim now =>
    cases h
    obtain ⟨j', hview, hattempts, hcore, hstatus⟩ := q.reclaim_present w.store now hw.stored
    refine ⟨j', climbs_store hw hview hattempts hcore fun hlive => ?_⟩
    rcases hstatus with hsame | ⟨hflight, -⟩
    · rwa [Live, hsame] at hlive
    · exact Or.inr (Or.inr hflight)
  | enqueue rs =>
    rw [step] at h
    split at h
    case isTrue => cases h
    case isFalse hany =>
      obtain ⟨s, hs, rfl⟩ := Option.map_eq_some_iff.mp h
      have hother : ∀ r ∈ rs, r.deliveryId ≠ id := by simpa using hany
      have hview := q.view_enqueue_other w.store rs s id hs hother
      exact ⟨j, climbs_store hw (hview.trans hw.stored) rfl rfl fun hlive => hlive⟩
  | report id' c a =>
    rw [step] at h
    split at h
    case isTrue => cases h
    case isFalse hne =>
      obtain ⟨s, hs, rfl⟩ := Option.map_eq_some_iff.mp h
      have hview := q.view_complete_other w.store id' c a s id hs (Ne.symm hne)
      exact ⟨j, climbs_store hw (hview.trans hw.stored) rfl rfl fun hlive => hlive⟩

/-! ## The result -/

theorem climbs_run (hprofile : d.profiles.of c₀ = some profile)
    (hcfg : Sane (retryConfig d profile)) (hpy : DigitsNonneg py) {ls : List Label}
    (hw : Climbs q d (retryConfig d profile) id c₀ w j)
    (hdraws : Along (step q d id) (Draws (retryConfig d profile)) w ls)
    (hr : run (step q d id) w ls = some w') :
    ∃ j', Climbs q d (retryConfig d profile) id c₀ w' j' :=
  run_preserves (I := fun w => ∃ j, Climbs q d (retryConfig d profile) id c₀ w j)
    (fun _ _ _ ⟨_, hw⟩ hdraw h => climbs_step hprofile hcfg hpy hw hdraw h) hdraws ⟨j, hw⟩ hr

/-- The attempts of the retries are 1, 2, …, each below the limit. -/
theorem length_retries_le (hw : Climbs q d cfg id c₀ w j) :
    w.retries.length ≤ cfg.maxAttempts - 1 := by
  cases hlen : w.retries.length with
  | zero => exact Nat.zero_le _
  | succ n =>
    have hmem : n + 1 ∈ w.retries.map Retry.attempt := by
      rw [hw.numbered, hlen, List.mem_range'_1]
      omega
    obtain ⟨e, he, hattempt⟩ := List.mem_map.mp hmem
    have hbelow := (hw.rungs e he).below
    omega

theorem sum_delays_le (hcfg : Sane cfg) (hw : Climbs q d cfg id c₀ w j) :
    (w.retries.map Retry.delay).sum ≤
      (cfg.maxAttempts - 1 : Nat) * (cfg.maxDelayS * (1 + cfg.jitterPct)) := by
  have heach : ∀ x ∈ w.retries.map Retry.delay, x ≤ cfg.maxDelayS * (1 + cfg.jitterPct) := by
    intro x hx
    obtain ⟨e, he, rfl⟩ := List.mem_map.mp hx
    exact (hw.rungs e he).bounds.le
  have hroom : 0 ≤ cfg.maxDelayS * (1 + cfg.jitterPct) :=
    mul_nonneg hcfg.max (by linarith [hcfg.jitter])
  calc (w.retries.map Retry.delay).sum
      ≤ (w.retries.map Retry.delay).length • (cfg.maxDelayS * (1 + cfg.jitterPct)) :=
        List.sum_le_card_nsmul _ _ heach
    _ = (w.retries.length : ℚ) * (cfg.maxDelayS * (1 + cfg.jitterPct)) := by
        rw [List.length_map, nsmul_eq_mul]
    _ ≤ (cfg.maxAttempts - 1 : Nat) * (cfg.maxDelayS * (1 + cfg.jitterPct)) :=
        mul_le_mul_of_nonneg_right (Nat.cast_le.mpr (length_retries_le hw)) hroom

/-- The retries of a delivery that starts at 0 attempts: at most `max_attempts - 1`, numbered from
1 on, each with a delay in its bounds; the least delay does not fall, and the sum is bounded. -/
theorem retry_ladder (q : LeaseQueue) (d : WebhookDispatcher py) (id : DeliveryId) (s₀ : q.State)
    (j₀ : Job) (profile : DeliveryProfile) (h₀ : q.view s₀ id = some j₀) (hzero : j₀.attempts = 0)
    (hprofile : d.profiles.of j₀.core = some profile) (hcfg : Sane (retryConfig d profile))
    (hpy : DigitsNonneg py) (ls : List Label) (w : Ladder q)
    (hr : run (step q d id) ⟨s₀, none, []⟩ ls = some w)
    (hdraws : Along (step q d id) (Draws (retryConfig d profile)) ⟨s₀, none, []⟩ ls) :
    let cfg := retryConfig d profile
    w.retries.length ≤ cfg.maxAttempts - 1 ∧
    w.retries.map Retry.attempt = List.range' 1 w.retries.length ∧
    (∀ e ∈ w.retries, DelayBounds cfg e.attempt (honoured d e.record e.answers) e.delay) ∧
    (w.retries.Pairwise fun e e' => floor cfg e.attempt ≤ floor cfg e'.attempt) ∧
    (w.retries.map Retry.delay).sum ≤
      (cfg.maxAttempts - 1 : Nat) * (cfg.maxDelayS * (1 + cfg.jitterPct)) := by
  have hstart : Climbs q d (retryConfig d profile) id j₀.core ⟨s₀, none, []⟩ j₀ :=
    { stored := h₀
      kept := rfl
      handed := fun _ hr => by cases hr
      counted := fun _ => hzero
      numbered := rfl
      rungs := fun _ he => absurd he List.not_mem_nil }
  obtain ⟨j, hw⟩ := climbs_run hprofile hcfg hpy hstart hdraws hr
  refine ⟨length_retries_le hw, hw.numbered, fun e he => (hw.rungs e he).bounds, ?_,
    sum_delays_le hcfg hw⟩
  have hsorted : (w.retries.map Retry.attempt).Pairwise (· < ·) := by
    rw [hw.numbered]
    exact List.pairwise_lt_range'
  rw [List.pairwise_map] at hsorted
  exact hsorted.imp fun hlt => floor_mono hcfg hlt.le

abbrev memory : LeaseQueue := Stores.Memory.memoryQueue.toLeaseQueue

def exampleDelivery : DeliveryRecord := exampleRecord "d" "https://example.com/hook"

/-- The receiver answers with a failure, and may name a wait. -/
def failure (now : Datetime) (status : Int) (headers : List (String × String)) (uniform : ℚ) :
    Answers :=
  { exampleAnswers now none with
    post := .response { status := status, headers := headers, bodySnippet := "", durationMs := 1 }
    uniform := uniform }

/-- A failure, and then one with a `Retry-After`. -/
def twoFailures : List Label :=
  [.claim 0 60 10 [], .attempt (failure 0 503 [] 1), .claim 6 60 10 [],
    .attempt (failure 6 429 [("Retry-After", "30")] 0)]

theorem retry_ladder_two : ∃ w, run (step memory exampleDispatcher "d")
      ⟨Stores.Memory.enqueueMany Stores.Memory.empty [exampleDelivery], none, []⟩ twoFailures =
        some w ∧
    w.retries.map Retry.delay = [6, 30] ∧ w.retries.length ≤ 7 := by
  obtain ⟨w, hw, hdelays⟩ := (Option.any_eq_true ..).mp (by decide +kernel :
    (run (step memory exampleDispatcher "d")
      ⟨Stores.Memory.enqueueMany Stores.Memory.empty [exampleDelivery], none, []⟩
      twoFailures).any (fun w => decide (w.retries.map Retry.delay = [6, 30])) = true)
  have hsane : Sane ({} : WebhookRetryConfig) :=
    ⟨by decide +kernel, by decide +kernel, by decide +kernel, by decide +kernel,
      by decide +kernel⟩
  have hdigits : DigitsNonneg examplePython := by
    intro s x _ h
    cases h
    exact Nat.cast_nonneg _
  have hladder := retry_ladder memory exampleDispatcher "d" _
    ⟨.pending, 0, none, core exampleDelivery⟩ { encode := rawEncode } (by decide +kernel) rfl rfl
    hsane hdigits twoFailures w hw (by decide +kernel)
  exact ⟨w, hw, of_decide_eq_true hdelays, hladder.1⟩

end WebhookEngine.RetryLadder
