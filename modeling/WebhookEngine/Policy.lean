import WebhookEngine.Lib.Python
import WebhookEngine.Types

/-!
# Retry classification and delays

`DeliveryPolicy` and `parse_retry_after` of `policy.py`, and the addition of a delay to a
time. Numbers are exact where floats round, with the `OverflowError` of the largest; the draw
of `random.uniform` is an argument.

* `retryOn_lt`, `outcomeStatus_failedRetry`: what the policy promises the dispatcher;
* `nextDelayS_eq_none_iff`: when there is no delay.
-/

namespace WebhookEngine.Policy

open Lib Lib.Text

/-- `RETRYABLE_REASONS`. -/
def RETRYABLE_REASONS : List RetryReason := [.http5xx, .http408, .http429, .networkError, .timeout]

def classifyStatus (status : Int) : Option RetryReason :=
  if 200 ≤ status ∧ status < 300 then none
  else if 500 ≤ status then some .http5xx
  else if status = 408 then some .http408
  else if status = 429 then some .http429
  else some .nonRetryable4xx

/-- `classify_exception`, by whether the exception is an `httpx.TimeoutException`. -/
def classifyException (timeout : Bool) : RetryReason := if timeout then .timeout else .networkError

def retryOn (reason : RetryReason) (attempt : Nat) (cfg : WebhookRetryConfig) : Bool :=
  reason ∈ RETRYABLE_REASONS && attempt < cfg.maxAttempts

/-- From here on a number rounds beyond the largest float. -/
def floatEnd : Nat := 2 ^ 1024 - 2 ^ 970

/-- `x ** n` of a float; `none` is the `OverflowError`. -/
def floatPow (x : ℚ) (n : Nat) : Option ℚ :=
  -- the exponent is made a float too
  if n < floatEnd ∧ |x ^ n| < floatEnd then some (x ^ n) else none

/-- `capped` of `next_delay_s`. -/
def capped (cfg : WebhookRetryConfig) (attempt : Nat) : ℚ :=
  min (cfg.baseDelayS * cfg.backoffFactor ^ (attempt - 1)) cfg.maxDelayS

/-- The value of `next_delay_s`. -/
def delayS (attempt : Nat) (cfg : WebhookRetryConfig) (uniform : ℚ) (retryAfterS : Option ℚ) : ℚ :=
  match retryAfterS with
  | some waited => min waited cfg.maxDelayS
  | none => max 0 (capped cfg attempt + uniform)

/-- `next_delay_s`; `none` is the `OverflowError` of the power. -/
def nextDelayS (attempt : Nat) (cfg : WebhookRetryConfig) (uniform : ℚ)
    (retryAfterS : Option ℚ) : Option ℚ :=
  match retryAfterS with
  | some waited => some (min waited cfg.maxDelayS)
  | none =>
    (floatPow cfg.backoffFactor (attempt - 1)).map fun power =>
      max 0 (min (cfg.baseDelayS * power) cfg.maxDelayS + uniform)

/-- From `datetime.min` to `datetime.max`, in seconds since the epoch. -/
def InDatetimes (t : ℚ) : Prop := -62135596800 ≤ t ∧ t < 253402300800

instance (t : ℚ) : Decidable (InDatetimes t) := inferInstanceAs (Decidable (_ ∧ _))

/-- `now + timedelta(seconds=delay)`; `none` is the `OverflowError`. A `timedelta` that is out
of range itself leads out of the datetimes from any of them. -/
def addSeconds (now : Datetime) (delay : ℚ) : Option Datetime :=
  if InDatetimes (now + delay) then some (now + delay) else none

def outcomeStatus (reason : Option RetryReason) (willRetry : Bool) : DeliveryStatus :=
  match reason with
  | none => .sent
  | some _ => if willRetry then .failedRetry else .deadLettered

/-- `parse_retry_after`; the outer `none` is an exception that escapes. -/
def parseRetryAfter (py : Python) (raw : Option String) (now : Datetime) : Option (Option ℚ) :=
  match raw with
  | none => some none
  | some raw =>
    let text := strip raw.toList
    if text = [] then some none
    else if py.isDigit text then (py.float text).map some
    else match py.parseDate text with
      | none => some none
      | some none => some none
      | some (some t) => some (some (max 0 (t - now)))

theorem floatPow_eq_some {x y : ℚ} {n : Nat} (h : floatPow x n = some y) : y = x ^ n := by
  obtain ⟨-, h⟩ := Option.ite_none_right_eq_some.mp h
  exact (Option.some_inj.mp h).symm

/-- A delay that there is has its value. -/
theorem eq_delayS_of_nextDelayS {attempt : Nat} {cfg : WebhookRetryConfig} {uniform delay : ℚ}
    {retryAfterS : Option ℚ} (h : nextDelayS attempt cfg uniform retryAfterS = some delay) :
    delay = delayS attempt cfg uniform retryAfterS := by
  cases retryAfterS with
  | some waited =>
    cases h
    rfl
  | none =>
    simp only [nextDelayS, Option.map_eq_some_iff] at h
    obtain ⟨power, hpower, rfl⟩ := h
    rw [floatPow_eq_some hpower, delayS, capped]

theorem nextDelayS_eq_none_iff {attempt : Nat} {cfg : WebhookRetryConfig} {uniform : ℚ}
    {retryAfterS : Option ℚ} : nextDelayS attempt cfg uniform retryAfterS = none ↔
      retryAfterS = none ∧ floatPow cfg.backoffFactor (attempt - 1) = none := by
  cases retryAfterS with
  | some waited => simp [nextDelayS]
  | none => simp [nextDelayS]

/-- The time of a retry, if there is one. -/
def retryAt (now : Datetime) (attempt : Nat) (cfg : WebhookRetryConfig) (uniform : ℚ)
    (retryAfterS : Option ℚ) : Option Datetime :=
  (nextDelayS attempt cfg uniform retryAfterS).bind (addSeconds now)

theorem eq_of_retryAt {now t : Datetime} {attempt : Nat} {cfg : WebhookRetryConfig} {uniform : ℚ}
    {retryAfterS : Option ℚ} (h : retryAt now attempt cfg uniform retryAfterS = some t) :
    t = now + delayS attempt cfg uniform retryAfterS := by
  obtain ⟨delay, hdelay, h⟩ := Option.bind_eq_some_iff.mp h
  obtain ⟨-, h⟩ := Option.ite_none_right_eq_some.mp h
  cases h
  rw [eq_delayS_of_nextDelayS hdelay]

/-- There is no such time when the power overflows, or the sum does. -/
theorem retryAt_eq_none_iff {now : Datetime} {attempt : Nat} {cfg : WebhookRetryConfig}
    {uniform : ℚ} {retryAfterS : Option ℚ} :
    retryAt now attempt cfg uniform retryAfterS = none ↔
      retryAfterS = none ∧ floatPow cfg.backoffFactor (attempt - 1) = none ∨
        ¬ InDatetimes (now + delayS attempt cfg uniform retryAfterS) := by
  cases hdelay : nextDelayS attempt cfg uniform retryAfterS with
  | none =>
    rw [retryAt, hdelay]
    exact iff_of_true rfl (.inl (nextDelayS_eq_none_iff.mp hdelay))
  | some delay =>
    have hsome : ¬ (retryAfterS = none ∧ floatPow cfg.backoffFactor (attempt - 1) = none) := by
      rw [← nextDelayS_eq_none_iff, hdelay]
      exact Option.some_ne_none _
    rw [retryAt, hdelay, Option.bind_some, addSeconds, eq_delayS_of_nextDelayS hdelay]
    simp [hsome]

/-- A retry is scheduled only below the attempt limit. -/
theorem retryOn_lt {reason : RetryReason} {attempt : Nat} {cfg : WebhookRetryConfig}
    (h : retryOn reason attempt cfg = true) : attempt < cfg.maxAttempts := by
  simp only [retryOn, Bool.and_eq_true, decide_eq_true_eq] at h
  exact h.2

theorem outcomeStatus_failedRetry {reason : Option RetryReason} {willRetry : Bool}
    (h : outcomeStatus reason willRetry = .failedRetry) : willRetry = true := by
  cases reason <;> cases willRetry <;> simp_all [outcomeStatus]

end WebhookEngine.Policy
