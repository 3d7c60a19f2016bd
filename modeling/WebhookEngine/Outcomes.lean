import WebhookEngine.Engine

/-!
# What `send` and `tick` report

`WebhookDispatcher.send` and `WebhookEngine.tick` with what they return. An `Eff` is
a computation that makes store calls and may raise: the calls that took effect are its
state, so that they stay when it raises. The callback of `on_outcome` is left out, and so is
`_inflight`.

* `sendEff_run`: `send` makes the transition of its `Plan` and returns its outcome, or raises
  and makes none;
* `reports_transitions`: each exit of `send`, and the counters of every tick;
* `response_settles_iff`: the responses on which `send` raises.
-/

namespace WebhookEngine.Outcomes

open Lib Lib.Text Dispatcher Policy Stores.Queue Engine

/-! ## Effects -/

structure DispatchOutcome where
  status : DeliveryStatus
  nextFireAt : Option Datetime
  attempt : AttemptRecord
  deriving DecidableEq

/-- Store calls in order, and an exception that leaves those made. -/
abbrev Eff := ExceptT Unit (StateM (List Call))

/-- The calls made, and the result; `none` is an exception. -/
def Eff.outcome {α : Type} (m : Eff α) : Option α × List Call :=
  match m.run.run [] with
  | (.ok x, calls) => (some x, calls)
  | (.error _, calls) => (none, calls)

def raise {α : Type} : Eff α := throw ()

def ofOption {α : Type} : Option α → Eff α
  | some x => pure x
  | none => raise

/-- The event bus: absent, or `emit_post` returns or raises. -/
inductive Bus where
  | absent
  | emits (ok : Bool)

/-- What the outside answers during one `send`, the store and the bus included. -/
structure Outside where
  ans : Answers
  store : Call → Bool
  bus : Bus

/-- A store call, which may raise before it takes effect. -/
def storeCall (out : Outside) (call : Call) : Eff Unit :=
  if out.store call then modify (· ++ [call]) else raise

/-! ## The dispatcher -/

variable {py : Python}

/-- `bus.emit_post(..)`. -/
def emitPost (ok : Bool) : Eff Unit := if ok then pure () else raise

/-- `_dead_letter_from_attempt`. -/
def deadLetterFromAttempt (out : Outside) (attempt : AttemptRecord) : Eff DispatchOutcome := do
  storeCall out (.dead, attempt)
  match out.bus with
  | .absent => pure ()
  | .emits ok =>
    -- a bus that raises is logged and forgotten
    tryCatch (emitPost ok) fun _ => pure ()
  return ⟨.deadLettered, none, attempt⟩

/-- The end of `send`: from the classified answer to the store call. -/
def finish (d : WebhookDispatcher py) (r : DeliveryRecord) (profile : DeliveryProfile)
    (out : Outside) (reason : Option RetryReason) (attempt : AttemptRecord)
    (headers : Option (List (String × String))) : Eff DispatchOutcome :=
  let attemptNo := r.attempts + 1
  let retryCfg := retryConfig d profile
  match outcomeStatus reason (reason.any fun x => retryOn x attemptNo retryCfg) with
  | .sent => do
    storeCall out (.sent, attempt)
    return ⟨.sent, none, attempt⟩
  | .failedRetry => do
    let w ← ofOption (waited py profile out.ans.now headers)
    let fireAt ← ofOption (retryAt out.ans.now attemptNo retryCfg out.ans.uniform w)
    storeCall out (.retry fireAt, attempt)
    return ⟨.failedRetry, some fireAt, attempt⟩
  | _ => deadLetterFromAttempt out attempt

/-- From the answer of `sender.post` on. -/
def settleEff (d : WebhookDispatcher py) (r : DeliveryRecord) (profile : DeliveryProfile)
    (out : Outside) : Eff DispatchOutcome :=
  match out.ans.post with
  | .raises => raise
  | .requestError timeout text =>
    finish d r profile out (some (classifyException timeout))
      { attempt := r.attempts + 1, attemptedAt := out.ans.now, httpCode := none, durationMs := 0,
        error := some text, responseSnippet := "" } none
  | .response res =>
    let reason := classifyStatus res.status
    finish d r profile out reason
      { attempt := r.attempts + 1, attemptedAt := out.ans.now, httpCode := some res.status,
        durationMs := res.durationMs, error := none, responseSnippet := res.bodySnippet,
        responseBody := if reason = none then res.body else [],
        responseTruncated := res.bodyTruncated } (some res.headers)

/-- `WebhookDispatcher.send`. -/
def sendEff (d : WebhookDispatcher py) (r : DeliveryRecord) (out : Outside) :
    Eff DispatchOutcome :=
  match d.profiles.of r, Url.urlsplit py r.targetUrl.toList with
  | some profile, some parsed =>
    match parsed.port with
    | none => raise
    | some port =>
      match prepare d r profile parsed port out.ans with
      | .raises => raise
      | .deadLetter error => deadLetterFromAttempt out (deadLetter r out.ans.now error).2
      | .post _ => settleEff d r profile out
  | _, _ => raise

/-- What a transition is reported as. -/
def outcomeOf (call : Call) : DispatchOutcome :=
  match call.1 with
  | .sent => ⟨.sent, none, call.2⟩
  | .retry t => ⟨.failedRetry, some t, call.2⟩
  | .dead => ⟨.deadLettered, none, call.2⟩
  | .append => ⟨.pending, none, call.2⟩

/-- A transition that the store may refuse. -/
def attempted (out : Outside) : Option Call → Option DispatchOutcome × List Call
  | none => (none, [])
  | some call => if out.store call then (some (outcomeOf call), [call]) else (none, [])

theorem storeCall_outcome (out : Outside) (call : Call) (o : DispatchOutcome)
    (ho : outcomeOf call = o) :
    (do storeCall out call; return o : Eff DispatchOutcome).outcome =
      attempted out (some call) := by
  subst ho
  unfold storeCall
  simp only [attempted]
  cases out.store call <;> rfl

theorem deadLetter_outcome (out : Outside) (attempt : AttemptRecord) :
    (deadLetterFromAttempt out attempt).outcome = attempted out (some (.dead, attempt)) := by
  unfold deadLetterFromAttempt storeCall
  simp only [attempted]
  cases out.store (.dead, attempt) with
  | false => rfl
  | true =>
    cases out.bus with
    | absent => rfl
    | emits ok => cases ok <;> rfl

theorem finish_outcome (d : WebhookDispatcher py) (r : DeliveryRecord) (profile : DeliveryProfile)
    (out : Outside) (reason : Option RetryReason) (attempt : AttemptRecord)
    (headers : Option (List (String × String))) :
    (finish d r profile out reason attempt headers).outcome =
      attempted out (transitionFor d r profile out.ans reason attempt headers) := by
  unfold finish transitionFor
  simp only
  generalize outcomeStatus reason _ = status
  cases status with
  | sent => exact storeCall_outcome out _ _ rfl
  | failedRetry =>
    cases waited py profile out.ans.now headers with
    | none => rfl
    | some w =>
      rw [show ofOption (some w) = pure w from rfl, pure_bind, Option.bind_some]
      cases retryAt out.ans.now (r.attempts + 1) (retryConfig d profile) out.ans.uniform w with
      | none => rfl
      | some t => exact storeCall_outcome out _ _ rfl
  | pending => exact deadLetter_outcome out attempt
  | inFlight => exact deadLetter_outcome out attempt
  | deadLettered => exact deadLetter_outcome out attempt
  | cancelled => exact deadLetter_outcome out attempt

theorem settle_outcome (d : WebhookDispatcher py) (r : DeliveryRecord) (profile : DeliveryProfile)
    (out : Outside) :
    (settleEff d r profile out).outcome = attempted out (settle d r profile out.ans) := by
  unfold settleEff settle
  cases out.ans.post with
  | raises => rfl
  | requestError timeout text => exact finish_outcome ..
  | response res => exact finish_outcome ..

/-- **`send` makes the transition of its plan**, and reports it; or it makes none. -/
theorem sendEff_run (d : WebhookDispatcher py) (r : DeliveryRecord) (out : Outside) :
    (sendEff d r out).outcome = attempted out (send d r out.ans).transition := by
  unfold sendEff send
  cases d.profiles.of r with
  | none => rfl
  | some profile =>
    cases Url.urlsplit py r.targetUrl.toList with
    | none => rfl
    | some parsed =>
      simp only
      cases parsed.port with
      | none => rfl
      | some port =>
        simp only
        cases prepare d r profile parsed port out.ans with
        | raises => rfl
        | deadLetter error => exact deadLetter_outcome out _
        | post call => exact settle_outcome d r profile out

/-- The last step of a dispatch in the model of the engines is the one of `send` here. -/
theorem settleStep_sendEff (d : WebhookDispatcher py) (r : DeliveryRecord) (out : Outside)
    (ok : Bool) (hok : ∀ call, out.store call = ok) :
    (settleStep d r out.ans ok).1.toList = (sendEff d r out).outcome.2 := by
  rw [sendEff_run, settleStep]
  cases (send d r out.ans).transition with
  | none => rfl
  | some call =>
    simp only [attempted, hok]
    cases ok <;> rfl

/-! ## The engine -/

structure EngineTickStats where
  claimed : Nat := 0
  sent : Nat := 0
  retried : Nat := 0
  dead : Nat := 0
  errors : Nat := 0
  deriving DecidableEq, Repr

/-- What the store answers to `_quarantine`, and the name of the exception. -/
structure Salvage where
  now : Datetime
  error : String
  appends : Bool
  buries : Bool

/-- `_quarantine`: the calls that take effect. -/
def quarantine (cfg : WebhookDispatchConfig) (r : DeliveryRecord) (q : Salvage) : List Call :=
  let attempt := unhandled r q.now q.error
  if q.appends then
    (.append, attempt) ::
      if cfg.maxUnhandledAttempts ≤ attempt.attempt then
        if q.buries then [(.dead, attempt)] else []
      else []
  else []

/-- One record of a batch with what the outside answers on its way. -/
structure Dispatch where
  record : DeliveryRecord
  out : Outside
  salvage : Salvage

/-- A `_dispatch_one` that has ended: its result for `gather`, the transitions of `send`,
and the calls of `_quarantine`. -/
structure Dispatched where
  result : Option DispatchOutcome
  transitions : List Call
  quarantined : List Call

/-- `_dispatch_one`. -/
def dispatchOne (cfg : WebhookDispatchConfig) (d : WebhookDispatcher py) (x : Dispatch) :
    Dispatched :=
  match (sendEff d x.record x.out).outcome with
  | (some o, calls) => ⟨some o, calls, []⟩
  | (none, calls) => ⟨none, calls, quarantine cfg x.record x.salvage⟩

/-- The loop over what `gather` returns. -/
def countOutcome (stats : EngineTickStats) (result : Option DispatchOutcome) : EngineTickStats :=
  match result with
  | none => { stats with errors := stats.errors + 1 }
  | some o =>
    match o.status with
    | .sent => { stats with sent := stats.sent + 1 }
    | .failedRetry => { stats with retried := stats.retried + 1 }
    | .deadLettered => { stats with dead := stats.dead + 1 }
    | _ => stats

/-- `WebhookEngine.tick`: `batch` is what `claim_batch` returns, `none` if it raises. -/
def tick (cfg : WebhookDispatchConfig) (d : WebhookDispatcher py) (reclaimed : Bool)
    (batch : Option (List Dispatch)) : EngineTickStats × List Dispatched :=
  let reclaimErrors := if reclaimed then 0 else 1
  match batch with
  | none => ({ errors := 1 }, [])
  | some [] => ({ errors := reclaimErrors }, [])
  | some batch =>
    let ended := batch.map (dispatchOne cfg d)
    ((ended.map (·.result)).foldl countOutcome
      { claimed := batch.length, errors := reclaimErrors }, ended)

/-- How many of the dispatches moved their record with a call of this kind. -/
def moved (p : Completion → Bool) (ended : List Dispatched) : Nat :=
  ended.countP fun x => x.transitions.any fun call => p call.1

/-- How many of the dispatches raised. -/
def raised (ended : List Dispatched) : Nat := ended.countP fun x => x.result.isNone

/-- The texts on which `parse_retry_after` raises. -/
theorem parseRetryAfter_raises_iff (py : Python) (raw : Option String) (now : Datetime) :
    parseRetryAfter py raw now = none ↔ ∃ text, raw = some text ∧ strip text.toList ≠ [] ∧
      py.isDigit (strip text.toList) = true ∧ py.float (strip text.toList) = none := by
  unfold parseRetryAfter
  cases raw with
  | none => simp
  | some text =>
    simp only [Option.some.injEq, exists_eq_left']
    by_cases hnil : strip text.toList = []
    · simp [hnil]
    by_cases hdigit : py.isDigit (strip text.toList) = true
    · simp [hnil, hdigit]
    · rw [if_neg hnil, if_neg hdigit]
      refine iff_of_false ?_ (by simp [hdigit])
      split <;> simp

/-- The response asks for a retry with a `Retry-After` of digits that is no number. -/
def AsksUnreadably (d : WebhookDispatcher py) (r : DeliveryRecord) (res : HttpSendResult) : Prop :=
  ∃ profile raw, d.profiles.of r = some profile ∧ profile.honourRetryAfter = true ∧
    (classifyStatus res.status).any
      (fun x => retryOn x (r.attempts + 1) (retryConfig d profile)) = true ∧
    retryAfterHeader py res.headers = some raw ∧ strip raw.toList ≠ [] ∧
    py.isDigit (strip raw.toList) = true ∧ py.float (strip raw.toList) = none

/-- The response asks for a retry in `seconds`, if it is honoured, and there is no such time:
the power of the backoff overflows, or the sum of the time and the delay does. -/
def Overflows (d : WebhookDispatcher py) (r : DeliveryRecord) (ans : Answers)
    (res : HttpSendResult) : Prop :=
  ∃ profile seconds, d.profiles.of r = some profile ∧
    (classifyStatus res.status).any
      (fun x => retryOn x (r.attempts + 1) (retryConfig d profile)) = true ∧
    waited py profile ans.now (some res.headers) = some seconds ∧
    (seconds = none ∧ floatPow (retryConfig d profile).backoffFactor r.attempts = none ∨
      ¬ InDatetimes (ans.now +
        delayS (r.attempts + 1) (retryConfig d profile) ans.uniform seconds))

theorem transitionFor_eq_none_iff {d : WebhookDispatcher py} {r : DeliveryRecord}
    {profile : DeliveryProfile} {ans : Answers} {reason : Option RetryReason}
    {attempt : AttemptRecord} {headers : Option (List (String × String))} :
    transitionFor d r profile ans reason attempt headers = none ↔
      reason.any (fun x => retryOn x (r.attempts + 1) (retryConfig d profile)) = true ∧
        ∀ w, waited py profile ans.now headers = some w →
          retryAt ans.now (r.attempts + 1) (retryConfig d profile) ans.uniform w = none := by
  unfold transitionFor
  cases reason with
  | none => simp [outcomeStatus]
  | some x =>
    simp only [Option.any_some, outcomeStatus]
    by_cases hretry : retryOn x (r.attempts + 1) (retryConfig d profile) = true
    · simp [hretry]
    · simp [hretry]

theorem waited_eq_none_iff {profile : DeliveryProfile} {now : Datetime}
    {headers : List (String × String)} :
    waited py profile now (some headers) = none ↔ profile.honourRetryAfter = true ∧
      parseRetryAfter py (retryAfterHeader py headers) now = none := by
  unfold waited
  cases profile.honourRetryAfter <;> simp

/-- `send` has a transition to make for a response, unless it asks unreadably or for too much. -/
theorem response_transition_iff {d : WebhookDispatcher py} {r : DeliveryRecord} {ans : Answers}
    {call : HttpSender.PostCall} {res : HttpSendResult} (hpost : (send d r ans).post = some call)
    (hres : ans.post = .response res) :
    (send d r ans).transition = none ↔ AsksUnreadably d r res ∨ Overflows d r ans res := by
  obtain ⟨profile, parsed, port, secret, hposted⟩ := send_post hpost
  have hsettle : (send d r ans).transition = settle d r profile ans := by
    unfold send at hpost ⊢
    simp only [hposted.found, hposted.split, hposted.read] at hpost ⊢
    cases hprep : prepare d r profile parsed port ans with
    | raises => simp [hprep] at hpost
    | deadLetter error => simp [hprep] at hpost
    | post call => rfl
  rw [hsettle, settle, hres]
  simp only [transitionFor_eq_none_iff]
  constructor
  · rintro ⟨hretry, hnone⟩
    cases hw : waited py profile ans.now (some res.headers) with
    | none =>
      obtain ⟨hhonour, hraises⟩ := waited_eq_none_iff.mp hw
      obtain ⟨raw, hraw, htext⟩ := (parseRetryAfter_raises_iff ..).mp hraises
      exact .inl ⟨profile, raw, hposted.found, hhonour, hretry, hraw, htext⟩
    | some seconds =>
      have hover := hnone seconds hw
      rw [retryAt_eq_none_iff, Nat.add_sub_cancel] at hover
      exact .inr ⟨profile, seconds, hposted.found, hretry, hw, hover⟩
  · rintro (⟨profile', raw, hfound, hhonour, hretry, hraw, htext⟩ |
      ⟨profile', seconds, hfound, hretry, hw, hover⟩)
    · cases hposted.found.symm.trans hfound
      have hnone := waited_eq_none_iff.mpr
        ⟨hhonour, (parseRetryAfter_raises_iff py _ ans.now).mpr ⟨raw, hraw, htext⟩⟩
      refine ⟨hretry, fun w hw => ?_⟩
      rw [hnone] at hw
      cases hw
    · cases hposted.found.symm.trans hfound
      refine ⟨hretry, fun w hw' => ?_⟩
      cases hw.symm.trans hw'
      rw [retryAt_eq_none_iff, Nat.add_sub_cancel]
      exact hover

/-- **The responses that `send` survives**: with a store that takes the call, it makes a
transition and returns an outcome, exactly unless the response asks for a retry with a
`Retry-After` that `str.isdigit` accepts and `float` does not, or for one whose time overflows. -/
theorem response_settles_iff (d : WebhookDispatcher py) (r : DeliveryRecord) (out : Outside)
    (call : HttpSender.PostCall) (res : HttpSendResult)
    (hpost : (send d r out.ans).post = some call) (hres : out.ans.post = .response res)
    (hstore : ∀ c, out.store c = true) :
    (∃ o c, (sendEff d r out).outcome = (some o, [c])) ↔
      ¬ AsksUnreadably d r res ∧ ¬ Overflows d r out.ans res := by
  rw [← not_or, ← response_transition_iff hpost hres, sendEff_run]
  cases (send d r out.ans).transition with
  | none => simp [attempted]
  | some c => simp [attempted, hstore c]

/-- Python's readers of numbers on the texts used here: a superscript two is a digit, and no
decimal one. -/
def superscriptPython : Python :=
  { examplePython with
    isDigit := fun s => s ≠ [] ∧ s.all fun c => c.isDigit || c = '²'
    float := fun s => if s.all Char.isDigit then some (Nat.ofDigitChars 10 s 0 : ℚ) else none }

def superscriptDispatcher : WebhookDispatcher superscriptPython where
  signer := Signer.hmacSigner superscriptPython .v1
  config := {}
  ssrf :=
    { security := {}
      blocked := exampleValidator.blocked
      built := exampleValidator.built }
  hasResolver := true
  profiles := Table.empty.insert (DEFAULT_PROFILE, { encode := rawEncode })

/-- The receiver answers 503 and names the wait. -/
def busyOutside (retryAfter : String) : Outside where
  ans :=
    { exampleAnswers 1700000000 (some "8.8.8.8") with
      post := .response
        { status := 503, headers := [("Retry-After", retryAfter)], bodySnippet := "",
          durationMs := 1 } }
  store _ := true
  bus := .absent

theorem response_settles_iff_seven_seconds : ∃ o c,
    (sendEff superscriptDispatcher (exampleRecord "d" "https://example.com/hook")
      (busyOutside "7")).outcome = (some o, [c]) := by
  obtain ⟨call, hcall⟩ := Option.isSome_iff_exists.mp (by decide +kernel :
    (send superscriptDispatcher (exampleRecord "d" "https://example.com/hook")
      (busyOutside "7").ans).post.isSome = true)
  have hraw : retryAfterHeader superscriptPython [("Retry-After", "7")] = some "7" := by
    decide +kernel
  refine (response_settles_iff _ _ _ call _ hcall rfl fun _ => rfl).mpr ⟨?_, ?_⟩
  · rintro ⟨profile, raw, -, -, -, hraw', -, -, hfloat⟩
    cases hraw.symm.trans hraw'
    exact absurd hfloat (by decide +kernel)
  · rintro ⟨profile, seconds, hprofile, -, hw, hover⟩
    cases hprofile
    have hseven : seconds = some 7 := by
      have hwaited : waited superscriptPython { encode := rawEncode } 1700000000
          (some [("Retry-After", "7")]) = some (some 7) := by decide +kernel
      exact Option.some_inj.mp (hw.symm.trans hwaited)
    subst hseven
    rcases hover with ⟨hnone, -⟩ | hlate
    · cases hnone
    · exact hlate (by decide +kernel)

/-- A `Retry-After` of `²`: `send` raises after the POST, and makes no transition. -/
theorem superscript_escapes :
    ((send superscriptDispatcher (exampleRecord "d" "https://example.com/hook")
      (busyOutside "²").ans).post.isSome = true) ∧
    (sendEff superscriptDispatcher (exampleRecord "d" "https://example.com/hook")
      (busyOutside "²")).outcome.1 = none ∧
    (sendEff superscriptDispatcher (exampleRecord "d" "https://example.com/hook")
      (busyOutside "²")).outcome.2 = [] := by
  have hnone : (send superscriptDispatcher (exampleRecord "d" "https://example.com/hook")
      (busyOutside "²").ans).transition = none := by decide +kernel
  rw [sendEff_run, hnone]
  exact ⟨by decide +kernel, rfl, rfl⟩

end WebhookEngine.Outcomes
