import WebhookEngine.Service.Routes

/-!
# Answers that give nothing away

Most handlers answer neither with a 202 nor with a secret, whatever the stores reply.

* `Plain`: such an answer;
* `returns_plain`: the routes that give no other;
* `ensures_handle`: what the handler of every route ensures, the application does.
-/

namespace WebhookEngine.Service

open Lib Lib.Coroutines Subscriptions

variable {py : Python} {δ π : Type}

def Answer.secret : Answer → Option String
  | .response ⟨_, .subscription r⟩ => r.secret
  | _ => none

/-- An answer that neither accepts nor holds a secret. -/
def Plain (a : Answer) : Prop := a.secret = none ∧ ∀ r, a = .response r → r.statusCode ≠ 202

theorem plain_response {statusCode : Nat} {body : Body}
    (hsecret : (Answer.response ⟨statusCode, body⟩).secret = none) (hstatus : statusCode ≠ 202) :
    Plain (.response ⟨statusCode, body⟩) := by
  refine ⟨hsecret, fun r' hr' => ?_⟩
  cases hr'
  exact hstatus

theorem plain_ok {body : Body} (hsecret : (Answer.response ⟨200, body⟩).secret = none) :
    Plain (.response ⟨200, body⟩) := plain_response hsecret (by decide)

theorem plain_internalServerError : Plain (.response internalServerError) :=
  plain_response rfl (by decide)

theorem returns_awaitCall {c : StoreCall π δ} {next : c.Ans → Handler π δ}
    (h : ∀ x, Returns Plain (next x)) : Returns Plain (awaitCall c next) := by
  intro r
  cases r with
  | ok x => exact h x
  | error e => exact plain_internalServerError

theorem returns_adminCall {c : Call} {raised : Raised → Answer} {next : Returned → Handler π δ}
    (hraised : ∀ e, Plain (raised e)) (h : ∀ r, Returns Plain (next r)) :
    Returns Plain (adminCall c raised next) := by
  intro r
  cases r with
  | error e => exact hraised e
  | ok x =>
    cases x with
    | inl r => exact h r
    | inr p =>
      intro r
      cases r with
      | error e => exact hraised e
      | ok r => exact h r

theorem returns_getSubscription (id : SubscriptionId) :
    Returns Plain (getSubscription id : Handler π δ) := by
  refine returns_awaitCall fun sub => ?_
  cases sub with
  | none => exact plain_response rfl (by decide)
  | some sub => exact plain_response rfl (by decide)

theorem returns_deleteSubscription (id : SubscriptionId) :
    Returns Plain (deleteSubscription id : Handler π δ) := by
  refine returns_awaitCall fun sub => ?_
  cases sub with
  | none => exact plain_response rfl (by decide)
  | some sub =>
    refine returns_adminCall (fun _ => plain_internalServerError) fun r => ?_
    cases r with
    | changed => exact plain_response rfl (by decide)
    | _ => exact plain_internalServerError

theorem returns_setStatus (c : Call) (id : SubscriptionId) :
    Returns Plain (setStatus c id : Handler π δ) := by
  refine returns_adminCall (fun _ => plain_internalServerError) fun r => ?_
  cases r with
  | changed => exact returns_getSubscription id
  | _ => exact plain_internalServerError

theorem returns_readiness (env : Env) : Returns Plain (readiness env : Handler π δ) := by
  intro r
  cases r with
  | ok n => exact plain_response rfl (by decide)
  | error e => exact plain_response rfl (by decide)

theorem returns_listSubscriptions (ownerId : OwnerId) (limit offset : Int) :
    Returns Plain (listSubscriptions ownerId limit offset : Handler π δ) :=
  returns_awaitCall fun _ => plain_ok rfl

theorem returns_listDeliveries (id : SubscriptionId) (limit offset : Int) :
    Returns Plain (listDeliveries id limit offset : Handler π δ) :=
  returns_awaitCall fun _ => plain_ok rfl

theorem returns_getDelivery (id : DeliveryId) :
    Returns Plain (getDelivery id : Handler π δ) := by
  refine returns_awaitCall fun r => ?_
  cases r with
  | none => exact plain_response rfl (by decide)
  | some r => exact plain_response rfl (by decide)

/-- The routes that accept nothing and create nothing. -/
def Route.isPlain : Route δ → Bool
  | .emit _ | .emitBatch _ | .createSubscription _ | .redeliver _ | .ping _ => false
  | _ => true

theorem returns_plain {deps : ServiceDeps py δ} {env : Env} {route : Route δ}
    {handler : Handler π δ} (h : endpoint deps env route = some handler)
    (hplain : route.isPlain = true) : Returns Plain handler := by
  cases route with
  | health =>
    cases h
    exact plain_ok rfl
  | ready =>
    cases h
    exact returns_readiness env
  | listSubscriptions ownerId limit offset =>
    cases h
    exact returns_listSubscriptions ownerId limit offset
  | getSubscription id =>
    cases h
    exact returns_getSubscription id
  | deleteSubscription id =>
    cases h
    exact returns_deleteSubscription id
  | pauseSubscription id =>
    cases h
    exact returns_setStatus (.pause id) id
  | resumeSubscription id =>
    cases h
    exact returns_setStatus (.resume id) id
  | listDeliveries id limit offset =>
    cases h
    exact returns_listDeliveries id limit offset
  | getDelivery id =>
    cases h
    exact returns_getDelivery id
  | _ => cases hplain

theorem plain_unprocessable : Plain (.response unprocessable) :=
  plain_response rfl (by decide)

theorem plain_unauthorized : Plain (.response unauthorized) := plain_response rfl (by decide)

/-- A request is refused, or its handler answers it; so is a rotation, without a secret. -/
theorem ensures_handle {σ : Type} {exec : σ → (c : StoreCall π δ) → Outcome → Option (c.Reply × σ)}
    {I : σ → Prop} {rely : σ → σ → Prop} {post : Request δ → Answer → σ → Prop}
    {deps : ServiceDeps py δ} (hplain : ∀ q a s, Plain a → post q a s)
    (hendpoint : ∀ key env route (handler : Handler π δ) s,
      endpoint deps env route = some handler →
      Ensures exec I rely (post (.http key route env)) handler s) (q : Request δ) (s : σ) :
    Ensures exec I rely (post q) (handle deps q) s := by
  cases q with
  | http key route env =>
    simp only [handle]
    cases hhandler : endpoint deps env route with
    | none => exact hplain _ _ s plain_unprocessable
    | some handler =>
      have hanswers := hendpoint key env route handler s hhandler
      cases route.isOpen with
      | true => exact hanswers
      | false =>
        cases key with
        | none => exact hplain _ _ s plain_unprocessable
        | some key =>
          simp only [Bool.false_eq_true, if_false]
          split
          · exact hplain _ _ s plain_unauthorized
          · exact hanswers
  | rotateSecret id graceS secret token now =>
    have hreturned : ∀ r, Plain (.returned r) := fun r => ⟨rfl, fun _ hr => by cases hr⟩
    have hraised : Plain .raised := ⟨rfl, fun _ hr => by cases hr⟩
    have hreturns : Returns Plain (handle deps (.rotateSecret id graceS secret token now) :
        Handler π δ) := returns_adminCall (fun _ => hraised) hreturned
    exact hreturns.ensures (fun a s ha => hplain _ a s ha) s

end WebhookEngine.Service
