import WebhookEngine.Lib.Coroutines
import WebhookEngine.Service.AdminStore
import WebhookEngine.Stores.Pages
import WebhookEngine.Stores.Shipped
import WebhookEngine.Subscriptions.Pausing

/-!
# The HTTP service

The routes of `service/routes` and `DeliveryAdminService`, as coroutines that await the calls of
the stores, in a process (or several) that serves any number of requests at a time while the
ingestor and the engine work on the same stores. A call may raise, with or without an effect.

A request is what FastAPI has parsed of it, with what its handler reads of the clock, `uuid4`,
`token_hex` and the resolver.
-/

namespace WebhookEngine.Service

open Lib Lib.Coroutines Dispatcher Ingest.Events Stores.Queue Subscriptions

variable {py : Python} {δ π : Type}

/-! ## Requests -/

/-- What a handler reads outside the stores; `resolved` is the address that `_resolve_ip`
returns, or the text of its `ValueError` or `OSError`. -/
structure Env where
  now : Datetime
  uuid : Nat → String
  token : Token
  resolved : Except String String

structure EmitRequest (δ : Type) where
  event : String
  eventId : Option String := none
  tenantId : Option String := none
  schemaVersion : String := "1.0"
  data : δ

structure CreateSubscriptionRequest where
  ownerId : OwnerId
  url : String
  events : List String
  secret : Option String := none

inductive Route (δ : Type) where
  | health
  | ready
  | emit (body : EmitRequest δ)
  | emitBatch (events : List (EmitRequest δ))
  | createSubscription (body : CreateSubscriptionRequest)
  | listSubscriptions (ownerId : OwnerId) (limit offset : Int)
  | getSubscription (id : SubscriptionId)
  | deleteSubscription (id : SubscriptionId)
  | pauseSubscription (id : SubscriptionId)
  | resumeSubscription (id : SubscriptionId)
  | listDeliveries (subscriptionId : SubscriptionId) (limit offset : Int)
  | getDelivery (id : DeliveryId)
  | redeliver (id : DeliveryId)
  | ping (subscriptionId : SubscriptionId)

/-- An HTTP request with its `X-Source-Key`, or a rotation by the program that hosts the store;
no route rotates. -/
inductive Request (δ : Type) where
  | http (sourceKey : Option String) (route : Route δ) (env : Env)
  | rotateSecret (id : SubscriptionId) (graceS : Int) (secret : Option String) (token : Token)
      (now : Datetime)

/-! ## Responses -/

/-- `Page`. -/
structure Page (α : Type) where
  items : List α
  total : Nat
  limit : Int
  offset : Int
  deriving DecidableEq, Repr

/-- `created_at` is the time that the text in the response denotes; the text says that it is UTC
when the datetime is `aware`. -/
structure SubscriptionResponse where
  id : SubscriptionId
  ownerId : OwnerId
  url : String
  events : List String
  status : String
  createdAt : Datetime
  aware : Bool
  secret : Option String := none
  deriving DecidableEq, Repr

inductive Body where
  | status (text : String)
  | detail (text : String)
  | invalid
  | emitted (accepted : Bool) (eventId : String)
  | batchEmitted (accepted : Bool) (count : Nat) (eventIds : List String)
  | subscription (r : SubscriptionResponse)
  | subscriptions (p : Page SubscriptionResponse)
  | delivery (v : Stores.Pages.DeliveryView)
  | deliveries (p : Page Stores.Pages.DeliveryView)
  deriving DecidableEq, Repr

structure Response where
  statusCode : Nat
  body : Body
  deriving DecidableEq, Repr

inductive Answer where
  | response (r : Response)
  | returned (r : Returned)
  | raised
  deriving DecidableEq, Repr

def notFound (what : String) : Response := ⟨404, .detail (what ++ " not found")⟩

def unauthorized : Response := ⟨401, .detail "invalid source key"⟩

/-- What FastAPI answers when the parameters do not validate. -/
def unprocessable : Response := ⟨422, .invalid⟩

/-- What Starlette answers when a handler raises. -/
def internalServerError : Response := ⟨500, .detail "Internal Server Error"⟩

def statusValue : SubscriptionStatus → String
  | .active => "active"
  | .paused => "paused"
  | .deleted => "deleted"

/-- `_to_resp`. -/
def toResp (sub : Subscription) (includeSecret : Bool) : SubscriptionResponse where
  id := sub.id
  ownerId := sub.ownerId
  url := sub.url
  events := sub.events
  status := statusValue sub.status
  createdAt := sub.createdAt
  aware := sub.aware
  secret := if includeSecret then some sub.secret else none

/-! ## Calls of the stores -/

/-- A call that a handler awaits; `π` is what the subscription store reads before it writes. -/
inductive StoreCall (π δ : Type) where
  | append (now : Datetime) (e : IncomingEvent δ)
  | appendMany (now : Datetime) (es : List (IncomingEvent δ))
  | reclaimStale (now : Datetime)
  | first (c : Call)
  | second (p : π)
  | get (id : SubscriptionId)
  | listForOwner (ownerId : OwnerId)
  | recentForSubscription (id : SubscriptionId) (limit : Int)
  | getDelivery (id : DeliveryId)
  | enqueueMany (r : DeliveryRecord)

def StoreCall.Ans : StoreCall π δ → Type
  | .append _ _ => Unit
  | .appendMany _ _ => Unit
  | .reclaimStale _ => Nat
  | .first _ => Returned ⊕ π
  | .second _ => Returned
  | .get _ => Option Subscription
  | .listForOwner _ => List Subscription
  | .recentForSubscription _ _ => List DeliveryRecord
  | .getDelivery _ => Option DeliveryRecord
  | .enqueueMany _ => Unit

/-- An exception: a `ValueError` or an `OSError` with its text, or another one. -/
inductive Raised where
  | valueError (text : String)
  | other
  deriving DecidableEq, Repr

abbrev StoreCall.Reply (c : StoreCall π δ) : Type := Except Raised c.Ans

/-! ## Handlers -/

abbrev Handler (π δ : Type) := Coroutine (StoreCall π δ) StoreCall.Reply Answer

def respond (r : Response) : Handler π δ := .done (.response r)

/-- A call in a handler that catches nothing. -/
def awaitCall (c : StoreCall π δ) (next : c.Ans → Handler π δ) : Handler π δ :=
  .await c fun
    | .ok r => next r
    | .error _ => respond internalServerError

/-- A call of the subscription store; `raised` is what the handler makes of an exception. -/
def adminCall (c : Call) (raised : Raised → Answer) (next : Returned → Handler π δ) :
    Handler π δ :=
  .await (.first c) fun
    | .error e => .done (raised e)
    | .ok (.inl r) => next r
    | .ok (.inr p) => .await (.second p) fun
      | .error e => .done (raised e)
      | .ok r => next r

def uncaught (_ : Raised) : Answer := .response internalServerError

/-- `ServiceDeps`, with the `source_key` of its settings; `httpUrl` is the text of the URL that
pydantic makes of a text, `none` its validation error. -/
structure ServiceDeps (py : Python) (δ : Type) extends Pausing.Service py δ where
  sourceKey : String
  httpUrl : String → Option String

variable (deps : ServiceDeps py δ)

/-! ### `routes/health.py` -/

def liveness : Handler π δ := respond ⟨200, .status "ok"⟩

def readiness (env : Env) : Handler π δ :=
  .await (.reclaimStale env.now) fun
    | .ok _ => respond ⟨200, .status "ok"⟩
    | .error _ => respond ⟨503, .status "backend_unavailable"⟩

/-! ### `routes/emit.py` -/

def MAX_BATCH : Nat := 50

/-- The event of a body; `default` is the event id that pydantic makes. -/
def EmitRequest.incoming (body : EmitRequest δ) (default : String) (now : Datetime) :
    IncomingEvent δ where
  eventId := body.eventId.getD default
  event := body.event
  data := body.data
  tenantId := body.tenantId
  schemaVersion := body.schemaVersion
  createdAt := some now

def emitEvent (env : Env) (body : EmitRequest δ) : Handler π δ :=
  let event := body.incoming (env.uuid 0) env.now
  awaitCall (.append env.now event) fun _ => respond ⟨202, .emitted true event.eventId⟩

def emitBatch (env : Env) (bodies : List (EmitRequest δ)) : Handler π δ :=
  let events := bodies.mapIdx fun i body => body.incoming (env.uuid i) env.now
  awaitCall (.appendMany env.now events) fun _ =>
    respond ⟨202, .batchEmitted true events.length (events.map fun e => e.eventId)⟩

/-! ### `routes/subscriptions.py` -/

/-- `_require`. -/
def requireSub (id : SubscriptionId) (next : Subscription → Handler π δ) : Handler π δ :=
  awaitCall (.get id) fun
    | none => respond (notFound "subscription")
    | some sub => next sub

/-- The arguments of `create`, with the id and the token that it draws. -/
def CreateSubscriptionRequest.creation (body : CreateSubscriptionRequest) (url : String)
    (env : Env) (resolvedIp : String) : Creation where
  id := env.uuid 0
  ownerId := body.ownerId
  url := url
  events := body.events
  secret := body.secret
  token := env.token
  resolvedIp := resolvedIp
  now := env.now

/-- `create_subscription` makes a 422 of a `ValueError` or an `OSError`. -/
def createRaised : Raised → Answer
  | .valueError text => .response ⟨422, .detail text⟩
  | .other => .response internalServerError

def createSubscription (env : Env) (body : CreateSubscriptionRequest) (url : String) :
    Handler π δ :=
  match env.resolved with
  | .error text => respond ⟨422, .detail text⟩
  | .ok resolvedIp =>
    adminCall (.create (body.creation url env resolvedIp)) createRaised fun
      | .created sub => respond ⟨201, .subscription (toResp sub true)⟩
      | _ => respond internalServerError

/-- `i` of a slice of a list of `n`. -/
def sliceIndex (n : Nat) (i : Int) : Nat := if i < 0 then (i + n).toNat else min i.toNat n

/-- `xs[i:j]`. -/
def slice {α : Type} (xs : List α) (i j : Int) : List α :=
  (xs.take (sliceIndex xs.length j)).drop (sliceIndex xs.length i)

def pageOf {α β : Type} (xs : List α) (f : α → β) (limit offset : Int) : Page β where
  items := (slice xs offset (offset + limit)).map f
  total := xs.length
  limit := limit
  offset := offset

def listSubscriptions (ownerId : OwnerId) (limit offset : Int) : Handler π δ :=
  awaitCall (.listForOwner ownerId) fun subs =>
    respond ⟨200, .subscriptions (pageOf subs (toResp · false) limit offset)⟩

def getSubscription (id : SubscriptionId) : Handler π δ :=
  requireSub id fun sub => respond ⟨200, .subscription (toResp sub false)⟩

def deleteSubscription (id : SubscriptionId) : Handler π δ :=
  requireSub id fun sub => adminCall (.delete id) uncaught fun
    | .changed _ => respond ⟨200, .subscription (toResp sub false)⟩
    | _ => respond internalServerError

/-- `pause_subscription` and `resume_subscription`. -/
def setStatus (c : Call) (id : SubscriptionId) : Handler π δ :=
  adminCall c uncaught fun
    | .changed _ => getSubscription id
    | _ => respond internalServerError

def pauseSubscription (id : SubscriptionId) : Handler π δ := setStatus (.pause id) id

def resumeSubscription (id : SubscriptionId) : Handler π δ := setStatus (.resume id) id

/-! ### `routes/deliveries.py` and `delivery_admin.py` -/

def listDeliveries (subscriptionId : SubscriptionId) (limit offset : Int) : Handler π δ :=
  awaitCall (.recentForSubscription subscriptionId (offset + limit)) fun records =>
    respond ⟨200, .deliveries (pageOf records Stores.Pages.view limit offset)⟩

/-- `DeliveryAdminService.get`. -/
def requireDelivery (id : DeliveryId) (next : DeliveryRecord → Handler π δ) : Handler π δ :=
  awaitCall (.getDelivery id) fun
    | none => respond (notFound "delivery")
    | some record => next record

def getDelivery (id : DeliveryId) : Handler π δ :=
  requireDelivery id fun record => respond ⟨200, .delivery (Stores.Pages.view record)⟩

/-- `_check_target`; the outer `none` is the `ValueError` of a URL. -/
def targetVerdict (v : SsrfGuard.UrlSafetyValidator py) (sub : SubscriptionSnapshot) :
    Option (Except SsrfGuard.InvalidWebhookTarget Unit) :=
  (Url.urlsplit py sub.url.toList).bind fun parsed => parsed.port.map fun port =>
    let host := parsed.hostname py
    SsrfGuard.checkIp v sub.resolvedIp.toList (if host = [] then none else some host)
      (some (targetPort parsed port))

/-- `enqueue_many` of a record whose target passes. -/
def enqueueChecked (r : DeliveryRecord) : Handler π δ :=
  match targetVerdict deps.ssrf (Ingest.Ingestor.snapshot r) with
  | none => respond internalServerError
  | some (.error e) => respond ⟨422, .detail ("target blocked: " ++ e.reason.value)⟩
  | some (.ok ()) =>
    awaitCall (.enqueueMany r) fun _ => respond ⟨202, .delivery (Stores.Pages.view r)⟩

def redeliver (env : Env) (id : DeliveryId) : Handler π δ :=
  requireDelivery id fun original =>
    enqueueChecked deps (Pausing.cloneRecord original env.now (env.uuid 0))

def ping (env : Env) (id : SubscriptionId) : Handler π δ :=
  requireSub id fun sub =>
    enqueueChecked deps (Pausing.pingRecord deps.toService sub env.now (env.uuid 0) (env.uuid 1))

/-! ### The application -/

/-- The parameters of a route that pydantic has validated, and its handler behind `_auth`. -/
def endpoint (env : Env) : Route δ → Option (Handler π δ)
  | .health => some liveness
  | .ready => some (readiness env)
  | .emit body => some (emitEvent env body)
  | .emitBatch events =>
    if 1 ≤ events.length ∧ events.length ≤ MAX_BATCH then some (emitBatch env events) else none
  | .createSubscription body =>
    if body.events = [] then none else (deps.httpUrl body.url).map (createSubscription env body)
  | .listSubscriptions ownerId limit offset => some (listSubscriptions ownerId limit offset)
  | .getSubscription id => some (getSubscription id)
  | .deleteSubscription id => some (deleteSubscription id)
  | .pauseSubscription id => some (pauseSubscription id)
  | .resumeSubscription id => some (resumeSubscription id)
  | .listDeliveries id limit offset => some (listDeliveries id limit offset)
  | .getDelivery id => some (getDelivery id)
  | .redeliver id => some (redeliver deps env id)
  | .ping id => some (ping deps env id)

/-- The probes ask for no key. -/
def Route.isOpen : Route δ → Bool
  | .health | .ready => true
  | _ => false

def handle : Request δ → Handler π δ
  | .http sourceKey route env =>
    match endpoint deps env route with
    | none => respond unprocessable
    | some handler =>
      if route.isOpen then handler
      else
        match sourceKey with
        | none => respond unprocessable
        | some key => if key ≠ deps.sourceKey then respond unauthorized else handler
  | .rotateSecret id graceS secret token now =>
    adminCall (.rotateSecret id graceS secret token now) (fun _ => .raised) fun r =>
      .done (.returned r)

/-! ## The stores -/

/-- `_Backends`; `recent` is `recent_for_subscription`, any reading of the delivery store, given the
ids in the order in which the backend finds them. -/
structure Backends (δ : Type) where
  events : EventQueue δ
  backend : EventBackend
  cipher : Pg.SecretCipher
  deliveries : Stores.Shipped
  recent : deliveries.queue.State → SubscriptionId → Int → List DeliveryId →
    Option (List DeliveryRecord)

abbrev Backends.subs (b : Backends δ) : AdminStore := adminStore b.cipher b.backend

/-- The stores, the delivery ids that `uuid4` has made, and the events that have been appended,
with the clock of each append. -/
structure Stores (b : Backends δ) where
  events : b.events.State
  subs : b.subs.State
  deliveries : b.deliveries.queue.State
  minted : List DeliveryId
  appended : List (Datetime × IncomingEvent δ)

def Stores.empty (b : Backends δ) : Stores b :=
  ⟨b.events.empty, b.subs.empty, b.deliveries.queue.empty, [], []⟩

/-- How a call ends. Of an `append_many` that raises, the events named have been stored; another
call that raises has had its effect if anything is named. -/
inductive Outcome where
  | returns (order : List String)
  | raises (e : Raised) (stored : List String)

/-- `append`, or `append_many` as a loop of it. -/
def appendMany {b : Backends δ} (s : Stores b) (now : Datetime) (es : List (IncomingEvent δ)) :
    Option (Stores b) :=
  es.foldlM (fun s e => (b.events.append s.events now e).map fun events =>
    { s with events := events, appended := s.appended ++ [(now, e)] }) s

/-- `enqueue_many` of records under new ids. -/
def enqueueNew {b : Backends δ} (s : Stores b) (rs : List DeliveryRecord) : Option (Stores b) :=
  if Ingest.Ingestor.fresh s.minted rs then
    (b.deliveries.queue.enqueueMany s.deliveries rs).map fun deliveries =>
      { s with deliveries := deliveries, minted := s.minted ++ rs.map fun r => r.deliveryId }
  else none

/-- A call that returns. -/
def perform {b : Backends δ} (s : Stores b) (order : List String) :
    (c : StoreCall b.subs.Pending δ) → Option (c.Ans × Stores b)
  | .append now e => (appendMany s now [e]).map fun s' => ((), s')
  | .appendMany now es => (appendMany s now es).map fun s' => ((), s')
  | .reclaimStale now =>
    let x := b.events.reclaimStale s.events now
    some (x.1, { s with events := x.2 })
  | .first c => (b.subs.first s.subs c).map fun x => (x.2, { s with subs := x.1 })
  | .second p =>
    let x := b.subs.second s.subs p
    some (x.2, { s with subs := x.1 })
  | .get id => (b.subs.get s.subs id).map fun sub => (sub, s)
  | .listForOwner ownerId => (b.subs.listForOwner s.subs ownerId order).map fun subs => (subs, s)
  | .recentForSubscription id limit => (b.recent s.deliveries id limit order).map fun rs => (rs, s)
  | .getDelivery id => some (b.deliveries.queue.get s.deliveries id, s)
  | .enqueueMany r => (enqueueNew s [r]).map fun s' => ((), s')

/-- What a call that raises leaves. -/
def performPart {b : Backends δ} (s : Stores b) (stored : List String) :
    StoreCall b.subs.Pending δ → Option (Stores b)
  | .appendMany now es => appendMany s now (es.filter fun e => e.eventId ∈ stored)
  | c => if stored = [] then some s else (perform s stored c).map Prod.snd

def exec {b : Backends δ} (s : Stores b) (c : StoreCall b.subs.Pending δ) :
    Outcome → Option (c.Reply × Stores b)
  | .returns order => (perform s order c).map fun x => (.ok x.1, x.2)
  | .raises e stored => (performPart s stored c).map fun s' => (.error e, s')

/-- What producers, ingestors and engines do to the stores, here or in another process. An engine
reports on a delivery that it has been given. -/
inductive Work (δ : Type) where
  | append (now : Datetime) (e : IncomingEvent δ)
  | claimEvents (now : Datetime) (ttl n : Nat) (pick : List EventId)
  | ack (ids : List EventId)
  | markFailed (id : EventId) (error : String)
  | reclaimEvents (now : Datetime)
  | enqueueMany (rs : List DeliveryRecord)
  | claimBatch (now : Datetime) (ttl n : Nat) (pick : List DeliveryId)
  | reclaimDeliveries (now : Datetime)
  | complete (id : DeliveryId) (c : Completion) (a : AttemptRecord)

def work {b : Backends δ} (s : Stores b) : Work δ → Option (Stores b)
  | .append now e => appendMany s now [e]
  | .claimEvents now ttl n pick =>
    (b.events.claimEvents s.events now ttl n pick).map fun x => { s with events := x.2.2 }
  | .ack ids => (b.events.ack s.events ids).map fun events => { s with events := events }
  | .markFailed id error =>
    (b.events.markFailed s.events id error).map fun events => { s with events := events }
  | .reclaimEvents now => some { s with events := (b.events.reclaimStale s.events now).2 }
  | .enqueueMany rs => enqueueNew s rs
  | .claimBatch now ttl n pick =>
    (b.deliveries.queue.claimBatch s.deliveries now ttl n pick).map fun x =>
      { s with deliveries := x.2 }
  | .reclaimDeliveries now =>
    some { s with deliveries := (b.deliveries.queue.reclaimStale s.deliveries now).2 }
  | .complete id c a =>
    if (b.deliveries.queue.view s.deliveries id).isSome then
      (b.deliveries.queue.complete s.deliveries id c a).map fun deliveries =>
        { s with deliveries := deliveries }
    else none

def server (b : Backends δ) : Server (Stores b) (Request δ) Answer
    (StoreCall b.subs.Pending δ) StoreCall.Reply Outcome (Work δ) where
  handle := handle deps
  exec := exec
  work := work

abbrev World (b : Backends δ) (κ : Type) :=
  Coroutines.World (Stores b) (Request δ) Answer κ (StoreCall b.subs.Pending δ) StoreCall.Reply

abbrev Label (δ κ : Type) := Coroutines.Label (Request δ) κ Outcome (Work δ)

/-! ## A service in memory -/

def exampleDeps : ServiceDeps examplePython Unit where
  toService := Pausing.exampleService
  sourceKey := "key"
  httpUrl := some

/-- The memory profile. -/
def exampleBackends : Backends Unit where
  events := Ingest.Memory.memoryEvents Unit
  backend := .memory
  cipher := Pg.identityCipher
  deliveries := .memory
  recent s id limit _ := some (Stores.Pages.memoryRecent s id limit.toNat)

def exampleEnv : Env where
  now := 0
  uuid i := if i = 0 then "id_0" else "id_1"
  token := (exampleCreation "sub_1" "owner-a").token
  resolved := .ok "8.8.8.8"

def exampleCreate (secret : Option String) : Route Unit :=
  .createSubscription
    { ownerId := "owner-a", url := "https://example.com/hook", events := ["order.paid"],
      secret := secret }

end WebhookEngine.Service
