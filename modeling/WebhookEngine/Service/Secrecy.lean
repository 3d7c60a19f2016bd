import WebhookEngine.Service.Answers

/-!
# A secret is returned once

The secret of a subscription is returned on its creation and never again. Two services, over the
same backends, are asked the same but for the secrets: by those who create subscriptions, by
`token_hex` and by the host program that rotates. They answer the same, but for the secret in
the response to a creation; and that one is the secret of this creation.

* `handle_related`: the handlers of two such requests;
* `secrets_unseen`: the runs, however the requests interleave with one another and with work.
-/

namespace WebhookEngine.Service

open Lib Lib.Run Lib.Coroutines Ingest.Events Subscriptions

variable {py : Python} {δ π : Type} {b : Backends δ}

/-- The same request, with other secrets that the databases take for texts too. -/
inductive SameRequest (cipher : Pg.SecretCipher) : Request δ → Request δ → Prop where
  | http (key : Option String) (route : Route δ) (env : Env) (token : Token)
      (h : FitsToo cipher env.token token) :
      SameRequest cipher (.http key route env) (.http key route { env with token := token })
  | create (key : Option String) (body : CreateSubscriptionRequest) (secret : Option String)
      (env : Env) (token : Token)
      (h : FitsToo cipher (orToken body.secret env.token) (orToken secret token)) :
      SameRequest cipher (.http key (.createSubscription body) env)
        (.http key (.createSubscription { body with secret := secret }) { env with token := token })
  | rotateSecret (id : SubscriptionId) (graceS : Int) (secret secret' : Option String)
      (token token' : Token) (now : Datetime)
      (h : FitsToo cipher (orToken secret token) (orToken secret' token'))
      (hliteral : Mongo.Literal (orToken secret token) → Mongo.Literal (orToken secret' token')) :
      SameRequest cipher (.rotateSecret id graceS secret token now)
        (.rotateSecret id graceS secret' token' now)

def redactBody : Body → Body
  | .subscription r => .subscription { r with secret := none }
  | body => body

def redactResponse (r : Response) : Response := { r with body := redactBody r.body }

/-- The same response, but for the secret of a subscription. -/
inductive SameResponse : Answer → Answer → Prop where
  | response {r r' : Response} (h : redactResponse r = redactResponse r') :
      SameResponse (.response r) (.response r')

/-- What a rotation gives back to its program, but for the secrets. -/
inductive SameRotation : Answer → Answer → Prop where
  | returned {r r' : Returned} (h : redactReturned r = redactReturned r') :
      SameRotation (.returned r) (.returned r')
  | raised : SameRotation .raised .raised

def SameAnswers : Request δ → Answer → Answer → Prop
  | .http .. => SameResponse
  | .rotateSecret .. => SameRotation

/-! ## Calls -/

inductive SameStoreCall (cipher : Pg.SecretCipher) (SP : π → π → Prop) :
    StoreCall π δ → StoreCall π δ → Prop where
  | first {c c' : Call} (h : SameCall cipher c c') : SameStoreCall cipher SP (.first c) (.first c')
  | second {p p' : π} (h : SP p p') : SameStoreCall cipher SP (.second p) (.second p')
  | append (now : Datetime) (e : IncomingEvent δ) :
      SameStoreCall cipher SP (.append now e) (.append now e)
  | appendMany (now : Datetime) (es : List (IncomingEvent δ)) :
      SameStoreCall cipher SP (.appendMany now es) (.appendMany now es)
  | reclaimStale (now : Datetime) : SameStoreCall cipher SP (.reclaimStale now) (.reclaimStale now)
  | get (id : SubscriptionId) : SameStoreCall cipher SP (.get id) (.get id)
  | listForOwner (ownerId : OwnerId) :
      SameStoreCall cipher SP (.listForOwner ownerId) (.listForOwner ownerId)
  | recentForSubscription (id : SubscriptionId) (limit : Int) :
      SameStoreCall cipher SP (.recentForSubscription id limit) (.recentForSubscription id limit)
  | getDelivery (id : DeliveryId) : SameStoreCall cipher SP (.getDelivery id) (.getDelivery id)
  | enqueueMany (r : DeliveryRecord) : SameStoreCall cipher SP (.enqueueMany r) (.enqueueMany r)

/-- What two such calls return. -/
def SameAns (SP : π → π → Prop) : (c c' : StoreCall π δ) → c.Ans → c'.Ans → Prop
  | .first _, .first _, x, x' => Sum.LiftRel SameReturned SP x x'
  | .second _, .second _, r, r' => SameReturned r r'
  | .get _, .get _, sub, sub' => Option.map redactSub sub = Option.map redactSub sub'
  | .listForOwner _, .listForOwner _, subs, subs' =>
    List.map redactSub subs = List.map redactSub subs'
  | .recentForSubscription _ _, .recentForSubscription _ _, rs, rs' => rs = rs'
  | .getDelivery _, .getDelivery _, r, r' => r = r'
  | .append _ _, .append _ _, _, _ => True
  | .appendMany _ _, .appendMany _ _, _, _ => True
  | .reclaimStale _, .reclaimStale _, _, _ => True
  | .enqueueMany _, .enqueueMany _, _, _ => True
  | _, _, _, _ => False

inductive SameReply (SP : π → π → Prop) (c c' : StoreCall π δ) : c.Reply → c'.Reply → Prop where
  | ok {x : c.Ans} {x' : c'.Ans} (h : SameAns SP c c' x x') : SameReply SP c c' (.ok x) (.ok x')
  | error (e : Raised) : SameReply SP c c' (.error e) (.error e)

structure SameStores (s s' : Stores b) : Prop where
  events : s'.events = s.events
  subs : (adminBlind b.cipher b.backend).Same s.subs s'.subs
  deliveries : s'.deliveries = s.deliveries
  minted : s'.minted = s.minted
  appended : s'.appended = s.appended

abbrev SamePart (b : Backends δ) : b.subs.Pending → b.subs.Pending → Prop :=
  (adminBlind b.cipher b.backend).SamePending

theorem enqueueNew_same {s s' t : Stores b} (h : SameStores s s') {rs : List DeliveryRecord}
    (ht : enqueueNew s rs = some t) : ∃ t', enqueueNew s' rs = some t' ∧ SameStores t t' := by
  obtain ⟨hfresh, ht⟩ := Option.ite_none_right_eq_some.mp ht
  obtain ⟨deliveries, hdeliveries, rfl⟩ := Option.map_eq_some_iff.mp ht
  refine ⟨{ s' with deliveries := deliveries, minted := s.minted ++ rs.map fun r => r.deliveryId },
    ?_, h.events, h.subs, rfl, rfl, h.appended⟩
  rw [enqueueNew, h.minted, h.deliveries, if_pos hfresh, hdeliveries]
  rfl

theorem appendMany_same {s s' t : Stores b} (h : SameStores s s') {now : Datetime}
    {es : List (IncomingEvent δ)} (ht : appendMany s now es = some t) :
    ∃ t', appendMany s' now es = some t' ∧ SameStores t t' := by
  induction es generalizing s s' with
  | nil =>
    cases ht
    exact ⟨s', rfl, h⟩
  | cons e es ih =>
    obtain ⟨u, hu, ht⟩ := Option.bind_eq_some_iff.mp ht
    obtain ⟨events, happend, rfl⟩ := Option.map_eq_some_iff.mp hu
    rw [← h.events] at happend
    have hnext : SameStores { s with events := events, appended := s.appended ++ [(now, e)] }
        { s' with events := events, appended := s'.appended ++ [(now, e)] } :=
      ⟨rfl, h.subs, h.deliveries, h.minted, congrArg (· ++ [(now, e)]) h.appended⟩
    obtain ⟨t', ht', hsame⟩ := ih hnext ht
    exact ⟨t', Option.bind_eq_some_iff.mpr ⟨_, Option.map_eq_some_iff.mpr ⟨_, happend, rfl⟩, ht'⟩,
      hsame⟩

/-- A query of two stores. -/
theorem query_same {α β : Type} {f : α → β} {x x' : Option α} (h : x.map f = x'.map f)
    {a : α} (ha : x = some a) : ∃ a', x' = some a' ∧ f a = f a' := by
  rw [ha, Option.map_some] at h
  obtain ⟨a', ha', hf⟩ := Option.map_eq_some_iff.mp h.symm
  exact ⟨a', ha', hf.symm⟩

theorem perform_same {s s' t : Stores b} (h : SameStores s s') {c c' : StoreCall b.subs.Pending δ}
    (hc : SameStoreCall b.cipher (SamePart b) c c') {order : List String} {r : c.Ans}
    (hr : perform s order c = some (r, t)) : ∃ r' t', perform s' order c' = some (r', t') ∧
      SameAns (SamePart b) c c' r r' ∧ SameStores t t' := by
  have ⟨hevents, hsubs, hdeliveries, hminted, happended⟩ := h
  cases hc with
  | first hc =>
    obtain ⟨⟨u, x⟩, hfirst, hx⟩ := Option.map_eq_some_iff.mp hr
    cases hx
    obtain ⟨u', x', hfirst', hsubs', hrel⟩ :=
      (adminBlind b.cipher b.backend).first _ _ _ _ _ _ hsubs hc hfirst
    exact ⟨x', _, Option.map_eq_some_iff.mpr ⟨_, hfirst', rfl⟩, hrel,
      hevents, hsubs', hdeliveries, hminted, happended⟩
  | second hp =>
    cases hr
    obtain ⟨hsubs', hreturned⟩ := (adminBlind b.cipher b.backend).second _ _ _ _ hsubs hp
    exact ⟨_, _, rfl, hreturned, hevents, hsubs', hdeliveries, hminted, happended⟩
  | append now e =>
    obtain ⟨t, happend, hx⟩ := Option.map_eq_some_iff.mp hr
    cases hx
    obtain ⟨t', happend', hsame⟩ := appendMany_same h happend
    exact ⟨(), t', Option.map_eq_some_iff.mpr ⟨_, happend', rfl⟩, trivial, hsame⟩
  | appendMany now es =>
    obtain ⟨t, happend, hx⟩ := Option.map_eq_some_iff.mp hr
    cases hx
    obtain ⟨t', happend', hsame⟩ := appendMany_same h happend
    exact ⟨(), t', Option.map_eq_some_iff.mpr ⟨_, happend', rfl⟩, trivial, hsame⟩
  | reclaimStale now =>
    cases hr
    exact ⟨_, _, rfl, trivial, by rw [hevents], hsubs, hdeliveries, hminted, happended⟩
  | get id =>
    obtain ⟨sub, hsub, hx⟩ := Option.map_eq_some_iff.mp hr
    cases hx
    obtain ⟨sub', hsub', hsame⟩ :=
      query_same ((adminBlind b.cipher b.backend).get _ _ id hsubs) hsub
    exact ⟨sub', s', Option.map_eq_some_iff.mpr ⟨_, hsub', rfl⟩, hsame,
      hevents, hsubs, hdeliveries, hminted, happended⟩
  | listForOwner ownerId =>
    obtain ⟨subs, hlist, hx⟩ := Option.map_eq_some_iff.mp hr
    cases hx
    obtain ⟨subs', hlist', hsame⟩ :=
      query_same ((adminBlind b.cipher b.backend).listForOwner _ _ ownerId order hsubs) hlist
    exact ⟨subs', s', Option.map_eq_some_iff.mpr ⟨_, hlist', rfl⟩, hsame,
      hevents, hsubs, hdeliveries, hminted, happended⟩
  | recentForSubscription id limit =>
    obtain ⟨rs, hrecent, hx⟩ := Option.map_eq_some_iff.mp hr
    cases hx
    rw [← hdeliveries] at hrecent
    exact ⟨_, s', Option.map_eq_some_iff.mpr ⟨_, hrecent, rfl⟩, rfl,
      hevents, hsubs, hdeliveries, hminted, happended⟩
  | getDelivery id =>
    cases hr
    refine ⟨_, s', rfl, ?_, hevents, hsubs, hdeliveries, hminted, happended⟩
    rw [hdeliveries]
    rfl
  | enqueueMany r =>
    obtain ⟨t, ht, hx⟩ := Option.map_eq_some_iff.mp hr
    cases hx
    obtain ⟨t', ht', hsame⟩ := enqueueNew_same h ht
    exact ⟨(), t', Option.map_eq_some_iff.mpr ⟨_, ht', rfl⟩, trivial, hsame⟩

theorem performPart_same {s s' t : Stores b} (h : SameStores s s')
    {c c' : StoreCall b.subs.Pending δ} (hc : SameStoreCall b.cipher (SamePart b) c c')
    {stored : List String} (ht : performPart s stored c = some t) :
    ∃ t', performPart s' stored c' = some t' ∧ SameStores t t' := by
  have hother : ∀ {t},
      (if stored = [] then some s else (perform s stored c).map Prod.snd) = some t →
      ∃ t', (if stored = [] then some s' else (perform s' stored c').map Prod.snd) = some t' ∧
        SameStores t t' := by
    intro t ht
    by_cases hstored : stored = []
    · rw [if_pos hstored] at ht
      cases ht
      exact ⟨s', if_pos hstored, h⟩
    · rw [if_neg hstored] at ht
      obtain ⟨⟨r, u⟩, hr, rfl⟩ := Option.map_eq_some_iff.mp ht
      obtain ⟨r', t', hr', -, hsame⟩ := perform_same h hc hr
      exact ⟨t', (if_neg hstored).trans (Option.map_eq_some_iff.mpr ⟨_, hr', rfl⟩), hsame⟩
  cases hc with
  | appendMany now es => exact appendMany_same h ht
  | _ => exact hother ht

theorem exec_same {s s' t : Stores b} (h : SameStores s s') {c c' : StoreCall b.subs.Pending δ}
    (hc : SameStoreCall b.cipher (SamePart b) c c') {o : Outcome} {r : c.Reply}
    (hr : exec s c o = some (r, t)) : ∃ r' t', exec s' c' o = some (r', t') ∧
      SameReply (SamePart b) c c' r r' ∧ SameStores t t' := by
  cases o with
  | returns order =>
    obtain ⟨⟨x, u⟩, hx, hrt⟩ := Option.map_eq_some_iff.mp hr
    cases hrt
    obtain ⟨x', t', hx', hans, hsame⟩ := perform_same h hc hx
    exact ⟨.ok x', t', Option.map_eq_some_iff.mpr ⟨_, hx', rfl⟩, .ok hans, hsame⟩
  | raises e stored =>
    obtain ⟨u, hu, hrt⟩ := Option.map_eq_some_iff.mp hr
    cases hrt
    obtain ⟨t', ht', hsame⟩ := performPart_same h hc hu
    exact ⟨.error e, t', Option.map_eq_some_iff.mpr ⟨_, ht', rfl⟩, .error e, hsame⟩

/-- No work looks at a subscription. -/
theorem work_same {s s' t : Stores b} (h : SameStores s s') {l : Work δ}
    (ht : work s l = some t) : ∃ t', work s' l = some t' ∧ SameStores t t' := by
  have ⟨hevents, hsubs, hdeliveries, hminted, happended⟩ := h
  cases l with
  | append now e => exact appendMany_same h ht
  | claimEvents now ttl n pick =>
    obtain ⟨x, hclaim, rfl⟩ := Option.map_eq_some_iff.mp ht
    rw [← hevents] at hclaim
    exact ⟨_, Option.map_eq_some_iff.mpr ⟨_, hclaim, rfl⟩, rfl, hsubs, hdeliveries, hminted,
      happended⟩
  | ack ids =>
    obtain ⟨events, hack, rfl⟩ := Option.map_eq_some_iff.mp ht
    rw [← hevents] at hack
    exact ⟨_, Option.map_eq_some_iff.mpr ⟨_, hack, rfl⟩, rfl, hsubs, hdeliveries, hminted,
      happended⟩
  | markFailed id error =>
    obtain ⟨events, hmark, rfl⟩ := Option.map_eq_some_iff.mp ht
    rw [← hevents] at hmark
    exact ⟨_, Option.map_eq_some_iff.mpr ⟨_, hmark, rfl⟩, rfl, hsubs, hdeliveries, hminted,
      happended⟩
  | reclaimEvents now =>
    cases ht
    exact ⟨_, rfl, by rw [hevents], hsubs, hdeliveries, hminted, happended⟩
  | enqueueMany rs => exact enqueueNew_same h ht
  | claimBatch now ttl n pick =>
    obtain ⟨x, hclaim, rfl⟩ := Option.map_eq_some_iff.mp ht
    rw [← hdeliveries] at hclaim
    exact ⟨_, Option.map_eq_some_iff.mpr ⟨_, hclaim, rfl⟩, hevents, hsubs, rfl, hminted, happended⟩
  | reclaimDeliveries now =>
    cases ht
    exact ⟨_, rfl, hevents, hsubs, by rw [hdeliveries], hminted, happended⟩
  | complete id c a =>
    obtain ⟨hsome, ht⟩ := Option.ite_none_right_eq_some.mp ht
    obtain ⟨deliveries, hcomplete, rfl⟩ := Option.map_eq_some_iff.mp ht
    rw [← hdeliveries] at hsome hcomplete
    exact ⟨_, (if_pos hsome).trans (Option.map_eq_some_iff.mpr ⟨_, hcomplete, rfl⟩), hevents, hsubs,
      rfl, hminted, happended⟩

/-! ## Handlers -/

/-- Handlers that make corresponding calls, and answer the same but for the secrets. -/
abbrev AlikeIn (cipher : Pg.SecretCipher) (SP : π → π → Prop) (A : Answer → Answer → Prop) :
    Handler π δ → Handler π δ → Prop := Related (SameStoreCall cipher SP) (SameReply SP) A

/-- The handlers of two HTTP requests that ask the same. -/
abbrev Alike (cipher : Pg.SecretCipher) (SP : π → π → Prop) :
    Handler π δ → Handler π δ → Prop :=
  AlikeIn cipher SP SameResponse

variable {cipher : Pg.SecretCipher} {SP : π → π → Prop}

theorem alike_respond {r r' : Response} (h : redactResponse r = redactResponse r') :
    Alike cipher SP (respond r : Handler π δ) (respond r') := .done (.response h)

theorem alike_awaitCall {c c' : StoreCall π δ} (hc : SameStoreCall cipher SP c c')
    {next : c.Ans → Handler π δ} {next' : c'.Ans → Handler π δ}
    (h : ∀ x x', SameAns SP c c' x x' → Alike cipher SP (next x) (next' x')) :
    Alike cipher SP (awaitCall c next) (awaitCall c' next') := by
  refine .await hc fun r r' hr => ?_
  cases hr with
  | ok hx => exact h _ _ hx
  | error e => exact alike_respond rfl

theorem alike_adminCall {A : Answer → Answer → Prop} {c c' : Call} (hc : SameCall cipher c c')
    {raised : Raised → Answer} (hraised : ∀ e, A (raised e) (raised e))
    {next next' : Returned → Handler π δ}
    (h : ∀ r r', SameReturned r r' → AlikeIn cipher SP A (next r) (next' r')) :
    AlikeIn cipher SP A (adminCall c raised next) (adminCall c' raised next') := by
  refine .await (.first hc) fun r r' hr => ?_
  cases hr with
  | error e => exact .done (hraised e)
  | ok hx =>
    cases hx with
    | inl hreturned => exact h _ _ hreturned
    | inr hp =>
      refine .await (.second hp) fun r r' hr => ?_
      cases hr with
      | error e => exact .done (hraised e)
      | ok hreturned => exact h _ _ hreturned

theorem same_uncaught (e : Raised) : SameResponse (uncaught e) (uncaught e) := .response rfl

theorem same_createRaised (e : Raised) : SameResponse (createRaised e) (createRaised e) := by
  cases e with
  | valueError text => exact .response rfl
  | other => exact .response rfl

theorem alike_requireSub (id : SubscriptionId) {next next' : Subscription → Handler π δ}
    (h : ∀ sub sub', redactSub sub = redactSub sub' → Alike cipher SP (next sub) (next' sub')) :
    Alike cipher SP (requireSub id next) (requireSub id next') := by
  refine alike_awaitCall (.get id) fun sub sub' hsub => ?_
  cases sub with
  | none =>
    cases sub' with
    | none => exact alike_respond rfl
    | some sub' => cases hsub
  | some sub =>
    cases sub' with
    | none => cases hsub
    | some sub' => exact h sub sub' (Option.some.inj hsub)

theorem alike_enqueueChecked (deps : ServiceDeps py δ) (r : DeliveryRecord) :
    Alike cipher SP (enqueueChecked deps r : Handler π δ) (enqueueChecked deps r) := by
  unfold enqueueChecked
  split
  · exact alike_respond rfl
  · exact alike_respond rfl
  · exact alike_awaitCall (.enqueueMany r) fun _ _ _ => alike_respond rfl

/-- The response without the secret. -/
theorem redact_toResp {sub sub' : Subscription} (h : redactSub sub = redactSub sub') :
    toResp sub false = toResp sub' false := by
  have hresp := congrArg (toResp · false) h
  exact hresp

theorem alike_getSubscription (id : SubscriptionId) :
    Alike cipher SP (getSubscription id : Handler π δ) (getSubscription id) :=
  alike_requireSub id fun sub sub' h => alike_respond (by rw [redact_toResp h])

theorem alike_deleteSubscription (id : SubscriptionId) :
    Alike cipher SP (deleteSubscription id : Handler π δ) (deleteSubscription id) := by
  refine alike_requireSub id fun sub sub' h =>
    alike_adminCall (.delete id) same_uncaught fun r r' hr => ?_
  cases hr with
  | changed => exact alike_respond (by rw [redact_toResp h])
  | _ => exact alike_respond rfl

theorem alike_setStatus {c : Call} (hc : SameCall cipher c c) (id : SubscriptionId) :
    Alike cipher SP (setStatus c id : Handler π δ) (setStatus c id) := by
  refine alike_adminCall hc same_uncaught fun r r' hr => ?_
  cases hr with
  | changed => exact alike_getSubscription id
  | _ => exact alike_respond rfl

/-- A page of subscriptions shows none of the secrets. -/
theorem redact_pageOf {subs subs' : List Subscription}
    (h : subs.map redactSub = subs'.map redactSub) (limit offset : Int) :
    pageOf subs (toResp · false) limit offset = pageOf subs' (toResp · false) limit offset := by
  have hpage : ∀ subs : List Subscription, pageOf subs (toResp · false) limit offset =
      pageOf (subs.map redactSub) (toResp · false) limit offset := by
    intro subs
    have hlength : (subs.map redactSub).length = subs.length := List.length_map ..
    simp only [pageOf, slice, hlength, ← List.map_take, ← List.map_drop, List.map_map]
    rfl
  rw [hpage, h, ← hpage]

theorem alike_listSubscriptions (ownerId : OwnerId) (limit offset : Int) :
    Alike cipher SP (listSubscriptions ownerId limit offset : Handler π δ)
      (listSubscriptions ownerId limit offset) :=
  alike_awaitCall (.listForOwner ownerId) fun _ _ h => alike_respond
    (congrArg (fun p => redactResponse ⟨200, .subscriptions p⟩)
      (redact_pageOf h limit offset))

theorem alike_createSubscription (env : Env) (token : Token) (body : CreateSubscriptionRequest)
    (secret : Option String)
    (hfits : FitsToo cipher (orToken body.secret env.token) (orToken secret token))
    (url : String) : Alike cipher SP (createSubscription env body url : Handler π δ)
      (createSubscription { env with token := token } { body with secret := secret } url) := by
  unfold createSubscription
  cases henv : env.resolved with
  | error text => exact alike_respond rfl
  | ok resolvedIp =>
    refine alike_adminCall (.create _ secret token (by exact hfits)) same_createRaised
      fun r r' hr => ?_
    cases hr with
    | created h =>
      have hresp := congrArg
        (fun s => redactResponse ⟨201, .subscription (toResp s true)⟩) h
      exact alike_respond hresp
    | _ => exact alike_respond rfl

theorem alike_creation (deps : ServiceDeps py δ) (env : Env) (token : Token)
    (body : CreateSubscriptionRequest) (secret : Option String)
    (hfits : FitsToo cipher (orToken body.secret env.token) (orToken secret token)) :
    Option.Rel (Alike cipher SP)
      (endpoint deps env (.createSubscription body) : Option (Handler π δ))
      (endpoint deps { env with token := token }
        (.createSubscription { body with secret := secret })) := by
  change Option.Rel _
    (if body.events = [] then none else (deps.httpUrl body.url).map (createSubscription env body))
    (if body.events = [] then none else (deps.httpUrl body.url).map
      (createSubscription { env with token := token } { body with secret := secret }))
  split
  · exact .none
  · cases deps.httpUrl body.url with
    | none => exact .none
    | some url => exact .some (alike_createSubscription env token body secret hfits url)

theorem alike_endpoint (deps : ServiceDeps py δ) (env : Env) (token : Token)
    (hfits : FitsToo cipher env.token token) (route : Route δ) :
    Option.Rel (Alike cipher SP) (endpoint deps env route : Option (Handler π δ))
      (endpoint deps { env with token := token } route) := by
  cases route with
  | health => exact .some (alike_respond rfl)
  | ready =>
    refine .some (.await (.reclaimStale env.now) fun r r' hr => ?_)
    cases hr <;> exact alike_respond rfl
  | emit body => exact .some (alike_awaitCall (.append _ _) fun _ _ _ => alike_respond rfl)
  | emitBatch events =>
    change Option.Rel _ (if _ then some (emitBatch env events) else none)
      (if _ then some (emitBatch { env with token := token } events) else none)
    split
    · exact .some (alike_awaitCall (.appendMany _ _) fun _ _ _ => alike_respond rfl)
    · exact .none
  | createSubscription body =>
    exact alike_creation deps env token body body.secret (hfits.orToken body.secret)
  | listSubscriptions ownerId limit offset =>
    exact .some (alike_listSubscriptions ownerId limit offset)
  | getSubscription id => exact .some (alike_getSubscription id)
  | deleteSubscription id => exact .some (alike_deleteSubscription id)
  | pauseSubscription id => exact .some (alike_setStatus (.pause id) id)
  | resumeSubscription id => exact .some (alike_setStatus (.resume id) id)
  | listDeliveries id limit offset =>
    refine .some (alike_awaitCall (.recentForSubscription _ _) fun rs rs' h => ?_)
    cases h
    exact alike_respond rfl
  | getDelivery id =>
    refine .some (alike_awaitCall (.getDelivery id) fun r r' h => ?_)
    cases h
    cases r with
    | none => exact alike_respond rfl
    | some r => exact alike_respond rfl
  | redeliver id =>
    refine .some (alike_awaitCall (.getDelivery id) fun r r' h => ?_)
    cases h
    cases r with
    | none => exact alike_respond rfl
    | some r => exact alike_enqueueChecked deps _
  | ping id =>
    refine .some (alike_requireSub id fun sub sub' h => ?_)
    have hrecord := congrArg
      (fun s => Pausing.pingRecord deps.toService s env.now (env.uuid 0) (env.uuid 1)) h
    change Alike cipher SP
      (enqueueChecked deps (Pausing.pingRecord deps.toService (redactSub sub) env.now _ _))
      (enqueueChecked deps (Pausing.pingRecord deps.toService (redactSub sub') env.now _ _))
    rw [hrecord]
    exact alike_enqueueChecked deps _

/-- The same key on two handlers of one path. -/
theorem alike_http {deps : ServiceDeps py δ} {env env' : Env} {route route' : Route δ}
    (hopen : route.isOpen = route'.isOpen) (key : Option String)
    (h : Option.Rel (Alike cipher SP) (endpoint deps env route : Option (Handler π δ))
      (endpoint deps env' route')) :
    Alike cipher SP (handle deps (.http key route env) : Handler π δ)
      (handle deps (.http key route' env')) := by
  simp only [handle, hopen]
  generalize endpoint deps env route = x, endpoint deps env' route' = x' at h ⊢
  cases h with
  | none => exact alike_respond rfl
  | some h =>
    cases route'.isOpen with
    | true => exact h
    | false =>
      cases key with
      | none => exact alike_respond rfl
      | some key =>
        simp only [Bool.false_eq_true, if_false]
        split
        · exact alike_respond rfl
        · exact h

theorem handle_related (deps : ServiceDeps py δ) {q q' : Request δ} (h : SameRequest cipher q q') :
    AlikeIn cipher SP (SameAnswers q) (handle deps q : Handler π δ) (handle deps q') := by
  cases h with
  | http key route env token hfits =>
    exact alike_http (by rfl) key (alike_endpoint deps env token hfits route)
  | create key body secret env token hfits =>
    exact alike_http (by rfl) key (alike_creation deps env token body secret hfits)
  | rotateSecret id graceS secret secret' token token' now hfits hliteral =>
    exact alike_adminCall
      (.rotateSecret id graceS secret secret' token token' now hfits hliteral)
      (fun _ => .raised) fun r r' hr => .done (.returned hr.redact)

/-! ## Runs -/

theorem simulates (deps : ServiceDeps py δ) (b : Backends δ) :
    Simulates (server deps b) (server deps b) SameStores (SameRequest b.cipher)
      (fun q _ => SameAnswers q) (SameStoreCall b.cipher (SamePart b)) (SameReply (SamePart b))
      Eq where
  handle q q' h := handle_related deps h
  exec s s' c c' o r t h hc hr := exec_same h hc hr
  work s s' l l' t h hl ht := by
    cases hl
    exact work_same h ht

theorem sameStores_empty (b : Backends δ) : SameStores (Stores.empty b) (Stores.empty b) :=
  ⟨rfl, (adminBlind b.cipher b.backend).empty, rfl, rfl, rfl⟩

/-- What the one who asks sees: the secret in the response to a creation is the one of this
creation, and all else is the same. -/
def SameSeen : Request δ → Answer → Answer → Prop
  | .http _ (.createSubscription body) env, a, a' =>
    SameResponse a a' ∧ ∀ secret, a.secret = some secret → secret = orToken body.secret env.token
  | .http .., a, a' => a = a'
  | .rotateSecret .., a, a' => SameRotation a a'

theorem redactBody_of_secret {statusCode : Nat} {body : Body}
    (h : (Answer.response ⟨statusCode, body⟩).secret = none) : redactBody body = body := by
  cases body with
  | subscription r =>
    cases r
    cases h
    rfl
  | _ => rfl

/-- Two responses without a secret. -/
theorem SameResponse.eq {a a' : Answer} (h : SameResponse a a') (ha : a.secret = none)
    (ha' : a'.secret = none) : a = a' := by
  cases h with
  | @response r r' h =>
    have hsame : ∀ {r : Response}, (Answer.response r).secret = none → redactResponse r = r := by
      intro r hr
      cases r with
      | mk statusCode body => exact congrArg (Response.mk statusCode) (redactBody_of_secret hr)
    rw [← hsame ha, ← hsame ha', h]

/-! ## The secret of a creation -/

/-- A secret in the answer is the one that the request has created. -/
def OwnSecret (q : Request δ) (a : Answer) : Prop :=
  ∀ secret, a.secret = some secret → ∃ key body env,
    q = .http key (.createSubscription body) env ∧ secret = orToken body.secret env.token

theorem ownSecret_of_none {q : Request δ} {a : Answer} (h : a.secret = none) : OwnSecret q a :=
  fun secret hsecret => by
    rw [h] at hsecret
    cases hsecret

theorem OwnSecret.eq_none {q : Request δ} {a : Answer} (h : OwnSecret q a)
    (hq : ∀ key body env, q ≠ .http key (.createSubscription body) env) : a.secret = none := by
  cases hsecret : a.secret with
  | none => rfl
  | some secret =>
    obtain ⟨key, body, env, hcreate, -⟩ := h secret hsecret
    exact absurd hcreate (hq key body env)

/-- What a handler answers, whatever is done to the stores. -/
abbrev Gives (q : Request δ) : Handler b.subs.Pending δ → Stores b → Prop :=
  Ensures exec (fun _ => True) (fun _ _ => True) fun a _ => OwnSecret q a

theorem gives_of_returns {q : Request δ} {p : Handler b.subs.Pending δ}
    (h : Returns (fun a => a.secret = none) p) (s : Stores b) : Gives q p s :=
  h.ensures (fun _ _ ha => ownSecret_of_none ha) s

/-- A call whose reply is answered without a secret. -/
theorem secretless_awaitCall {c : StoreCall π δ} {next : c.Ans → Handler π δ}
    (h : ∀ x, Returns (fun a => a.secret = none) (next x)) :
    Returns (fun a => a.secret = none) (awaitCall c next) := by
  intro r
  cases r with
  | ok x => exact h x
  | error e => exact rfl

theorem secretless_enqueueChecked (deps : ServiceDeps py δ) (r : DeliveryRecord) :
    Returns (fun a => a.secret = none) (enqueueChecked deps r : Handler π δ) := by
  unfold enqueueChecked
  split
  · exact rfl
  · exact rfl
  · exact secretless_awaitCall fun _ => rfl

theorem gives_createSubscription (key : Option String) (env : Env)
    (body : CreateSubscriptionRequest) (url : String) (s : Stores b) :
    Gives (.http key (.createSubscription body) env) (createSubscription env body url) s := by
  have hraised : ∀ e, (createRaised e).secret = none := by
    intro e
    cases e <;> rfl
  unfold createSubscription
  split
  · exact ownSecret_of_none rfl
  · intro t _ _ o r u hexec
    cases o with
    | returns order =>
      obtain ⟨⟨x, u⟩, hperform, hxu⟩ := Option.map_eq_some_iff.mp hexec
      cases hxu
      obtain ⟨⟨v, x⟩, hfirst, hxu⟩ := Option.map_eq_some_iff.mp hperform
      cases hxu
      rw [first_create hfirst]
      intro secret hsecret
      cases hsecret
      exact ⟨key, body, env, rfl, rfl⟩
    | raises e stored =>
      obtain ⟨u, -, hxu⟩ := Option.map_eq_some_iff.mp hexec
      cases hxu
      exact ownSecret_of_none (hraised e)

theorem gives_endpoint {deps : ServiceDeps py δ} {env : Env} {route : Route δ}
    {handler : Handler b.subs.Pending δ} (h : endpoint deps env route = some handler)
    (key : Option String) (s : Stores b) : Gives (.http key route env) handler s := by
  cases route with
  | emit body =>
    cases h
    have hemit : Returns (fun a => a.secret = none)
        (emitEvent env body : Handler b.subs.Pending δ) := secretless_awaitCall fun _ => rfl
    exact gives_of_returns hemit s
  | emitBatch bodies =>
    obtain ⟨-, h⟩ := Option.ite_none_right_eq_some.mp h
    cases h
    have hemit : Returns (fun a => a.secret = none)
        (emitBatch env bodies : Handler b.subs.Pending δ) := secretless_awaitCall fun _ => rfl
    exact gives_of_returns hemit s
  | createSubscription body =>
    obtain ⟨-, h⟩ := Option.ite_none_left_eq_some.mp h
    obtain ⟨url, -, rfl⟩ := Option.map_eq_some_iff.mp h
    exact gives_createSubscription key env body url s
  | redeliver id =>
    cases h
    refine gives_of_returns (secretless_awaitCall fun original => ?_) s
    cases original with
    | none => exact rfl
    | some original => exact secretless_enqueueChecked deps _
  | ping id =>
    cases h
    refine gives_of_returns (secretless_awaitCall fun sub => ?_) s
    cases sub with
    | none => exact rfl
    | some sub => exact secretless_enqueueChecked deps _
  | _ => exact (returns_plain h rfl).ensures (fun _ _ ha => ownSecret_of_none ha.1) s

theorem gives_handle (deps : ServiceDeps py δ) (q : Request δ) (s : Stores b) :
    Gives q (handle deps q) s :=
  @ensures_handle _ _ _ _ exec (fun _ => True) (fun _ _ => True) (fun q a _ => OwnSecret q a) deps
    (fun _ _ _ ha => ownSecret_of_none ha.1) (fun key _ _ _ s h => gives_endpoint h key s) q s

theorem gives (deps : ServiceDeps py δ) (b : Backends δ) :
    Rely (server deps b) (fun _ => True) (fun _ _ => True) fun q a _ => OwnSecret q a where
  refl _ := trivial
  trans _ _ _ _ _ := trivial
  exec _ _ _ _ _ _ _ := ⟨trivial, trivial⟩
  work _ _ _ _ _ := ⟨trivial, trivial⟩
  stable _ _ _ _ h _ := h
  handle q s _ := gives_handle deps q s

/-- **A secret in an answer** is the one that its request has created, in every run. -/
theorem ownSecret_run (deps : ServiceDeps py δ) (b : Backends δ) {κ : Type} [DecidableEq κ]
    {ls : List (Label δ κ)} {w : World b κ}
    (h : run (step (server deps b)) (init (Stores.empty b)) ls = some w) :
    ∀ x ∈ w.answers, OwnSecret x.1 x.2 := answers_run (gives deps b) trivial h

theorem sameSeen_of {q q' : Request δ} {a a' : Answer} (hq : SameRequest cipher q q')
    (h : SameAnswers q a a') (ht : OwnSecret q a) (ht' : OwnSecret q' a') : SameSeen q a a' := by
  cases hq with
  | create key body secret env token hfits =>
    refine ⟨h, fun secret hsecret => ?_⟩
    obtain ⟨key', body', env', hq, hsecret⟩ := ht secret hsecret
    cases hq
    exact hsecret
  | rotateSecret => exact h
  | http key route env token hfits =>
    cases route with
    | createSubscription body =>
      refine ⟨h, fun secret hsecret => ?_⟩
      obtain ⟨key', body', env', hq, hsecret⟩ := ht secret hsecret
      cases hq
      exact hsecret
    | _ =>
      exact SameResponse.eq h (ht.eq_none fun _ _ _ hq => by cases hq)
        (ht'.eq_none fun _ _ _ hq => by cases hq)

/-- **A secret is returned once**: what the service answers, whatever requests interleave with
whatever work and whichever calls raise, it answers under other secrets too. -/
theorem secrets_unseen (deps : ServiceDeps py δ) (b : Backends δ) {κ : Type} [DecidableEq κ]
    (ls ls' : List (Label δ κ)) (hls : List.Forall₂ (SameLabel (SameRequest b.cipher) Eq) ls ls')
    (w : World b κ) (h : run (step (server deps b)) (init (Stores.empty b)) ls = some w) :
    ∃ w', run (step (server deps b)) (init (Stores.empty b)) ls' = some w' ∧
      List.Forall₂ (SameAnswer (SameRequest b.cipher) fun q _ => SameSeen q)
        w.answers w'.answers := by
  obtain ⟨w', h', hsame⟩ := related_run (simulates deps b) hls
    (sameWorld_init (sameStores_empty b)) h
  have ht := ownSecret_run deps b h
  have ht' := ownSecret_run deps b h'
  refine ⟨w', h', ?_⟩
  have hleft := (List.forall₂_and_left w.answers w'.answers).mpr ⟨ht, hsame.answers⟩
  have hboth := (List.forall₂_and_left w'.answers w.answers).mpr ⟨ht', hleft.flip⟩
  exact hboth.flip.imp fun x x' hx =>
    ⟨hx.2.2.request, sameSeen_of hx.2.2.request hx.2.2.answer hx.2.1 hx.1⟩

/-- A subscription is created, then read. -/
def createdRead (secret : Option String) : List (Label Unit Bool) :=
  [.start true (.http (some "key") (exampleCreate secret) exampleEnv), .resume true (.returns []),
    .start true (.http (some "key") (.getSubscription "id_0") exampleEnv),
    .resume true (.returns [])]

theorem sameLabels_createdRead (secret secret' : Option String)
    (hfits : FitsToo exampleBackends.cipher (orToken secret exampleEnv.token)
      (orToken secret' exampleEnv.token)) :
    List.Forall₂ (SameLabel (SameRequest exampleBackends.cipher) Eq)
      (createdRead secret) (createdRead secret') :=
  .cons (.start true (.create _ _ secret' exampleEnv exampleEnv.token hfits))
    (.cons (.resume true _)
      (.cons (.start true (.http _ _ exampleEnv exampleEnv.token id))
        (.cons (.resume true _) .nil)))

theorem secrets_unseen_created_read : ∃ w : World exampleBackends Bool,
    run (step (server exampleDeps exampleBackends)) (init (Stores.empty exampleBackends))
      (createdRead none) = some w ∧ (w.answers.map fun x => x.2.secret) = [some "t0", none] ∧
      ∃ w', run (step (server exampleDeps exampleBackends))
          (init (Stores.empty exampleBackends)) (createdRead (some "mine")) = some w' ∧
        List.Forall₂ (SameAnswer (SameRequest exampleBackends.cipher) fun q _ => SameSeen q)
          w.answers w'.answers := by
  obtain ⟨w, hw, hsecrets⟩ := (Option.any_eq_true ..).mp (by decide +kernel :
    (run (step (server exampleDeps exampleBackends))
      (init (Stores.empty exampleBackends) : World exampleBackends Bool) (createdRead none)).any
        (fun w => decide ((w.answers.map fun x => x.2.secret) = [some "t0", none])) = true)
  exact ⟨w, hw, of_decide_eq_true hsecrets, secrets_unseen exampleDeps exampleBackends
    (createdRead none) (createdRead (some "mine"))
    (sameLabels_createdRead none (some "mine") fun _ => by decide) w hw⟩

end WebhookEngine.Service
