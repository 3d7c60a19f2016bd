import WebhookEngine.Provenance
import WebhookEngine.Service.Answers

/-!
# What the service has accepted

A 202 is a promise: the event of an `/emit`, each event of a batch, a ping and a replay are in
the store when the response is made and in every state after it, whatever other requests,
ingestors and engines do and whichever calls raise, as long as Redis expires no key. An event
whose id was known is the one that was appended first under it.

* `keeps_exec`, `keeps_work`: no call and no work loses or rewrites what is stored;
* `accepted_kept`: the runs.
-/

namespace WebhookEngine.Service

open Lib Lib.Run Lib.Coroutines Ingest.Events Stores.Queue Subscriptions Provenance

variable {py : Python} {δ π : Type} {b : Backends δ}

/-! ## Nothing is lost -/

/-- The events and the deliveries of the first state are in the second one. -/
structure StoresKeep (s t : Stores b) : Prop where
  events : ∀ id e, b.events.eventOf s.events id = some e → b.events.eventOf t.events id = some e
  appended : s.appended <+: t.appended
  deliveries : ∀ id j, b.deliveries.queue.view s.deliveries id = some j →
    ∃ j', b.deliveries.queue.view t.deliveries id = some j' ∧ j'.core = j.core

/-- The first event that has been appended under an id, with the clock of the append. -/
def Stores.first (s : Stores b) (id : EventId) : Option (Datetime × IncomingEvent δ) :=
  s.appended.find? fun x => x.2.eventId = id

/-- Every delivery has an id that `uuid4` has made; under every id is the event that was first
appended under it, as the backend reads it back. -/
structure Sound (s : Stores b) : Prop where
  minted : ∀ id j, b.deliveries.queue.view s.deliveries id = some j → id ∈ s.minted
  taken : ∀ x ∈ s.appended, (b.events.kept x.1 x.2).isSome = true
  first : ∀ id, b.events.eventOf s.events id = (s.first id).bind fun x => b.events.kept x.1 x.2

theorem StoresKeep.refl (s : Stores b) : StoresKeep s s :=
  ⟨fun _ _ he => he, List.prefix_refl _, fun _ j hj => ⟨j, hj, rfl⟩⟩

theorem StoresKeep.trans {s t u : Stores b} (h : StoresKeep s t) (h' : StoresKeep t u) :
    StoresKeep s u := by
  refine ⟨fun id e he => h'.events id e (h.events id e he), h.appended.trans h'.appended,
    fun id j hj => ?_⟩
  obtain ⟨j', hj', he⟩ := h.deliveries id j hj
  obtain ⟨j'', hj'', he'⟩ := h'.deliveries id j' hj'
  exact ⟨j'', hj'', he'.trans he⟩

/-- An append: an id that is known keeps its event. -/
theorem keeps_append {s : Stores b} (hs : Sound s) {now : Datetime} {e : IncomingEvent δ}
    {events : b.events.State} (h : b.events.append s.events now e = some events) :
    Sound { s with events := events, appended := s.appended ++ [(now, e)] } ∧
      StoresKeep s { s with events := events, appended := s.appended ++ [(now, e)] } := by
  obtain ⟨k, hk, hevent⟩ := b.events.eventOf_append h
  refine ⟨⟨hs.minted, fun x hx => ?_, fun id => ?_⟩, fun id _ he => ?_, List.prefix_append _ _,
    fun _ j hj => ⟨j, hj, rfl⟩⟩
  · rcases List.mem_append.mp hx with hx | hx
    · exact hs.taken x hx
    · rw [List.mem_singleton.mp hx, hk]
      rfl
  · have hold := hs.first id
    simp only [Stores.first, List.find?_append, hevent] at hold ⊢
    rw [hold]
    cases hfirst : s.appended.find? fun x => x.2.eventId = id with
    | none => by_cases hid : e.eventId = id <;> simp [hid, hk]
    | some x =>
      obtain ⟨k', hk'⟩ := Option.isSome_iff_exists.mp
        (hs.taken x (List.mem_of_find?_eq_some hfirst))
      simp [hk']
  · rw [hevent, he, Option.some_or]

theorem keeps_appendMany {s t : Stores b} (hs : Sound s) {now : Datetime}
    {es : List (IncomingEvent δ)} (h : appendMany s now es = some t) :
    Sound t ∧ StoresKeep s t := by
  induction es generalizing s with
  | nil =>
    cases h
    exact ⟨hs, StoresKeep.refl _⟩
  | cons e es ih =>
    obtain ⟨u, hu, h⟩ := Option.bind_eq_some_iff.mp h
    obtain ⟨events, happend, rfl⟩ := Option.map_eq_some_iff.mp hu
    obtain ⟨hsound, hkeep⟩ := keeps_append hs happend
    exact ⟨(ih hsound h).1, hkeep.trans (ih hsound h).2⟩

/-- A change of statuses and leases alone. -/
theorem keeps_events {s : Stores b} (hs : Sound s) {events : b.events.State}
    (h : b.events.eventOf events = b.events.eventOf s.events) :
    Sound { s with events := events } ∧ StoresKeep s { s with events := events } :=
  ⟨⟨hs.minted, hs.taken, fun id => (congrFun h id).trans (hs.first id)⟩,
    fun id _ he => (congrFun h id).trans he, List.prefix_refl _, fun _ j hj => ⟨j, hj, rfl⟩⟩

/-- A change of the subscriptions alone. -/
theorem keeps_subs {s : Stores b} (hs : Sound s) (subs : b.subs.State) :
    Sound { s with subs := subs } ∧ StoresKeep s { s with subs := subs } :=
  ⟨⟨hs.minted, hs.taken, hs.first⟩, fun _ _ he => he, List.prefix_refl _,
    fun _ j hj => ⟨j, hj, rfl⟩⟩

/-- A call of the delivery store that makes no delivery. -/
theorem keeps_deliveries {s : Stores b} (hs : Sound s) {deliveries : b.deliveries.queue.State}
    (h : SameCores b.deliveries.queue s.deliveries deliveries) :
    Sound { s with deliveries := deliveries } ∧
      StoresKeep s { s with deliveries := deliveries } := by
  refine ⟨⟨fun id j hj => ?_, hs.taken, hs.first⟩, fun _ _ he => he, List.prefix_refl _,
    fun id j hj => h.present hj⟩
  obtain ⟨j₀, hj₀, -⟩ := h.before hj
  exact hs.minted id j₀ hj₀

/-- The records are pending, with their columns; what was there is as it was. -/
theorem enqueueNew_spec {s t : Stores b} (hs : Sound s) {rs : List DeliveryRecord}
    (h : enqueueNew s rs = some t) : Sound t ∧ StoresKeep s t ∧
      ∀ r ∈ rs, r.status = .pending →
        ∃ j, b.deliveries.queue.view t.deliveries r.deliveryId = some j ∧ Keeps r j.core := by
  obtain ⟨hfresh, h⟩ := Option.ite_none_right_eq_some.mp h
  obtain ⟨deliveries, hdeliveries, rfl⟩ := Option.map_eq_some_iff.mp h
  obtain ⟨hnodup, hnew⟩ := Ingest.Ingestor.fresh_spec hfresh
  have hother : ∀ id, (∀ r ∈ rs, r.deliveryId ≠ id) →
      b.deliveries.queue.view deliveries id = b.deliveries.queue.view s.deliveries id :=
    fun id hid => b.deliveries.queue.view_enqueue_other _ rs _ id hdeliveries hid
  refine ⟨⟨fun id j hj => ?_, hs.taken, hs.first⟩,
    ⟨fun _ _ he => he, List.prefix_refl _, fun id j hj => ⟨j, ?_, rfl⟩⟩, fun r hr hpending => ?_⟩
  · by_cases hid : id ∈ rs.map fun r => r.deliveryId
    · exact List.mem_append_right _ hid
    · rw [hother id fun r hr he => hid (List.mem_map.mpr ⟨r, hr, he⟩)] at hj
      exact List.mem_append_left _ (hs.minted id j hj)
  · exact (hother id fun r hr he => hnew r hr (he ▸ hs.minted id j hj)).trans hj
  · have hnone : b.deliveries.queue.view s.deliveries r.deliveryId = none := by
      cases hj : b.deliveries.queue.view s.deliveries r.deliveryId with
      | none => rfl
      | some j => exact absurd (hs.minted _ j hj) (hnew r hr)
    obtain ⟨c, hc, hview⟩ := b.deliveries.queue.view_enqueue_new _ rs _ r hdeliveries hnodup hr
      hpending hnone
    exact ⟨_, hview, hc⟩

theorem keeps_perform {s t : Stores b} (hs : Sound s) {order : List String}
    {c : StoreCall b.subs.Pending δ} {r : c.Ans} (h : perform s order c = some (r, t)) :
    Sound t ∧ StoresKeep s t := by
  cases c with
  | append now e =>
    obtain ⟨u, happend, hx⟩ := Option.map_eq_some_iff.mp h
    cases hx
    exact keeps_appendMany hs happend
  | appendMany now es =>
    obtain ⟨u, happend, hx⟩ := Option.map_eq_some_iff.mp h
    cases hx
    exact keeps_appendMany hs happend
  | reclaimStale now =>
    cases h
    exact keeps_events hs (b.events.eventOf_reclaim s.events now)
  | first c =>
    obtain ⟨x, -, hx⟩ := Option.map_eq_some_iff.mp h
    cases hx
    exact keeps_subs hs x.1
  | enqueueMany r =>
    obtain ⟨t, ht, hx⟩ := Option.map_eq_some_iff.mp h
    cases hx
    exact ⟨(enqueueNew_spec hs ht).1, (enqueueNew_spec hs ht).2.1⟩
  | second p =>
    cases h
    exact keeps_subs hs _
  | getDelivery id =>
    cases h
    exact ⟨hs, StoresKeep.refl s⟩
  | _ =>
    obtain ⟨x, -, hx⟩ := Option.map_eq_some_iff.mp h
    cases hx
    exact ⟨hs, StoresKeep.refl s⟩

theorem keeps_performPart {s t : Stores b} (hs : Sound s) {stored : List String}
    {c : StoreCall b.subs.Pending δ} (h : performPart s stored c = some t) :
    Sound t ∧ StoresKeep s t := by
  have hother : (if stored = [] then some s else (perform s stored c).map Prod.snd) = some t →
      Sound t ∧ StoresKeep s t := by
    intro h
    split at h
    · cases h
      exact ⟨hs, StoresKeep.refl s⟩
    · obtain ⟨x, hx, rfl⟩ := Option.map_eq_some_iff.mp h
      exact keeps_perform hs hx
  cases c with
  | appendMany now es => exact keeps_appendMany hs h
  | _ => exact hother h

theorem keeps_exec {s t : Stores b} (hs : Sound s) {c : StoreCall b.subs.Pending δ} {o : Outcome}
    {r : c.Reply} (h : exec s c o = some (r, t)) : Sound t ∧ StoresKeep s t := by
  cases o with
  | returns order =>
    obtain ⟨x, hx, hrt⟩ := Option.map_eq_some_iff.mp h
    cases hrt
    exact keeps_perform hs hx
  | raises e stored =>
    obtain ⟨u, hu, hrt⟩ := Option.map_eq_some_iff.mp h
    cases hrt
    exact keeps_performPart hs hu

theorem keeps_work {s t : Stores b} (hs : Sound s) {l : Work δ} (h : work s l = some t) :
    Sound t ∧ StoresKeep s t := by
  cases l with
  | append now e => exact keeps_appendMany hs h
  | claimEvents now ttl n pick =>
    obtain ⟨⟨es, last, events⟩, hclaim, rfl⟩ := Option.map_eq_some_iff.mp h
    exact keeps_events hs (b.events.eventOf_claim hclaim)
  | ack ids =>
    obtain ⟨events, hack, rfl⟩ := Option.map_eq_some_iff.mp h
    exact keeps_events hs (b.events.eventOf_ack hack)
  | markFailed id error =>
    obtain ⟨events, hmark, rfl⟩ := Option.map_eq_some_iff.mp h
    exact keeps_events hs (b.events.eventOf_markFailed hmark)
  | reclaimEvents now =>
    cases h
    exact keeps_events hs (b.events.eventOf_reclaim s.events now)
  | enqueueMany rs => exact ⟨(enqueueNew_spec hs h).1, (enqueueNew_spec hs h).2.1⟩
  | claimBatch now ttl n pick =>
    obtain ⟨⟨rs, deliveries⟩, hclaim, rfl⟩ := Option.map_eq_some_iff.mp h
    exact keeps_deliveries hs (sameCores_claim hclaim)
  | reclaimDeliveries now =>
    cases h
    exact keeps_deliveries hs (sameCores_reclaim s.deliveries now)
  | complete id c a =>
    obtain ⟨hsome, h⟩ := Option.ite_none_right_eq_some.mp h
    obtain ⟨deliveries, hcomplete, rfl⟩ := Option.map_eq_some_iff.mp h
    obtain ⟨j, hj⟩ := Option.isSome_iff_exists.mp hsome
    exact keeps_deliveries hs (sameCores_complete hj hcomplete)

/-! ## What an answer says -/

/-- The event has been appended, and under its id is the first one that was appended under it, as
the backend reads it back. -/
def StoredFirst (s : Stores b) (now : Datetime) (e : IncomingEvent δ) : Prop :=
  (now, e) ∈ s.appended ∧ ∃ first k, s.first e.eventId = some first ∧
    b.events.kept first.1 first.2 = some k ∧ b.events.eventOf s.events e.eventId = some k

/-- A request that has been accepted, and what is stored of it. -/
inductive Accepted (deps : ServiceDeps py δ) (s : Stores b) : Request δ → Response → Prop where
  | emit (key : Option String) (body : EmitRequest δ) (env : Env)
      (h : StoredFirst s env.now (body.incoming (env.uuid 0) env.now)) :
      Accepted deps s (.http key (.emit body) env)
        ⟨202, .emitted true (body.eventId.getD (env.uuid 0))⟩
  | emitBatch (key : Option String) (bodies : List (EmitRequest δ)) (env : Env)
      (ids : List EventId) (hids : ids = bodies.mapIdx fun i body => body.eventId.getD (env.uuid i))
      (h : ∀ e ∈ bodies.mapIdx fun i body => body.incoming (env.uuid i) env.now,
        StoredFirst s env.now e) :
      Accepted deps s (.http key (.emitBatch bodies) env)
        ⟨202, .batchEmitted true bodies.length ids⟩
  | redeliver (key : Option String) (id : DeliveryId) (env : Env) (original r : DeliveryRecord)
      (horiginal : ∃ j, b.deliveries.queue.view s.deliveries id = some j ∧ j.core = core original)
      (hr : r = Pausing.cloneRecord original env.now (env.uuid 0))
      (htarget : targetVerdict deps.ssrf (Ingest.Ingestor.snapshot r) = some (.ok ()))
      (h : ∃ j, b.deliveries.queue.view s.deliveries r.deliveryId = some j ∧ Keeps r j.core) :
      Accepted deps s (.http key (.redeliver id) env) ⟨202, .delivery (Stores.Pages.view r)⟩
  | ping (key : Option String) (id : SubscriptionId) (env : Env) (sub : Subscription)
      (r : DeliveryRecord)
      (hr : r = Pausing.pingRecord deps.toService sub env.now (env.uuid 0) (env.uuid 1))
      (htarget : targetVerdict deps.ssrf (Ingest.Ingestor.snapshot r) = some (.ok ()))
      (h : ∃ j, b.deliveries.queue.view s.deliveries r.deliveryId = some j ∧ Keeps r j.core) :
      Accepted deps s (.http key (.ping id) env) ⟨202, .delivery (Stores.Pages.view r)⟩

/-- If the answer is a 202, it is kept. -/
def Truthful (deps : ServiceDeps py δ) (q : Request δ) (a : Answer) (s : Stores b) : Prop :=
  ∀ r, a = .response r → r.statusCode = 202 → Accepted deps s q r

variable {deps : ServiceDeps py δ}

/-- Every event that has been appended is kept. -/
theorem Sound.keeps {s : Stores b} (hs : Sound s) {now : Datetime} {e : IncomingEvent δ}
    (h : (now, e) ∈ s.appended) : StoredFirst s now e := by
  obtain ⟨first, hfirst⟩ : ∃ first, s.first e.eventId = some first := by
    refine Option.isSome_iff_exists.mp ?_
    rw [Stores.first, List.find?_isSome]
    exact ⟨(now, e), h, decide_eq_true rfl⟩
  obtain ⟨k, hk⟩ := Option.isSome_iff_exists.mp (hs.taken first (List.mem_of_find?_eq_some hfirst))
  exact ⟨h, first, k, hfirst, hk, by rw [hs.first, hfirst, Option.bind_some, hk]⟩

theorem StoredFirst.later {s t : Stores b} {now : Datetime} {e : IncomingEvent δ}
    (h : StoredFirst s now e) (hst : StoresKeep s t) : StoredFirst t now e := by
  obtain ⟨hmem, first, k, hfirst, hk, hevent⟩ := h
  exact ⟨hst.appended.subset hmem, first, k, hst.appended.find?_eq_some hfirst, hk,
    hst.events _ k hevent⟩

theorem Accepted.later {s t : Stores b} {q : Request δ} {r : Response} (h : Accepted deps s q r)
    (hst : StoresKeep s t) : Accepted deps t q r := by
  have hdelivery : ∀ {id} {P : DeliveryRecord → Prop},
      (∃ j, b.deliveries.queue.view s.deliveries id = some j ∧ P j.core) →
      ∃ j, b.deliveries.queue.view t.deliveries id = some j ∧ P j.core := by
    rintro id P ⟨j, hj, hP⟩
    obtain ⟨j', hj', hcore⟩ := hst.deliveries id j hj
    exact ⟨j', hj', hcore ▸ hP⟩
  cases h with
  | emit key body env h => exact .emit key body env (h.later hst)
  | emitBatch key bodies env ids hids h =>
    exact .emitBatch key bodies env ids hids fun e he => (h e he).later hst
  | redeliver key id env original r horiginal hr htarget h =>
    exact .redeliver key id env original r
      (hdelivery (P := fun c => c = core original) horiginal) hr htarget (hdelivery h)
  | ping key id env sub r hr htarget h => exact .ping key id env sub r hr htarget (hdelivery h)

theorem Plain.truthful {q : Request δ} {a : Answer} (h : Plain a) (s : Stores b) :
    Truthful deps q a s := fun r hr haccepted => absurd haccepted (h.2 r hr)

/-- What a handler answers, with what is stored when it does. -/
abbrev Says (deps : ServiceDeps py δ) (q : Request δ) :
    Handler b.subs.Pending δ → Stores b → Prop :=
  Ensures exec Sound StoresKeep (Truthful deps q)

theorem Plain.says {q : Request δ} {p : Handler b.subs.Pending δ} (h : Returns Plain p)
    (s : Stores b) : Says deps q p s := h.ensures (fun _ s ha => ha.truthful s) s

/-- The call returns, or the handler answers 500. -/
theorem says_awaitCall {q : Request δ} {c : StoreCall b.subs.Pending δ}
    {next : c.Ans → Handler b.subs.Pending δ} {s : Stores b}
    (h : ∀ t order x u, Sound t → perform t order c = some (x, u) → Says deps q (next x) u) :
    Says deps q (awaitCall c next) s := by
  intro t ht _ o r u hexec
  cases o with
  | returns order =>
    obtain ⟨⟨x, u⟩, hx, hru⟩ := Option.map_eq_some_iff.mp hexec
    cases hru
    exact h t order x u ht hx
  | raises e stored =>
    obtain ⟨u, -, hru⟩ := Option.map_eq_some_iff.mp hexec
    cases hru
    exact plain_internalServerError.truthful u

/-- Its events are among those that have been appended. -/
theorem appended_of {s t : Stores b} {now : Datetime} {es : List (IncomingEvent δ)}
    (h : appendMany s now es = some t) :
    t.appended = s.appended ++ es.map fun e => (now, e) := by
  induction es generalizing s with
  | nil =>
    cases h
    exact (List.append_nil _).symm
  | cons e es ih =>
    obtain ⟨u, hu, h⟩ := Option.bind_eq_some_iff.mp h
    obtain ⟨events, -, rfl⟩ := Option.map_eq_some_iff.mp hu
    rw [ih h, List.append_assoc, List.map_cons, List.singleton_append]

theorem stored_appendMany {s t : Stores b} (hs : Sound s) {now : Datetime}
    {es : List (IncomingEvent δ)} (h : appendMany s now es = some t) :
    ∀ e ∈ es, StoredFirst t now e := by
  intro e he
  apply (keeps_appendMany hs h).1.keeps
  rw [appended_of h]
  exact List.mem_append_right _ (List.mem_map_of_mem he)

theorem truthful_accepted {q : Request δ} {r : Response} {s : Stores b}
    (h : Accepted deps s q r) : Truthful deps q (.response r) s := by
  intro r' hr' _
  cases hr'
  exact h

theorem says_emitEvent (key : Option String) (env : Env) (body : EmitRequest δ) (s : Stores b) :
    Says deps (.http key (.emit body) env) (emitEvent env body) s := by
  refine says_awaitCall fun t order x u ht hperform => ?_
  obtain ⟨u, happend, hu⟩ := Option.map_eq_some_iff.mp hperform
  cases hu
  exact truthful_accepted
    (.emit key body env (stored_appendMany ht happend _ (List.mem_singleton_self _)))

theorem says_emitBatch (key : Option String) (env : Env) (bodies : List (EmitRequest δ))
    (s : Stores b) :
    Says deps (.http key (.emitBatch bodies) env) (emitBatch env bodies) s := by
  refine says_awaitCall fun t order x u ht hperform => ?_
  obtain ⟨u, happend, hu⟩ := Option.map_eq_some_iff.mp hperform
  cases hu
  have hids : (bodies.mapIdx fun i body => body.incoming (env.uuid i) env.now).map
      (fun e => e.eventId) = bodies.mapIdx fun i body => body.eventId.getD (env.uuid i) := by
    refine List.ext_getElem (by simp) fun i hi hi' => ?_
    simp [EmitRequest.incoming]
  have hlength : (bodies.mapIdx fun i body => body.incoming (env.uuid i) env.now).length =
      bodies.length := List.length_mapIdx ..
  refine truthful_accepted ?_
  rw [hlength]
  exact .emitBatch key bodies env _ hids (stored_appendMany ht happend)

/-- The enqueueing of a new record whose target passes. -/
theorem says_enqueueChecked {q : Request δ} {r : DeliveryRecord} {s : Stores b}
    (hpending : r.status = .pending)
    (h : ∀ u : Stores b, StoresKeep s u →
      targetVerdict deps.ssrf (Ingest.Ingestor.snapshot r) = some (.ok ()) →
      (∃ j, b.deliveries.queue.view u.deliveries r.deliveryId = some j ∧ Keeps r j.core) →
      Accepted deps u q ⟨202, .delivery (Stores.Pages.view r)⟩) :
    Says deps q (enqueueChecked deps r) s := by
  unfold enqueueChecked
  split
  · exact plain_internalServerError.truthful s
  · exact (plain_response rfl (by decide)).truthful s
  next hverdict =>
    intro t ht hst o x u hexec
    cases o with
    | returns order =>
      obtain ⟨⟨x, u⟩, hperform, hxu⟩ := Option.map_eq_some_iff.mp hexec
      cases hxu
      obtain ⟨u, hu, hxu⟩ := Option.map_eq_some_iff.mp hperform
      cases hxu
      obtain ⟨-, hkeep, hnew⟩ := enqueueNew_spec ht hu
      exact truthful_accepted (h u (hst.trans hkeep) hverdict
        (hnew r (List.mem_singleton_self r) hpending))
    | raises e stored =>
      obtain ⟨u, -, hxu⟩ := Option.map_eq_some_iff.mp hexec
      cases hxu
      exact plain_internalServerError.truthful u

theorem says_redeliver (key : Option String) (env : Env) (id : DeliveryId) (s : Stores b) :
    Says deps (.http key (.redeliver id) env) (redeliver deps env id) s := by
  refine says_awaitCall fun t order x u _ hperform => ?_
  cases hperform
  cases horiginal : b.deliveries.queue.get t.deliveries id with
  | none => exact (plain_response rfl (by decide)).truthful t
  | some original =>
    obtain ⟨j, hj, hcore⟩ := showsCore b.deliveries _ _ _ horiginal
    refine says_enqueueChecked rfl fun u hkeep htarget hqueued => ?_
    obtain ⟨j', hj', hcore'⟩ := hkeep.deliveries id j hj
    exact .redeliver key id env original _ ⟨j', hj', hcore'.trans hcore⟩ rfl htarget hqueued

theorem says_ping (key : Option String) (env : Env) (id : SubscriptionId) (s : Stores b) :
    Says deps (.http key (.ping id) env) (ping deps env id) s := by
  refine says_awaitCall fun t order sub u _ hperform => ?_
  cases sub with
  | none => exact (plain_response rfl (by decide)).truthful u
  | some sub =>
    exact says_enqueueChecked rfl fun u _ htarget hqueued =>
      .ping key id env sub _ rfl htarget hqueued

theorem says_createSubscription (key : Option String) (env : Env)
    (body : CreateSubscriptionRequest) (url : String) (s : Stores b) :
    Says deps (.http key (.createSubscription body) env) (createSubscription env body url) s := by
  have hraised : ∀ e, Plain (createRaised e) := by
    intro e
    cases e with
    | valueError text => exact plain_response rfl (by decide)
    | other => exact plain_internalServerError
  unfold createSubscription
  split
  · exact (plain_response rfl (by decide)).truthful s
  · intro t ht _ o r u hexec
    cases o with
    | returns order =>
      obtain ⟨⟨x, u⟩, hperform, hxu⟩ := Option.map_eq_some_iff.mp hexec
      cases hxu
      obtain ⟨⟨v, x⟩, hfirst, hxu⟩ := Option.map_eq_some_iff.mp hperform
      cases hxu
      rw [first_create hfirst]
      intro r hr haccepted
      cases hr
      cases haccepted
    | raises e stored =>
      obtain ⟨u, -, hxu⟩ := Option.map_eq_some_iff.mp hexec
      cases hxu
      exact (hraised e).truthful u

/-! ### Every handler -/

theorem says_endpoint {env : Env} {route : Route δ} {handler : Handler b.subs.Pending δ}
    (h : endpoint deps env route = some handler) (key : Option String) (s : Stores b) :
    Says deps (.http key route env) handler s := by
  cases route with
  | emit body =>
    cases h
    exact says_emitEvent key env body s
  | emitBatch bodies =>
    obtain ⟨-, h⟩ := Option.ite_none_right_eq_some.mp h
    cases h
    exact says_emitBatch key env bodies s
  | createSubscription body =>
    obtain ⟨-, h⟩ := Option.ite_none_left_eq_some.mp h
    obtain ⟨url, -, rfl⟩ := Option.map_eq_some_iff.mp h
    exact says_createSubscription key env body url s
  | redeliver id =>
    cases h
    exact says_redeliver key env id s
  | ping id =>
    cases h
    exact says_ping key env id s
  | _ => exact Plain.says (returns_plain h rfl) s

theorem says_handle (q : Request δ) (s : Stores b) : Says deps q (handle deps q) s :=
  @ensures_handle _ _ _ _ exec Sound StoresKeep (Truthful deps) deps
    (fun _ _ s ha => ha.truthful s) (fun key _ _ _ s h => says_endpoint h key s) q s

/-! ## Runs -/

theorem rely (deps : ServiceDeps py δ) (b : Backends δ) :
    Rely (server deps b) Sound StoresKeep (Truthful deps) where
  refl := StoresKeep.refl
  trans _ _ _ := StoresKeep.trans
  exec _ _ _ _ _ hs h := keeps_exec hs h
  work _ _ _ hs h := keeps_work hs h
  stable _ _ _ _ h hst r hr haccepted := (h r hr haccepted).later hst
  handle q s _ := says_handle q s

theorem sound_empty (b : Backends δ) : Sound (Stores.empty b) where
  minted id j hj := by
    rw [Stores.empty, b.deliveries.queue.view_empty] at hj
    cases hj
  taken x hx := by cases hx
  first id := by
    rw [Stores.empty, EventQueue.eventOf, b.events.entry_empty]
    rfl

/-- **What a 202 has accepted is kept**, in every run of the service in which no key of Redis
expires; and nothing that is stored is lost or rewritten by any such run that goes on from
there. -/
theorem accepted_kept (deps : ServiceDeps py δ) (b : Backends δ) {κ : Type} [DecidableEq κ]
    (ls : List (Label δ κ)) (w : World b κ)
    (h : run (step (server deps b)) (init (Stores.empty b)) ls = some w) :
    (∀ x ∈ w.answers, Truthful deps x.1 x.2 w.store) ∧
      ∀ (ls' : List (Label δ κ)) (w' : World b κ), run (step (server deps b)) w ls' = some w' →
        StoresKeep w.store w'.store :=
  ⟨answers_run (rely deps b) (sound_empty b) h, fun _ _ h' =>
    (rely_run (rely deps b) (rely_run (rely deps b) (sound_empty b) h).1 h').2⟩

/-- A subscription is created and pinged; between the two an event comes in, another one under its
id, and a batch with the id too. -/
def createdPinged : List (Label Unit Bool) :=
  [.start false (.http (some "key") (exampleCreate none) exampleEnv), .resume false (.returns []),
    .start false (.http (some "key") (.ping "id_0") exampleEnv), .resume false (.returns []),
    .start true (.http (some "key")
      (.emit { event := "order.paid", eventId := some "e", data := () }) exampleEnv),
    .resume true (.returns []),
    .start true (.http (some "key")
      (.emit { event := "order.sent", eventId := some "e", data := () }) exampleEnv),
    .resume false (.returns []), .resume true (.returns []),
    .start true (.http (some "key") (.emitBatch [{ event := "order.lost", data := () },
      { event := "order.lost", eventId := some "e", data := () }]) exampleEnv),
    .resume true (.returns [])]

/-- The ids that the answers give, and the name of the event that is stored under `e`. -/
def exampleSummary (w : World exampleBackends Bool) : List Nat × Option String :=
  (w.answers.map fun x => match x.2 with
    | .response r => r.statusCode
    | _ => 0,
    (exampleBackends.events.eventOf w.store.events "e").map fun e => e.event)

theorem accepted_kept_created_pinged : ∃ w : World exampleBackends Bool,
    run (step (server exampleDeps exampleBackends)) (init (Stores.empty exampleBackends))
      createdPinged = some w ∧
      exampleSummary w = ([201, 202, 202, 202, 202], some "order.paid") ∧
      (∀ x ∈ w.answers, Truthful exampleDeps x.1 x.2 w.store) ∧
      ∀ (ls' : List (Label Unit Bool)) (w' : World exampleBackends Bool),
        run (step (server exampleDeps exampleBackends)) w ls' = some w' →
          StoresKeep w.store w'.store := by
  obtain ⟨w, hw, hsummary⟩ := (Option.any_eq_true ..).mp (by decide +kernel :
    (run (step (server exampleDeps exampleBackends))
      (init (Stores.empty exampleBackends) : World exampleBackends Bool) createdPinged).any
        (fun w => decide (exampleSummary w = ([201, 202, 202, 202, 202], some "order.paid"))) =
          true)
  exact ⟨w, hw, of_decide_eq_true hsummary,
    accepted_kept exampleDeps exampleBackends createdPinged w hw⟩

end WebhookEngine.Service
