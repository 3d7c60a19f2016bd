import WebhookEngine.Payloads
import WebhookEngine.Stores.Shipped
import WebhookEngine.Subscriptions.Pausing

/-!
# Where a posted delivery comes from

In the world of the microservice, every delivery that is stored, claimed or posted was made of
an event that the event store keeps, or by `ping`; a replay has what its original has.

* `SameCores`: no call of a store but `enqueue_many` makes or rewrites a delivery;
* `truthful_step`: what every step of the service keeps;
* `posts_truthful`: what a receiver reads of a post is the event as it was appended.
-/

namespace WebhookEngine.Provenance

open Lib Run Dispatcher Ingest.Events Ingest.Ingestor Stores Stores.Queue Engine
open Subscriptions Subscriptions.Pausing

variable {py : Python} {δ : Type} {E : EventQueue δ} {q : LeaseQueue} {ι κ : Type}

/-! ## The columns that a store keeps -/

/-- `get` shows the delivery that the queue keeps. -/
def ShowsCore (q : LeaseQueue) : Prop :=
  ∀ s id r, q.get s id = some r → ∃ j, q.view s id = some j ∧ j.core = core r

theorem showsCore (b : Shipped) : ShowsCore b.queue := by
  intro s id r h
  cases b with
  | memory => exact ⟨_, congrArg (Option.map _) h, rfl⟩
  | redis limit => exact ⟨_, congrArg (Option.map _) h, rfl⟩
  | mongo limit =>
    obtain ⟨doc, hdoc, rfl⟩ := Option.map_eq_some_iff.mp h
    exact ⟨_, congrArg (Option.map _) hdoc, rfl⟩
  | postgres =>
    obtain ⟨row, hrow, rfl⟩ := Option.map_eq_some_iff.mp h
    exact ⟨_, congrArg (Option.map _) hrow, rfl⟩

/-- The same deliveries, with the same columns. -/
def SameCores (q : LeaseQueue) (s s' : q.State) : Prop :=
  ∀ id, (q.view s' id).map Job.core = (q.view s id).map Job.core

theorem SameCores.refl (s : q.State) : SameCores q s s := fun _ => rfl

theorem sameCores_claim {s s' : q.State} {now : Datetime} {ttl n : Nat} {pick : List DeliveryId}
    {rs : List DeliveryRecord} (h : q.claimBatch s now ttl n pick = some (rs, s')) :
    SameCores q s s' := by
  intro id
  obtain ⟨-, hin, hout⟩ := q.view_claim s now ttl n pick rs s' h
  by_cases hm : ∃ r ∈ rs, r.deliveryId = id
  · obtain ⟨r, hr, rfl⟩ := hm
    obtain ⟨j, e, hj, -, -, -, hj'⟩ := hin r hr
    rw [hj, hj']
    rfl
  · rw [hout id fun r hr he => hm ⟨r, hr, he⟩]

theorem sameCores_reclaim (s : q.State) (now : Datetime) :
    SameCores q s (q.reclaimStale s now).2 := by
  intro id
  rcases q.view_reclaim s now id with h | ⟨j, e, st, hj, -, -, -, -, h⟩
  · rw [h]
  · rw [h, hj]
    rfl

theorem sameCores_complete {s s' : q.State} {id : DeliveryId} {c : Completion} {a : AttemptRecord}
    {j : Job} (hj : q.view s id = some j) (h : q.complete s id c a = some s') :
    SameCores q s s' := by
  intro id'
  by_cases he : id' = id
  · subst he
    rw [q.view_complete s id' c a j s' hj h, hj, Option.map_some, Option.map_some, settle_core]
  · rw [q.view_complete_other s id c a s' id' h he]

theorem SameCores.present {s s' : q.State} (h : SameCores q s s') {id : DeliveryId} {j : Job}
    (hj : q.view s id = some j) : ∃ j', q.view s' id = some j' ∧ j'.core = j.core := by
  have hid := h id
  rw [hj, Option.map_some] at hid
  exact Option.map_eq_some_iff.mp hid

theorem SameCores.absent {s s' : q.State} (h : SameCores q s s') {id : DeliveryId}
    (hnone : q.view s id = none) : q.view s' id = none := by
  have hid := h id
  rw [hnone, Option.map_none] at hid
  exact Option.map_eq_none_iff.mp hid

theorem SameCores.before {s s' : q.State} (h : SameCores q s s') {id : DeliveryId} {j' : Job}
    (hj' : q.view s' id = some j') : ∃ j, q.view s id = some j ∧ j.core = j'.core := by
  have hid := h id
  rw [hj', Option.map_some] at hid
  obtain ⟨j, hj, he⟩ := Option.map_eq_some_iff.mp hid.symm
  exact ⟨j, hj, he⟩

/-! ## Genuine deliveries -/

/-- The delivery is of an event that is kept, with its name, its tenant and its data, or it is a
ping of its subscription. -/
inductive Genuine (svc : Service py δ) (events : E.State) (r : DeliveryRecord) : Prop where
  | event (x : Entry δ) (hx : E.entry events r.eventId = some x)
      (hname : r.eventName = x.event.event)
      (htenant : r.tenantId.getD "" = x.event.tenantId.getD "")
      (hdata : svc.dumps x.event.data = some r.dataJson)
  | ping (now : Datetime) (hname : r.eventName = PING_EVENT)
      (hdata : r.dataJson = svc.pingBody r.subscriptionId now)

variable {svc : Service py δ}

theorem Genuine.keeps {events : E.State} {r c : DeliveryRecord} (h : Genuine svc events r)
    (hc : Keeps r c) : Genuine svc events c := by
  cases h with
  | event x hx hname htenant hdata =>
    refine .event x ?_ (hc.eventName.trans hname) (hc.tenantId.trans htenant) ?_
    · rw [hc.eventId]
      exact hx
    · rw [hc.dataJson]
      exact hdata
  | ping now hname hdata =>
    refine .ping now (hc.eventName.trans hname) ?_
    rw [hc.dataJson, hc.subscriptionId]
    exact hdata

/-- What is queued of a record has no part in it. -/
theorem genuine_core {events : E.State} {r : DeliveryRecord} :
    Genuine svc events (core r) ↔ Genuine svc events r :=
  ⟨fun h => h.keeps ⟨rfl, rfl, rfl, rfl, rfl, rfl, rfl⟩,
    fun h => h.keeps ⟨rfl, rfl, rfl, rfl, rfl, rfl, rfl⟩⟩

/-- No event is forgotten. -/
def Kept (E : EventQueue δ) (events events' : E.State) : Prop :=
  ∀ id x, E.entry events id = some x → ∃ x', E.entry events' id = some x' ∧ x'.event = x.event

theorem Genuine.later {events events' : E.State} {r : DeliveryRecord}
    (h : Genuine svc events r) (hkept : Kept E events events') : Genuine svc events' r := by
  cases h with
  | event x hx hname htenant hdata =>
    obtain ⟨x', hx', he⟩ := hkept _ x hx
    rw [← he] at hname htenant hdata
    exact .event x' hx' hname htenant hdata
  | ping now hname hdata => exact .ping now hname hdata

/-! ## The service -/

/-- The records that an ingest tick is about to store are new and genuine. -/
structure Fresh (svc : Service py δ) (s : Shared py E q) (f : FanOut py δ) : Prop where
  nodup : (f.records.map (·.deliveryId)).Nodup
  new : ∀ r ∈ f.records, r.deliveryId ∈ s.minted ∧ q.view s.deliveries r.deliveryId = none
  queued : ∀ r ∈ f.records, r.status = .pending ∧ r.attempts = 0
  genuine : ∀ r ∈ f.records, Genuine svc s.events r

/-- Every delivery in the store has an id that was made, and is genuine. -/
def Rows (svc : Service py δ) (s : Shared py E q) : Prop :=
  ∀ id j, q.view s.deliveries id = some j → id ∈ s.minted ∧ Genuine svc s.events j.core

/-- The events that an ingest tick is at are kept. -/
def Todo (s : Shared py E q) (t : Ingest.Ingestor.Tick py δ) : Prop :=
  ∀ e ∈ t.todo, ∃ x, E.entry s.events e.eventId = some x ∧ x.event = e

structure Ingesting (svc : Service py δ) (s : Shared py E q) (t : Ingest.Ingestor.Tick py δ) :
    Prop where
  todo : Todo s t
  queued : ∀ f, t.stage = .enqueue f → Fresh svc s f

structure Truthful (svc : Service py δ) (w : Pausing.World py E q ι κ) : Prop where
  rows : Rows svc w.ingest.shared
  ingesting : ∀ k t, w.ingest.ticks k = some t → Ingesting svc w.ingest.shared t
  apart : ∀ k l t u, k ≠ l → w.ingest.ticks k = some t → w.ingest.ticks l = some u → Apart t u
  tasks : ∀ i, ∀ t ∈ (w.ticks i).inflight.rows, ∃ j,
    q.view w.ingest.shared.deliveries t.record.deliveryId = some j ∧ j.core = core t.record
  posts : ∀ p ∈ w.posts, Genuine svc w.ingest.shared.events p.record

theorem truthful_init : Truthful svc (init : Pausing.World py E q ι κ) where
  rows id j hj := by
    have hnone : q.view q.empty id = some j := hj
    rw [q.view_empty] at hnone
    cases hnone
  ingesting k t ht := by cases ht
  apart k l t u _ ht := by cases ht
  tasks i t ht := by cases ht
  posts p hp := by cases hp

/-! ### What later steps leave -/

/-- A step that keeps the events and the deliveries. -/
structure Quiet (s s' : Shared py E q) : Prop where
  events : Kept E s.events s'.events
  deliveries : SameCores q s.deliveries s'.deliveries
  minted : s.minted ⊆ s'.minted

theorem Rows.quiet {s s' : Shared py E q} (h : Rows svc s) (hq : Quiet s s') : Rows svc s' := by
  intro id j hj
  obtain ⟨j₀, hj₀, he⟩ := hq.deliveries.before hj
  obtain ⟨hminted, hgenuine⟩ := h id j₀ hj₀
  exact ⟨hq.minted hminted, he ▸ hgenuine.later hq.events⟩

theorem Todo.later {s s' : Shared py E q} {t : Ingest.Ingestor.Tick py δ} (h : Todo s t)
    (hkept : Kept E s.events s'.events) : Todo s' t := by
  intro e he
  obtain ⟨x, hx, rfl⟩ := h e he
  exact hkept _ x hx

theorem Fresh.later {s s' : Shared py E q} {f : FanOut py δ} (h : Fresh svc s f)
    (hkept : Kept E s.events s'.events) (hminted : s.minted ⊆ s'.minted)
    (hview : ∀ r ∈ f.records, q.view s.deliveries r.deliveryId = none →
      q.view s'.deliveries r.deliveryId = none) : Fresh svc s' f where
  nodup := h.nodup
  new r hr := ⟨hminted (h.new r hr).1, hview r hr (h.new r hr).2⟩
  queued := h.queued
  genuine r hr := (h.genuine r hr).later hkept

theorem Ingesting.quiet {s s' : Shared py E q} {t : Ingest.Ingestor.Tick py δ}
    (h : Ingesting svc s t) (hq : Quiet s s') : Ingesting svc s' t where
  todo := h.todo.later hq.events
  queued f hf := (h.queued f hf).later hq.events hq.minted fun _ _ => hq.deliveries.absent

/-! ### Storing -/

/-- What is stored of fresh records is genuine, and touches no other delivery. -/
theorem rows_store {s s' : Shared py E q} {f : FanOut py δ} {rs : List DeliveryRecord}
    (h : Rows svc s) (hf : Fresh svc s f) (hrs : rs.Sublist f.records)
    (henqueue : q.enqueueMany s.deliveries rs = some s'.deliveries)
    (hevents : s'.events = s.events) (hminted : s'.minted = s.minted) : Rows svc s' := by
  intro id j hj
  rw [hevents, hminted]
  rcases view_store henqueue (hf.nodup.sublist (hrs.map _)) (fun r hr =>
    ⟨(hf.queued r (hrs.subset hr)).1, (hf.queued r (hrs.subset hr)).2,
      (hf.new r (hrs.subset hr)).2⟩) id with ⟨-, hsame⟩ | ⟨r, hr, rfl, c, hc, hview⟩
  · exact h id j (hsame ▸ hj)
  · rw [hview] at hj
    cases hj
    exact ⟨(hf.new r (hrs.subset hr)).1, (hf.genuine r (hrs.subset hr)).keeps hc⟩

theorem view_store_other {s s' : Shared py E q} {f : FanOut py δ} {rs : List DeliveryRecord}
    (hrs : rs.Sublist f.records)
    (henqueue : q.enqueueMany s.deliveries rs = some s'.deliveries) {id : DeliveryId}
    (hother : ∀ r ∈ f.records, r.deliveryId ≠ id) :
    q.view s'.deliveries id = q.view s.deliveries id :=
  q.view_enqueue_other _ _ _ _ henqueue fun r hr => hother r (hrs.subset hr)

/-! ### Ingest ticks -/

theorem todo_proceed {s : Shared py E q} {t : Ingest.Ingestor.Tick py δ} (h : Todo s t) :
    Todo s t.proceed := h

theorem todo_tail {s : Shared py E q} {t t' : Ingest.Ingestor.Tick py δ} (h : Todo s t)
    (ht : t'.todo = t.todo.tail) : Todo s t' :=
  fun e he => h e (List.mem_of_mem_tail (ht ▸ he))

/-- What a reply leaves of the events that a tick has to do. -/
theorem todo_reply {dumps : δ → Option Bytes} {s s' : Shared py E q}
    {t t' : Ingest.Ingestor.Tick py δ} {r : Reply} (h : TickMoves dumps E q s t t.stage r s' t')
    (htodo : Todo s t) : Todo s' t' := by
  have hkept : Kept E s.events s'.events := fun id x hx => by
    obtain ⟨x', hx', he, -⟩ := (events_follow h id).kept x hx
    exact ⟨x', hx', he⟩
  have hlater := htodo.later hkept
  generalize t.stage = stage at h
  cases h with
  | claimed pick n es last events t'' hclaim ht'' =>
    have hentry := E.entry_claim _ _ _ _ _ _ _ _ hclaim
    have hmore : Todo ({ s with events := events } : Shared py E q) t'' := by
      subst ht''
      intro e he
      rcases List.mem_append.mp he with he | he
      · exact hlater e he
      · refine ⟨⟨e, .claimed⟩, ?_, rfl⟩
        rw [hentry.2.2 e.eventId, if_pos (List.mem_map_of_mem he), hentry.2.1 e he]
        rfl
    cases last with
    | true => exact todo_proceed hmore
    | false => exact hmore
  | skipped | enqueued | marked => exact todo_tail hlater rfl
  | _ => exact hlater

theorem genuine_of_fanned {s : Shared py E q} {t : Ingest.Ingestor.Tick py δ} {f : FanOut py δ}
    (hf : Fanned svc.dumps f) (hhead : t.todo.head? = some f.event) (htodo : Todo s t) :
    ∀ r ∈ f.records, Genuine svc s.events r := by
  intro r hr
  obtain ⟨hid, hname, htenant, hdata⟩ := hf.fields r hr
  obtain ⟨x, hx, he⟩ := htodo f.event (List.mem_of_head? hhead)
  refine .event x (hid ▸ hx) (hname.trans (by rw [he])) (by rw [htenant, he]) ?_
  rw [he]
  exact hdata

/-- A reply to one tick: what it leaves of the rows, of that tick, and of any other. -/
theorem truthful_reply {s s' : Shared py E q} {t t' : Ingest.Ingestor.Tick py δ} {r : Reply}
    (h : TickMoves svc.dumps E q s t t.stage r s' t') (hrows : Rows svc s)
    (ht : Ingesting svc s t) : Rows svc s' ∧ Ingesting svc s' t' ∧
    ∀ u, Ingesting svc s u → Apart t u → Ingesting svc s' u ∧ Apart t' u := by
  have hkept : Kept E s.events s'.events := fun id x hx => by
    obtain ⟨x', hx', he, -⟩ := (events_follow h id).kept x hx
    exact ⟨x', hx', he⟩
  have htodo := todo_reply h ht.todo
  have hstores := delivers h
  have hsame : s'.deliveries = s.deliveries → SameCores q s.deliveries s'.deliveries :=
    fun he => he ▸ SameCores.refl _
  cases hstores with
  | quiet hdeliveries hminted hfanOuts hstage =>
    have hq : Quiet s s' := ⟨hkept, hsame hdeliveries, hminted ▸ List.Subset.refl _⟩
    exact ⟨hrows.quiet hq, ⟨htodo, fun f hf => absurd hf (hstage f)⟩,
      fun u hu _ => ⟨hu.quiet hq, fun f g hf => absurd hf (hstage f)⟩⟩
  | skip f hf hnil hdeliveries hminted hfanOuts hstage =>
    have hq : Quiet s s' := ⟨hkept, hsame hdeliveries, hminted ▸ List.Subset.refl _⟩
    exact ⟨hrows.quiet hq, ⟨htodo, fun f hf => absurd hf (hstage f)⟩,
      fun u hu _ => ⟨hu.quiet hq, fun f g hf => absurd hf (hstage f)⟩⟩
  | fan f hf hhead hfresh hdeliveries hminted hfanOuts hstage =>
    obtain ⟨hn, hnew⟩ := fresh_spec hfresh
    have hq : Quiet s s' := ⟨hkept, hsame hdeliveries, hminted ▸ List.subset_append_left ..⟩
    refine ⟨hrows.quiet hq, ⟨htodo, fun f' hf' => ?_⟩, fun u hu _ => ⟨hu.quiet hq, ?_⟩⟩
    · cases hstage.symm.trans hf'
      refine ⟨hn, fun r hr => ⟨?_, ?_⟩, fun r hr => ?_, genuine_of_fanned hf hhead htodo⟩
      · rw [hminted]
        exact List.mem_append_right _ (List.mem_map_of_mem hr)
      · rw [hdeliveries]
        by_contra hview
        obtain ⟨j, hj⟩ := Option.ne_none_iff_exists'.mp hview
        exact hnew r hr (hrows _ j hj).1
      · exact ⟨(hf.queued r hr).1, (hf.queued r hr).2.1⟩
    · intro f' g hf' hg r hr r' hr' he
      cases hstage.symm.trans hf'
      exact hnew r hr (he ▸ ((hu.queued g hg).new r' hr').1)
  | store f rs hf hrs henqueue hminted hfanOuts hstage =>
    have hevents : s'.events = s.events := by
      generalize t.stage = stage at h hf
      subst hf
      cases h <;> rfl
    refine ⟨rows_store hrows (ht.queued f hf) hrs henqueue hevents hminted,
      ⟨htodo, fun g hg => absurd hg (hstage g)⟩, fun u hu hapart => ⟨⟨hu.todo.later hkept, ?_⟩,
        fun g g' hg => absurd hg (hstage g)⟩⟩
    intro g hg
    refine (hu.queued g hg).later hkept (hminted ▸ List.Subset.refl _) fun r hr hnone => ?_
    rw [view_store_other hrs henqueue fun r' hr' => hapart f g hf hg r' hr' r hr]
    exact hnone

/-! ### Engine ticks -/

/-- A claimed record is the stored delivery. -/
def Claimed (q : LeaseQueue) (s : q.State) (tk : Engine.Tick) : Prop :=
  ∀ t ∈ tk.inflight.rows, ∃ j,
    q.view s t.record.deliveryId = some j ∧ j.core = core t.record

theorem Claimed.later {s s' : q.State} {tk : Engine.Tick} (h : Claimed q s tk)
    (hsame : SameCores q s s') : Claimed q s' tk := by
  intro t ht
  obtain ⟨j, hj, he⟩ := h t ht
  obtain ⟨j', hj', he'⟩ := hsame.present hj
  exact ⟨j', hj', he'.trans he⟩

/-- A step of an engine keeps the deliveries, and posts what it has claimed. -/
theorem claimed_tick {cfg : WebhookDispatchConfig} {d : WebhookDispatcher py} {s s' : q.State}
    {now : Datetime} {tk tk' : Engine.Tick} {a : Action} {l : Log}
    (h : Engine.Tick.Moves q cfg d s now tk a s' tk' l) (htasks : Claimed q s tk) :
    SameCores q s s' ∧ Claimed q s' tk' ∧
      ∀ r ∈ l.posted, ∃ j, q.view s r.deliveryId = some j ∧ j.core = core r := by
  have hnone : ∀ s, Claimed q s .idle := fun s t ht => by cases ht
  have hquiet : ∀ r ∈ ([] : List DeliveryRecord),
      ∃ j, q.view s r.deliveryId = some j ∧ j.core = core r := List.forall_mem_nil _
  cases h with
  | reclaim => exact ⟨sameCores_reclaim s now, fun t ht => (by cases ht), hquiet⟩
  | reclaimRaised => exact ⟨SameCores.refl s, fun t ht => (by cases ht), hquiet⟩
  | claim pick rs s' hclaim =>
    refine ⟨sameCores_claim hclaim, fun t ht => ?_, hquiet⟩
    have hfound := Table.find?_of_mem ht
    rw [Engine.Tick.inflight, find?_waitingTasks] at hfound
    obtain ⟨r, hr, rfl⟩ := Option.map_eq_some_iff.mp hfound
    obtain ⟨-, hin, -⟩ := q.view_claim _ _ _ _ _ _ _ hclaim
    obtain ⟨j, e, -, -, -, hcore, hview⟩ := hin r (List.mem_of_find?_eq_some hr)
    exact ⟨_, hview, hcore.symm⟩
  | claimRaised pick => exact ⟨SameCores.refl s, hnone s, hquiet⟩
  | task tasks id a t call phase s' ht hstep hcall =>
    obtain ⟨hmem, hid⟩ := Table.find?_eq_some.mp ht
    obtain ⟨j, hj, hcore⟩ := htasks t hmem
    have hsame : SameCores q s s' := by
      cases call with
      | none =>
        cases hcall
        exact SameCores.refl s
      | some call =>
        have hid : t.record.deliveryId = id := hid
        rw [hid] at hj
        exact sameCores_complete hj hcall
    refine ⟨hsame, fun u hu => ?_, fun r hr => ?_⟩
    · have hfound := Table.find?_of_mem hu
      rw [Engine.Tick.inflight, find?_setTask ht] at hfound
      split at hfound
      · obtain ⟨phase', -, rfl⟩ := Option.map_eq_some_iff.mp hfound
        exact htasks.later hsame t hmem
      · exact htasks.later hsame u (Table.find?_eq_some.mp hfound).1
    · cases a with
      | post =>
        obtain rfl := List.mem_singleton.mp hr
        exact ⟨j, hj, hcore⟩
      | _ => cases hr
  | finish tasks hempty => exact ⟨SameCores.refl s, hnone s, hquiet⟩

/-! ### Every step -/

/-- A step that keeps the deliveries and the events leaves everything else as it was. -/
theorem Truthful.quiet {w : Pausing.World py E q ι κ} (h : Truthful svc w) (s : Shared py E q)
    (hq : Quiet w.ingest.shared s) :
    Truthful svc { w with ingest := { w.ingest with shared := s } } where
  rows := h.rows.quiet hq
  ingesting k t ht := (h.ingesting k t ht).quiet hq
  apart := h.apart
  tasks i := Claimed.later (h.tasks i) hq.deliveries
  posts p hp := (h.posts p hp).later hq.events

variable [DecidableEq ι] [DecidableEq κ]

omit [DecidableEq ι] in
theorem truthful_ingest {w : Pausing.World py E q ι κ} {l : Ingest.Ingestor.Label py δ κ}
    {ingest : Ingest.Ingestor.World py E q κ} (hw : Truthful svc w)
    (h : Ingest.Ingestor.step svc.dumps E q w.ingest l = some ingest) :
    Truthful svc { w with ingest := ingest } := by
  cases moves h with
  | append now event events happend =>
    refine hw.quiet { w.ingest.shared with events := events } ⟨fun id x hx => ?_,
      SameCores.refl _, List.Subset.refl _⟩
    obtain ⟨x', hx', he, -⟩ := (E.follows_append happend id).kept x hx
    exact ⟨x', hx', he⟩
  | begin k ingestor now hnone =>
    refine ⟨hw.rows, fun l t ht => ?_, fun l m t u hne ht hu => ?_, hw.tasks, hw.posts⟩
    · rcases update_some ht with ⟨-, rfl⟩ | ⟨-, hold⟩
      · exact ⟨fun e he => (by cases he), fun f hf => by cases hf⟩
      · exact hw.ingesting l t hold
    · rcases update_some ht with ⟨rfl, rfl⟩ | ⟨hl, hold⟩
      · exact fun f g hf => by cases hf
      · rcases update_some hu with ⟨rfl, rfl⟩ | ⟨hm, hold'⟩
        · exact fun f g hf hg => by cases hg
        · exact hw.apart l m t u hne hold hold'
  | reply k r t t' s ht hmoves =>
    obtain ⟨hrows, hthis, hothers⟩ := truthful_reply hmoves hw.rows (hw.ingesting k t ht)
    have hother : ∀ l u, l ≠ k → w.ingest.ticks l = some u → Ingesting svc s u ∧ Apart t' u :=
      fun l u hl hu => hothers u (hw.ingesting l u hu) (hw.apart k l t u hl.symm ht hu)
    have hkept : Kept E w.ingest.shared.events s.events := fun id x hx => by
      obtain ⟨x', hx', he, -⟩ := (events_follow hmoves id).kept x hx
      exact ⟨x', hx', he⟩
    have hstored : ∀ id j, q.view w.ingest.shared.deliveries id = some j →
        ∃ j', q.view s.deliveries id = some j' ∧ j'.core = j.core := by
      intro id j hj
      cases delivers hmoves with
      | store f rs hf hrs henqueue =>
        refine ⟨j, ?_, rfl⟩
        rw [view_store_other hrs henqueue fun x hx he => ?_]
        · exact hj
        · have hnone := (((hw.ingesting k t ht).queued f hf).new x hx).2
          rw [he, hj] at hnone
          cases hnone
      | quiet hdeliveries => exact ⟨j, hdeliveries ▸ hj, rfl⟩
      | skip f hf hnil hdeliveries => exact ⟨j, hdeliveries ▸ hj, rfl⟩
      | fan f hf hhead hfresh hdeliveries => exact ⟨j, hdeliveries ▸ hj, rfl⟩
    refine ⟨hrows, fun l u hu => ?_, fun l m u v hne hu hv => ?_, fun i u hu => ?_,
      fun p hp => (hw.posts p hp).later hkept⟩
    · rcases update_some hu with ⟨rfl, rfl⟩ | ⟨hl, hold⟩
      · exact hthis
      · exact (hother l u hl hold).1
    · rcases update_some hu with ⟨rfl, rfl⟩ | ⟨hl, hold⟩
      · rcases update_some hv with ⟨rfl, -⟩ | ⟨hm, hold'⟩
        · exact absurd rfl hne
        · exact (hother m v hm hold').2
      · rcases update_some hv with ⟨rfl, rfl⟩ | ⟨hm, hold'⟩
        · exact apart_symm (hother l u hl hold).2
        · exact hw.apart l m u v hne hold hold'
    · obtain ⟨j, hj, he⟩ := hw.tasks i u hu
      obtain ⟨j', hj', he'⟩ := hstored _ j hj
      exact ⟨j', hj', he'.trans he⟩

omit [DecidableEq ι] [DecidableEq κ] in
theorem truthful_enqueueOne {w w' : Pausing.World py E q ι κ} (hw : Truthful svc w)
    {r : DeliveryRecord} (hpending : r.status = .pending)
    (hr : Genuine svc w.ingest.shared.events r) (h : enqueueOne w r = some w') :
    Truthful svc w' := by
  obtain ⟨hnew, h⟩ := Option.ite_none_left_eq_some.mp h
  obtain ⟨deliveries, henqueue, rfl⟩ := Option.map_eq_some_iff.mp h
  have hnone : q.view w.ingest.shared.deliveries r.deliveryId = none := by
    by_contra hview
    obtain ⟨j, hj⟩ := Option.ne_none_iff_exists'.mp hview
    exact hnew (hw.rows _ j hj).1
  obtain ⟨c, hc, hview⟩ := q.view_enqueue_new _ _ _ r henqueue (List.nodup_singleton _)
    (List.mem_singleton_self r) hpending hnone
  have hother : ∀ id, id ≠ r.deliveryId →
      q.view deliveries id = q.view w.ingest.shared.deliveries id := fun id hid =>
    q.view_enqueue_other _ _ _ _ henqueue fun x hx he =>
      hid (by rw [← he, List.mem_singleton.mp hx])
  refine ⟨fun id j hj => ?_, fun k t ht => ⟨(hw.ingesting k t ht).todo, fun f hf => ?_⟩,
    hw.apart, fun i t ht => ?_, hw.posts⟩
  · by_cases hid : id = r.deliveryId
    · subst hid
      cases hview.symm.trans hj
      exact ⟨List.mem_append_right _ (List.mem_singleton_self _), hr.keeps hc⟩
    · obtain ⟨hminted, hgenuine⟩ := hw.rows id j ((hother id hid).symm.trans hj)
      exact ⟨List.mem_append_left _ hminted, hgenuine⟩
  · have hfresh := (hw.ingesting k t ht).queued f hf
    refine hfresh.later (fun id x hx => ⟨x, hx, rfl⟩) (List.subset_append_left ..) ?_
    intro x hx hnone'
    refine (hother _ fun he => hnew ?_).trans hnone'
    exact he ▸ (hfresh.new x hx).1
  · obtain ⟨j, hj, he⟩ := hw.tasks i t ht
    refine ⟨j, (hother _ fun hid => ?_).trans hj, he⟩
    rw [hid, hnone] at hj
    cases hj

/-- **What every step of the service keeps.** -/
theorem truthful_step (hq : ShowsCore q) {w w' : Pausing.World py E q ι κ}
    {l : Pausing.Label py δ ι κ} (hw : Truthful svc w) (h : Pausing.step svc w l = some w') :
    Truthful svc w' := by
  cases l with
  | create c =>
    obtain ⟨subs, -, rfl⟩ := Option.map_eq_some_iff.mp h
    exact ⟨hw.rows, hw.ingesting, hw.apart, hw.tasks, hw.posts⟩
  | pause id =>
    obtain ⟨x, -, rfl⟩ := Option.map_eq_some_iff.mp h
    exact ⟨hw.rows, hw.ingesting, hw.apart, hw.tasks, hw.posts⟩
  | resume id =>
    obtain ⟨x, -, rfl⟩ := Option.map_eq_some_iff.mp h
    exact ⟨hw.rows, hw.ingesting, hw.apart, hw.tasks, hw.posts⟩
  | ingest l =>
    obtain ⟨-, h⟩ := Option.ite_none_right_eq_some.mp h
    obtain ⟨ingest, hstep, rfl⟩ := Option.map_eq_some_iff.mp h
    exact truthful_ingest hw hstep
  | engine i now a =>
    obtain ⟨⟨deliveries, tk, log⟩, htick, rfl⟩ := Option.map_eq_some_iff.mp h
    obtain ⟨hsame, htasks, hposted⟩ := claimed_tick (tick_moves htick) (hw.tasks i)
    have hquiet := hw.quiet { w.ingest.shared with deliveries := deliveries }
      ⟨fun id x hx => ⟨x, hx, rfl⟩, hsame, List.Subset.refl _⟩
    refine ⟨hquiet.rows, hquiet.ingesting, hquiet.apart, fun j => ?_, fun p hp => ?_⟩
    · simp only [afterTick, Function.update_apply]
      split
      · exact htasks
      · exact hquiet.tasks j
    · rcases List.mem_append.mp hp with hp | hp
      · exact hw.posts p hp
      · obtain ⟨r, hr, rfl⟩ := List.mem_map.mp hp
        obtain ⟨j, hj, he⟩ := hposted r hr
        have hgenuine := (hw.rows _ j hj).2
        rw [he] at hgenuine
        exact genuine_core.mp hgenuine
  | ping id now uuid eventId =>
    obtain ⟨r, hr, h⟩ := Option.bind_eq_some_iff.mp h
    obtain ⟨row, hrow, hr⟩ := Option.bind_eq_some_iff.mp hr
    obtain ⟨-, hr⟩ := Option.ite_none_right_eq_some.mp hr
    cases hr
    exact truthful_enqueueOne hw rfl (.ping now rfl rfl) h
  | redeliver id now uuid =>
    obtain ⟨r, hr, h⟩ := Option.bind_eq_some_iff.mp h
    obtain ⟨original, horiginal, hr⟩ := Option.bind_eq_some_iff.mp hr
    obtain ⟨-, hr⟩ := Option.ite_none_right_eq_some.mp hr
    cases hr
    obtain ⟨j, hj, he⟩ := hq _ _ _ horiginal
    have hgenuine := (hw.rows _ j hj).2
    rw [he, genuine_core] at hgenuine
    refine truthful_enqueueOne hw rfl ?_ h
    cases hgenuine with
    | event x hx hname htenant hdata => exact .event x hx hname htenant hdata
    | ping now hname hdata => exact .ping now hname hdata

theorem truthful_run (hq : ShowsCore q) {labels : List (Pausing.Label py δ ι κ)}
    {w : Pausing.World py E q ι κ} (h : run (Pausing.step svc) init labels = some w) :
    Truthful svc w :=
  run_invariant (I := Truthful svc) (fun _ _ _ hu huv => truthful_step hq hu huv) truthful_init h

/-! ## What the receivers read -/

open Payloads Body Lib.Json

/-- The data of an event: a `dict` such as `json.loads` gives. -/
structure JsonData (floats : Floats) where
  items : List (Str × Value)
  readable : Readable floats (.dict items)

/-- `json.dumps(event.data).encode()`; nesting may be too deep for it. -/
def dumps (json : PythonJson) (raises : JsonData json.floats → Bool)
    (data : JsonData json.floats) : Option Bytes :=
  if raises data then none else some (encode (write spaced (.dict data.items)))

def pingItems (json : PythonJson) (id : SubscriptionId) (now : Datetime) : List (Str × Value) := [
  (ofString "ping", .atom (.bool true)),
  (ofString "subscription_id", .atom (.str (ofString id))),
  (ofString "at", .atom (.str (ofString (json.isoformat now))))]

/-- The service with Python's `json`. -/
def jsonService (json : PythonJson) (raises : JsonData json.floats → Bool)
    (svc : Service py (JsonData json.floats)) : Service py (JsonData json.floats) :=
  { svc with
    dumps := dumps json raises
    pingBody := fun id now => encode (write spaced (.dict (pingItems json id now))) }

theorem wrote_dumps {json : PythonJson} {raises : JsonData json.floats → Bool}
    {data : JsonData json.floats} {payload : Bytes} (h : dumps json raises data = some payload) :
    Wrote json payload data.items := by
  obtain ⟨-, h⟩ := Option.ite_none_left_eq_some.mp h
  cases h
  exact ⟨data.readable, .inr ⟨spaced, rfl⟩⟩

theorem wrote_ping (json : PythonJson) (id : SubscriptionId) (now : Datetime) :
    Wrote json (encode (write spaced (.dict (pingItems json id now)))) (pingItems json id now) := by
  refine ⟨.dict _ ?_ ?_ ?_, .inr ⟨spaced, rfl⟩⟩
  · have hkeys : (["ping", "subscription_id", "at"].map ofString).Nodup := by decide
    exact hkeys
  · simp only [pingItems, List.forall_mem_cons]
    exact ⟨isText_ofString _, isText_ofString _, isText_ofString _, List.forall_mem_nil _⟩
  · simp only [pingItems, List.forall_mem_cons]
    exact ⟨.atom _ trivial, readable_string _, readable_string _, List.forall_mem_nil _⟩

/-- The receiver reads the event that was appended, or the ping. -/
inductive Told (json : PythonJson) {E : EventQueue (JsonData json.floats)} (events : E.State)
    (r : DeliveryRecord) (attempt : Nat) (body : Bytes) : Prop where
  | event (x : Entry (JsonData json.floats)) (hx : E.entry events r.eventId = some x)
      (hname : r.eventName = x.event.event)
      (htenant : r.tenantId.getD "" = x.event.tenantId.getD "")
      (hread : Conveys json r attempt x.event.data.items body)
  | ping (now : Datetime) (hname : r.eventName = PING_EVENT)
      (hread : Conveys json r attempt (pingItems json r.subscriptionId now) body)

/-- **What a receiver reads of a post is the event as it was appended**, or a ping: in every run
of the service in which no key of Redis expires, replays and crashes included, whatever the
encoder is given as the attempt. -/
theorem posts_truthful (b : Shipped) (json : PythonJson)
    {E : EventQueue (JsonData json.floats)} (raises : JsonData json.floats → Bool)
    (svc : Service py (JsonData json.floats))
    (labels : List (Pausing.Label py (JsonData json.floats) ι κ))
    (w : Pausing.World py E b.queue ι κ)
    (hrun : run (Pausing.step (jsonService json raises svc)) init labels = some w) :
    ∀ p ∈ w.posts, ∀ attempt body, attempt < 10 ^ Text.maxStrDigits →
      envelopeEncode json.serialiser p.record attempt = some body →
      Told json (E := E) w.ingest.shared.events p.record attempt body := by
  intro p hp attempt body hattempt hbody
  cases (truthful_run (showsCore b) hrun).posts p hp with
  | event x hx hname htenant hdata =>
    exact .event x hx hname htenant (body_reads_payload (wrote_dumps hdata) hattempt hbody)
  | ping now hname hdata =>
    have hwrote := wrote_ping json p.record.subscriptionId now
    have hpayload : p.record.dataJson =
        encode (write spaced (.dict (pingItems json p.record.subscriptionId now))) := hdata
    rw [← hpayload] at hwrote
    exact .ping now hname (body_reads_payload hwrote hattempt hbody)

/-! ## A run of the service -/

def exampleJsonService : Service examplePython (JsonData Floats.verbatim) where
  cipher := Pg.identityCipher
  dumps _ := none
  pingBody _ _ := []
  ssrf := exampleValidator
  dispatch := {}
  dispatcher := exampleDispatcher

/-- `{"order": "o-1"}`. -/
def exampleOrder : JsonData Floats.verbatim where
  items := [(ofString "order", .atom (.str (ofString "o-1")))]
  readable := by
    refine .dict _ ?_ ?_ ?_
    · exact List.nodup_singleton _
    · simp only [List.forall_mem_cons]
      exact ⟨isText_ofString _, List.forall_mem_nil _⟩
    · simp only [List.forall_mem_cons]
      exact ⟨.atom _ (isText_ofString _), List.forall_mem_nil _⟩

abbrev ExampleLabel := Pausing.Label examplePython (JsonData Floats.verbatim) (Fin 1) Nat

/-- One tick of the engine, which sends one delivery. -/
def sendOne (now : Datetime) (id : DeliveryId) : List ExampleLabel :=
  [.engine (Fin.last 0) now (.reclaim true), .engine (Fin.last 0) now (.claim [id] true),
    .engine (Fin.last 0) now (.task id (.start (exampleAnswers now (some "8.8.8.8")))),
    .engine (Fin.last 0) now (.task id .post), .engine (Fin.last 0) now (.task id (.settle true)),
    .engine (Fin.last 0) now .finish]

/-- An event is appended, fanned out and sent; then its delivery is replayed, and a ping sent. -/
def toldThrice : List ExampleLabel :=
  [.create (exampleCreation "sub_1" "owner-a"),
    .ingest (.append 0 { eventId := "evt_1", event := "order.paid", data := exampleOrder
                         tenantId := some "owner-a" }),
    .ingest (.begin 0 Ingest.Ingestor.exampleIngestor 0), .ingest (.reply 0 (.reclaimed true)),
    .ingest (.reply 0 (.claimed [])),
    .ingest (.reply 0 (.subscriptions [(exampleCreation "sub_1" "owner-a").subscription.snapshot]
      (fun _ => "d_1") "")),
    .ingest (.reply 0 .enqueued), .ingest (.reply 0 .acked)] ++ sendOne 1 "d_1" ++
  .redeliver "d_1" 2 "d_2" :: sendOne 2 "d_2" ++ .ping "sub_1" 3 "d_3" "evt_p" :: sendOne 3 "d_3"

theorem posts_truthful_replay : ∃ w : Pausing.World examplePython
      (Ingest.Memory.memoryEvents (JsonData Floats.verbatim)) Shipped.postgres.queue (Fin 1) Nat,
    run (Pausing.step (jsonService exampleJson (fun _ => false) exampleJsonService)) init
      toldThrice = some w ∧
    (w.posts.map fun p => (p.record.deliveryId, p.record.eventId)) =
      [("d_1", "evt_1"), ("d_2", "evt_1"), ("d_3", "evt_p")] ∧
    ∀ p ∈ w.posts, ∀ body, envelopeEncode exampleJson.serialiser p.record 1 = some body →
      Told exampleJson (E := Ingest.Memory.memoryEvents (JsonData Floats.verbatim))
        w.ingest.shared.events p.record 1 body := by
  obtain ⟨w, hw, hposts⟩ := (Option.any_eq_true ..).mp (by decide +kernel :
    (run (Pausing.step (jsonService exampleJson (fun _ => false) exampleJsonService))
      (init : Pausing.World examplePython
        (Ingest.Memory.memoryEvents (JsonData Floats.verbatim)) Shipped.postgres.queue (Fin 1) Nat)
      toldThrice).any (fun w => decide
        ((w.posts.map fun p => (p.record.deliveryId, p.record.eventId)) =
          [("d_1", "evt_1"), ("d_2", "evt_1"), ("d_3", "evt_p")])) = true)
  refine ⟨w, hw, of_decide_eq_true hposts, fun p hp body hbody => ?_⟩
  refine posts_truthful .postgres exampleJson _ exampleJsonService toldThrice w hw p hp 1 body ?_
    hbody
  exact Nat.one_lt_pow (by decide) (by decide)

end WebhookEngine.Provenance
