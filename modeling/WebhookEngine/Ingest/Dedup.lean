import Mathlib.Data.Fintype.Basic
import WebhookEngine.Ingest.Ingestor
import WebhookEngine.Ingest.Memory
import WebhookEngine.Stores.Shipped

/-!
# One delivery for each subscription and event

* `deliveries_once`: if every `reclaim_stale` returns only untouched events to PENDING,
  and no `for_event` lists a subscription twice, then no two deliveries are for one pair
  of subscription and event, whatever raises or crashes;
* `reclaim_duplicates`: a tick that crashes between `enqueue_many` and `ack` is enough
  for two deliveries of one pair.
-/

namespace WebhookEngine.Ingest.Dedup

open Lib Events Ingestor Stores.Queue

variable {py : Python} {δ : Type} {dumps : δ → Option Bytes} {E : EventQueue δ} {q : LeaseQueue}

/-- Of the deliveries that are not redeliveries, no two are for one pair. -/
def OncePerPair (q : LeaseQueue) (s : q.State) : Prop :=
  ∀ id id' j j', q.view s id = some j → q.view s id' = some j' →
    j.core.redeliveryOf = none → j'.core.redeliveryOf = none →
    j.core.subscriptionId = j'.core.subscriptionId → j.core.eventId = j'.core.eventId → id = id'

/-! ## The condition -/

/-- The events a tick still has to fan out. -/
def owing (t : Tick py δ) : List EventId :=
  match t.stage with
  | .reclaim | .claim | .forEvent | .enqueue _ => t.todo.map (·.eventId)
  | .markFailed _ => t.todo.tail.map (·.eventId)
  | .ack | .returned _ | .raised | .crashed => []

/-- Some delivery of the event is stored. -/
def StoredFor (s : Shared py E q) (event : EventId) : Prop :=
  ∃ id j, q.view s.deliveries id = some j ∧ j.core.eventId = event

variable {ι : Type}

/-- No tick still has to fan the event out, and no delivery of it is stored. -/
def Untouched (w : World py E q ι) (event : EventId) : Prop :=
  (∀ i t, w.ticks i = some t → event ∉ owing t) ∧ ¬ StoredFor w.shared event

/-- A `reclaim_stale` returns only untouched events to PENDING, a `for_event` lists no
subscription twice. -/
def Careful (w : World py E q ι) : Label py δ ι → Prop
  | .reply i (.reclaimed true) => ∀ t, w.ticks i = some t → ∀ event x,
      E.entry w.shared.events event = some x → x.status = .claimed →
      Idle (E.entry (E.reclaimStale w.shared.events t.now).2 event) → Untouched w event
  | .reply _ (.subscriptions subs _ _) => (subs.map (·.id)).Nodup
  | _ => True

/-! ## What a tick owes -/

theorem owing_proceed (t : Tick py δ) : owing t.proceed = t.todo.map (·.eventId) := by
  rw [owing, Tick.proceed]
  cases htodo : t.todo with
  | cons event todo => rfl
  | nil => by_cases hacked : t.acked = [] <;> simp [hacked]

theorem owing_succeed (t : Tick py δ) (f : FanOut py δ) :
    owing (t.succeed f) = t.todo.tail.map (·.eventId) := owing_proceed _

theorem owing_fail (t : Tick py δ) : owing t.fail = t.todo.tail.map (·.eventId) :=
  owing_proceed _

/-- A step takes events from what a tick owes, the first one if its records are queued,
or it is a claim. -/
theorem owing_step {s s' : Shared py E q} {t t' : Tick py δ} {r : Reply}
    (h : TickMoves dumps E q s t t.stage r s' t') :
    (owing t').Sublist (owing t) ∧
      (∀ f, t.stage = .enqueue f → (owing t').Sublist (owing t).tail) ∨
    ∃ ttl n pick es last, E.claimEvents s.events t.now ttl n pick = some (es, last, s'.events) ∧
      s'.deliveries = s.deliveries ∧
      owing t' = owing t ++ es.map (·.eventId) := by
  have hrest : ∀ l : List EventId, ([] : List EventId).Sublist l := List.nil_sublist
  have htail : (t.todo.tail.map (·.eventId)).Sublist (t.todo.map (·.eventId)) :=
    (List.tail_sublist _).map _
  generalize hstage : t.stage = stage at h
  have howing : owing t = owing { t with stage := stage } := by rw [← hstage]
  rw [howing]
  cases h with
  | reclaimed effect => exact Or.inl ⟨List.Sublist.refl _, fun f hf => by cases hf⟩
  | claimed pick n es last events t'' hclaim ht'' =>
    refine Or.inr ⟨_, n, pick, es, last, hclaim, rfl, ?_⟩
    have hdone : owing t''.proceed = t.todo.map (·.eventId) ++ es.map (·.eventId) := by
      rw [owing_proceed, ht'', List.map_append]
    cases last with
    | true => exact hdone
    | false =>
      rw [if_neg (by simp), ht'', owing, hstage]
      exact List.map_append
  | claimRaised pick events hevents => exact Or.inl ⟨hrest _, fun f hf => by cases hf⟩
  | skipped subs uuid error event htodo hfan =>
    refine Or.inl ⟨?_, fun f hf => by cases hf⟩
    rw [owing_succeed]
    exact htail
  | fanned subs uuid error event records htodo hfan hfresh =>
    exact Or.inl ⟨List.Sublist.refl _, fun f hf => by cases hf⟩
  | fanRaised r error hr => exact Or.inl ⟨htail, fun f hf => by cases hf⟩
  | enqueued f deliveries henqueue =>
    left
    rw [owing_succeed, List.map_tail]
    exact ⟨List.tail_sublist _, fun _ _ => List.Sublist.refl _⟩
  | enqueueRaised f stored error deliveries henqueue =>
    left
    refine ⟨htail, fun _ _ => ?_⟩
    rw [owing, owing, List.map_tail]
  | marked error event htodo =>
    refine Or.inl ⟨?_, fun f hf => by cases hf⟩
    rw [owing_fail]
    exact List.Sublist.refl _
  | markRaised error effect event htodo => exact Or.inl ⟨hrest _, fun f hf => by cases hf⟩
  | acked => exact Or.inl ⟨hrest _, fun f hf => by cases hf⟩
  | ackRaised ids => exact Or.inl ⟨hrest _, fun f hf => by cases hf⟩
  | crash => exact Or.inl ⟨hrest _, fun f hf => hrest _⟩

/-! ## What is stored -/

theorem storedFor_of_eq {s s' : Shared py E q} (h : s'.deliveries = s.deliveries)
    {event : EventId} (hs' : StoredFor s' event) : StoredFor s event := by
  simpa only [StoredFor, h] using hs'

/-- The rows that storing queued records adds are for their event. -/
theorem store_cases {s s' : Shared py E q} {t : Tick py δ} {f : FanOut py δ}
    {rs : List DeliveryRecord} (hf : Queued dumps s t f) (hrs : rs.Sublist f.records)
    (h : q.enqueueMany s.deliveries rs = some s'.deliveries) (id : DeliveryId) :
    q.view s'.deliveries id = q.view s.deliveries id ∨ ∃ r ∈ f.records, r.deliveryId = id ∧
      ∃ c, Keeps r c ∧ q.view s'.deliveries id = some ⟨.pending, 0, none, c⟩ := by
  rcases hf.store hrs h id with ⟨-, hsame⟩ | ⟨r, hr, hid, hrow⟩
  · exact Or.inl hsame
  · exact Or.inr ⟨r, hrs.subset hr, hid, hrow⟩

theorem storedFor_step {s s' : Shared py E q} {t t' : Tick py δ}
    (ht : ∀ f, t.stage = .enqueue f → Queued dumps s t f) (h : Delivers dumps s t s' t')
    {event : EventId} (hs' : StoredFor s' event) :
    StoredFor s event ∨ ∃ f, t.stage = .enqueue f ∧ f.event.eventId = event := by
  cases h with
  | quiet hdeliveries => exact Or.inl (storedFor_of_eq hdeliveries hs')
  | skip f hf hnil hdeliveries => exact Or.inl (storedFor_of_eq hdeliveries hs')
  | fan f hf hhead hfresh hdeliveries => exact Or.inl (storedFor_of_eq hdeliveries hs')
  | store f rs hstage hrs henqueue =>
    obtain ⟨id, j, hj, rfl⟩ := hs'
    rcases store_cases (ht f hstage) hrs henqueue id with hsame | ⟨r, hr, -, c, hc, hrow⟩
    · exact Or.inl ⟨id, j, hsame.symm.trans hj, rfl⟩
    · rw [hrow] at hj
      cases hj
      refine Or.inr ⟨f, hstage, ?_⟩
      rw [hc.eventId, ((ht f hstage).fanned.fields r hr).1]

/-- The records of a fan-out are for distinct subscriptions. -/
theorem nodup_subscriptions {f : FanOut py δ} (hf : Fanned dumps f)
    (hsubs : (f.subs.map (·.id)).Nodup) : (f.records.map (·.subscriptionId)).Nodup := by
  have hmap : f.records.map (·.subscriptionId) = (f.records.map snapshot).map (·.id) := by
    rw [List.map_map]
    rfl
  rw [hmap, hf.snapshots]
  exact hsubs.sublist (List.filter_sublist.map _)

theorem oncePerPair_step {s s' : Shared py E q} {t t' : Tick py δ}
    (hs : OncePerPair q s.deliveries)
    (ht : ∀ f, t.stage = .enqueue f → Queued dumps s t f ∧ (f.subs.map (·.id)).Nodup ∧
      ¬ StoredFor s f.event.eventId)
    (h : Delivers dumps s t s' t') : OncePerPair q s'.deliveries := by
  cases h with
  | quiet hdeliveries => rwa [hdeliveries]
  | skip f hf hnil hdeliveries => rwa [hdeliveries]
  | fan f hf hhead hfresh hdeliveries => rwa [hdeliveries]
  | store f rs hstage hrs henqueue =>
    obtain ⟨hqueued, hsubs, hnone⟩ := ht f hstage
    have hnew : ∀ r ∈ f.records, ∀ c, Keeps r c → c.eventId = f.event.eventId :=
      fun r hr c hc => hc.eventId.trans (hqueued.fanned.fields r hr).1
    intro id id' j j' hj hj' hnil hnil' hsub hevent
    rcases store_cases hqueued hrs henqueue id with hold | ⟨r, hr, hid, c, hc, hrow⟩
    · rcases store_cases hqueued hrs henqueue id' with hold' | ⟨r', hr', -, c', hc', hrow'⟩
      · exact hs id id' j j' (hold.symm.trans hj) (hold'.symm.trans hj') hnil hnil' hsub hevent
      · rw [hrow'] at hj'
        cases hj'
        exact absurd ⟨id, j, hold.symm.trans hj, hevent.trans (hnew r' hr' c' hc')⟩ hnone
    · rw [hrow] at hj
      cases hj
      rcases store_cases hqueued hrs henqueue id' with hold' | ⟨r', hr', hid', c', hc', hrow'⟩
      · exact absurd ⟨id', j', hold'.symm.trans hj', hevent.symm.trans (hnew r hr c hc)⟩ hnone
      · rw [hrow'] at hj'
        cases hj'
        have hsame : r.subscriptionId = r'.subscriptionId :=
          hc.subscriptionId.symm.trans (hsub.trans hc'.subscriptionId)
        have hrr' : r = r' :=
          List.inj_on_of_nodup_map (nodup_subscriptions hqueued.fanned hsubs) hr hr' hsame
        rw [← hid, ← hid', hrr']

/-! ## Steps -/

/-- What the invariant says of the stores. -/
structure Deduped (dumps : δ → Option Bytes) (s : Shared py E q) : Prop where
  accounted : Accounted dumps s
  once : OncePerPair q s.deliveries
  idle : ∀ event, Idle (E.entry s.events event) → ¬ StoredFor s event

/-- What it says of a tick. -/
structure Owes (dumps : δ → Option Bytes) (s : Shared py E q) (t : Tick py δ) : Prop where
  queued : ∀ f, t.stage = .enqueue f → Queued dumps s t f
  distinct : ∀ f, t.stage = .enqueue f → (f.subs.map (·.id)).Nodup
  nodup : (owing t).Nodup
  new : ∀ event ∈ owing t, ¬ Idle (E.entry s.events event) ∧ ¬ StoredFor s event

theorem head_owing {s : Shared py E q} {t : Tick py δ} {f : FanOut py δ}
    (hstage : t.stage = .enqueue f) (hf : Queued dumps s t f) :
    owing t = f.event.eventId :: (owing t).tail := by
  have howing : owing t = t.todo.map (·.eventId) := by rw [owing, hstage]
  rw [howing]
  cases htodo : t.todo with
  | nil =>
    have hhead := hf.head
    rw [htodo] at hhead
    cases hhead
  | cons event todo =>
    have hhead := hf.head
    rw [htodo] at hhead
    cases hhead
    rfl

theorem subs_of_moves {s s' : Shared py E q} {t t' : Tick py δ} {stage : Stage py δ} {r : Reply}
    (h : TickMoves dumps E q s t stage r s' t') {f : FanOut py δ} (hf : t'.stage = .enqueue f)
    (hstage : t.stage = stage) : ∃ uuid error, r = .subscriptions f.subs uuid error := by
  cases h with
  | claimed pick n es last events t'' hclaim ht'' =>
    cases last with
    | true => exact absurd hf (proceed_stage t'' f)
    | false =>
      subst ht''
      cases hstage.symm.trans hf
  | skipped => exact absurd hf (proceed_stage _ f)
  | fanned subs uuid error event records htodo hfan hfresh =>
    cases hf
    exact ⟨uuid, error, rfl⟩
  | enqueued => exact absurd hf (proceed_stage _ f)
  | marked => exact absurd hf (proceed_stage _ f)
  | _ => cases hf

/-- What the condition says of one step. -/
structure CarefulStep (s s' : Shared py E q) (r : Reply) (owed : EventId → Prop) : Prop where
  freed : ∀ event, r = .reclaimed true → (∃ e, E.entry s.events event = some ⟨e, .claimed⟩) →
    Idle (E.entry s'.events event) → ¬ owed event ∧ ¬ StoredFor s event
  distinct : ∀ subs uuid error, r = .subscriptions subs uuid error → (subs.map (·.id)).Nodup

/-- An event that is owed stays claimed or closed. -/
theorem not_idle_step {s s' : Shared py E q} {t t' : Tick py δ} {r : Reply}
    {owed : EventId → Prop} (hc : CarefulStep s s' r owed)
    (h : TickMoves dumps E q s t t.stage r s' t') {event : EventId} (howed : owed event)
    (hidle : ¬ Idle (E.entry s.events event)) : ¬ Idle (E.entry s'.events event) := by
  intro hidle'
  rcases (events_follow h event).idle hidle' with hbefore | ⟨⟨hr, -⟩, hclaimed⟩
  · exact hidle hbefore
  · exact (hc.freed event hr hclaimed hidle').1 howed

/-- The events of a claim were not claimed before. -/
theorem idle_of_claimed {s s' : E.State} {now : Datetime} {ttl n : Nat} {pick : List EventId}
    {es : List (IncomingEvent δ)} {last : Bool}
    (h : E.claimEvents s now ttl n pick = some (es, last, s')) :
    ∀ event ∈ es.map (·.eventId), Idle (E.entry s event) := by
  intro event hevent x hx
  obtain ⟨e, he, rfl⟩ := List.mem_map.mp hevent
  rw [(E.entry_claim _ _ _ _ _ _ _ _ h).2.1 e he] at hx
  cases hx
  rfl

/-- The events of a claim are claimed. -/
theorem not_idle_of_claimed {s s' : E.State} {now : Datetime} {ttl n : Nat} {pick : List EventId}
    {es : List (IncomingEvent δ)} {last : Bool}
    (h : E.claimEvents s now ttl n pick = some (es, last, s')) :
    ∀ event ∈ es.map (·.eventId), ¬ Idle (E.entry s' event) := by
  intro event hevent hidle
  obtain ⟨e, he, rfl⟩ := List.mem_map.mp hevent
  obtain ⟨-, hpending, hentry⟩ := E.entry_claim _ _ _ _ _ _ _ _ h
  have hafter := hentry e.eventId
  rw [if_pos hevent, hpending e he, Option.map_some] at hafter
  cases hidle _ hafter

/-- An event that a step stores records for is the first one its tick owed, and is no
longer owed. -/
theorem storedFor_owing {s s' : Shared py E q} {t t' : Tick py δ} {r : Reply}
    (ht : Owes dumps s t) (h : TickMoves dumps E q s t t.stage r s' t') {event : EventId}
    (hs' : StoredFor s' event) : StoredFor s event ∨ event ∈ owing t ∧ event ∉ owing t' := by
  rcases storedFor_step ht.queued (delivers h) hs' with hold | ⟨f, hstage, rfl⟩
  · exact Or.inl hold
  · have hhead := head_owing hstage (ht.queued f hstage)
    have hmem : f.event.eventId ∈ owing t := by
      rw [hhead]
      exact List.mem_cons_self
    refine Or.inr ⟨hmem, fun howed => ?_⟩
    rcases owing_step h with ⟨-, htail⟩ | ⟨ttl, n, pick, es, last, -, hdeliveries, -⟩
    · have hnodup := ht.nodup
      rw [hhead] at hnodup
      exact (List.nodup_cons.mp hnodup).1 ((htail f hstage).subset howed)
    · exact (ht.new _ hmem).2 (storedFor_of_eq hdeliveries hs')

/-- What a tick owes after its step is claimed, and has no records. -/
theorem owing_new {s s' : Shared py E q} {t t' : Tick py δ} {r : Reply} {owed : EventId → Prop}
    (hc : CarefulStep s s' r owed) (howed : ∀ event ∈ owing t, owed event)
    (hs : Deduped dumps s) (ht : Owes dumps s t) (h : TickMoves dumps E q s t t.stage r s' t') :
    ∀ event ∈ owing t', ¬ Idle (E.entry s'.events event) ∧ ¬ StoredFor s' event := by
  -- an event that was owed before the step
  have hkept : ∀ event ∈ owing t, event ∈ owing t' →
      ¬ Idle (E.entry s'.events event) ∧ ¬ StoredFor s' event := by
    intro event hevent hevent'
    obtain ⟨hidle, hnone⟩ := ht.new event hevent
    refine ⟨not_idle_step hc h (howed event hevent) hidle, fun hs' => ?_⟩
    rcases storedFor_owing ht h hs' with hold | ⟨-, hpaid⟩
    · exact hnone hold
    · exact hpaid hevent'
  intro event hevent
  rcases owing_step h with ⟨hsub, -⟩ | ⟨ttl, n, pick, es, last, hclaim, hdeliveries, howing⟩
  · exact hkept event (hsub.subset hevent) hevent
  · rcases List.mem_append.mp (howing ▸ hevent) with hold | hclaimed
    · exact hkept event hold hevent
    · exact ⟨not_idle_of_claimed hclaim event hclaimed, fun hs' =>
        hs.idle event (idle_of_claimed hclaim event hclaimed) (storedFor_of_eq hdeliveries hs')⟩

/-- No event is idle that has records. -/
theorem idle_step {s s' : Shared py E q} {t t' : Tick py δ} {r : Reply} {owed : EventId → Prop}
    (hc : CarefulStep s s' r owed) (howed : ∀ event ∈ owing t, owed event)
    (hs : Deduped dumps s) (ht : Owes dumps s t) (h : TickMoves dumps E q s t t.stage r s' t') :
    ∀ event, Idle (E.entry s'.events event) → ¬ StoredFor s' event := by
  intro event hidle hs'
  rcases (events_follow h event).idle hidle with hbefore | ⟨⟨hr, -⟩, hclaimed⟩
  · rcases storedFor_owing ht h hs' with hold | ⟨hmem, -⟩
    · exact hs.idle event hbefore hold
    · exact (ht.new event hmem).1 hbefore
  · obtain ⟨hfree, hnone⟩ := hc.freed event hr hclaimed hidle
    rcases storedFor_owing ht h hs' with hold | ⟨hmem, -⟩
    · exact hnone hold
    · exact hfree (howed event hmem)

/-- What a tick owes after its step, and what another one owes. -/
theorem owing_disjoint {s s' : Shared py E q} {t t' u : Tick py δ} {r : Reply}
    (hu : Owes dumps s u) (h : TickMoves dumps E q s t t.stage r s' t')
    (hdisjoint : (owing t).Disjoint (owing u)) : (owing t').Disjoint (owing u) := by
  rcases owing_step h with ⟨hsub, -⟩ | ⟨ttl, n, pick, es, last, hclaim, -, howing⟩
  · exact fun event hevent => hdisjoint (hsub.subset hevent)
  · intro event hevent hother
    rcases List.mem_append.mp (howing ▸ hevent) with hold | hclaimed
    · exact hdisjoint hold hother
    · exact (hu.new event hother).1 (idle_of_claimed hclaim event hclaimed)

/-- **Step lemma.** -/
theorem dedup_step {s s' : Shared py E q} {t t' : Tick py δ} {r : Reply} {owed : EventId → Prop}
    (hc : CarefulStep s s' r owed) (howed : ∀ event ∈ owing t, owed event)
    (hs : Deduped dumps s) (ht : Owes dumps s t) (h : TickMoves dumps E q s t t.stage r s' t') :
    Deduped dumps s' ∧ Owes dumps s' t' ∧ ∀ u, (∀ event ∈ owing u, owed event) → Owes dumps s u →
      Apart t u ∧ (owing t).Disjoint (owing u) →
      Owes dumps s' u ∧ Apart t' u ∧ (owing t').Disjoint (owing u) := by
  obtain ⟨haccounted, hqueued, hothers⟩ := minted_step hs.accounted ht.queued (delivers h)
  refine ⟨⟨haccounted, ?_, idle_step hc howed hs ht h⟩,
    ⟨hqueued, ?_, ?_, owing_new hc howed hs ht h⟩, fun u hu htu hapart => ?_⟩
  · refine oncePerPair_step hs.once (fun f hstage => ?_) (delivers h)
    refine ⟨ht.queued f hstage, ht.distinct f hstage, (ht.new _ ?_).2⟩
    rw [head_owing hstage (ht.queued f hstage)]
    exact List.mem_cons_self
  · intro f hf
    obtain ⟨uuid, error, hr⟩ := subs_of_moves h hf rfl
    exact hc.distinct f.subs uuid error hr
  · rcases owing_step h with ⟨hsub, -⟩ | ⟨ttl, n, pick, es, last, hclaim, -, howing⟩
    · exact ht.nodup.sublist hsub
    · rw [howing]
      refine List.Nodup.append ht.nodup (E.entry_claim _ _ _ _ _ _ _ _ hclaim).1 ?_
      intro event hold hclaimed
      exact (ht.new event hold).1 (idle_of_claimed hclaim event hclaimed)
  · obtain ⟨hqueued', hapart'⟩ := hothers u htu.queued hapart.1
    refine ⟨⟨hqueued', htu.distinct, htu.nodup, fun event hevent => ?_⟩, hapart',
      owing_disjoint htu h hapart.2⟩
    obtain ⟨hidle, hnone⟩ := htu.new event hevent
    refine ⟨not_idle_step hc h (hu event hevent) hidle, fun hs' => ?_⟩
    rcases storedFor_owing ht h hs' with hold | ⟨hmem, -⟩
    · exact hnone hold
    · exact hapart.2 hmem hevent

/-! ## Runs -/

theorem carefulStep_of_careful {w : World py E q ι} {i : ι} {r : Reply} {t t' : Tick py δ}
    {s' : Shared py E q} (hc : Careful w (.reply i r)) (ht : w.ticks i = some t)
    (h : TickMoves dumps E q w.shared t t.stage r s' t') :
    CarefulStep w.shared s' r fun event => ∃ j u, w.ticks j = some u ∧ event ∈ owing u := by
  refine ⟨fun event hr hclaimed hidle => ?_, fun subs uuid error hr => ?_⟩
  · subst hr
    obtain ⟨e, hentry⟩ := hclaimed
    have hevents : s'.events = (E.reclaimStale w.shared.events t.now).2 := by
      generalize hstage : t.stage = stage at h
      cases h with
      | reclaimed effect => rfl
      | fanRaised r error hr =>
        rcases hr with hr | ⟨subs, uuid, hr⟩
        · cases hr
        · cases hr
    rw [hevents] at hidle
    obtain ⟨hnone, hstored⟩ := hc t ht event _ hentry rfl hidle
    exact ⟨fun ⟨j, u, hu, hmem⟩ => hnone j u hu hmem, hstored⟩
  · subst hr
    exact hc

variable [DecidableEq ι]

/-- **One delivery for each pair.** In every run of any number of ticks, over any event
store and any delivery store, in which every step is careful. -/
theorem deliveries_once {as : List (Label py δ ι)} {w : World py E q ι}
    (h : Run.run (step dumps E q) (init E q) as = some w)
    (hcareful : Run.Along (step dumps E q) Careful (init E q) as) :
    OncePerPair q w.shared.deliveries := by
  have hempty : ∀ (s : Shared py E q), s.deliveries = q.empty →
      ∀ id, q.view s.deliveries id = none := fun s hs id => by rw [hs, q.view_empty]
  have hinit : Deduped dumps (⟨E.empty, q.empty, [], []⟩ : Shared py E q) := by
    refine ⟨accounted_init, ?_, ?_⟩
    · intro id id' j j' hj
      rw [hempty _ rfl] at hj
      cases hj
    · rintro event - ⟨id, j, hj, -⟩
      rw [hempty _ rfl] at hj
      cases hj
  have hholds := holds_run (S := Deduped dumps) (T := Owes dumps)
    (R := fun t u => Apart t u ∧ (owing t).Disjoint (owing u)) (P := Careful)
    (fun t u hapart => ⟨apart_symm hapart.1, fun _ hu ht => hapart.2 ht hu⟩) hinit
    (fun s now event events hs happend => ?_) (fun s ingestor now hs => ?_)
    (fun w i r t t' s hc ht hs hT hmoves => ?_) hcareful h
  · exact hholds.shared.once
  · have hidle : ∀ id, Idle (E.entry events id) → Idle (E.entry s.events id) := fun id hidle => by
      rcases (E.follows_append happend id).idle hidle with hbefore | hfreed
      · exact hbefore
      · exact hfreed.1.elim
    refine ⟨⟨hs.accounted.append events, hs.once, fun id hid => hs.idle id (hidle id hid)⟩,
      fun t ht => ⟨fun f hf => (ht.queued f hf).append events, ht.distinct, ht.nodup,
        fun id hid => ⟨fun hnew => (ht.new id hid).1 (hidle id hnew), (ht.new id hid).2⟩⟩⟩
  · refine ⟨⟨fun f hf => (by cases hf), fun f hf => (by cases hf), List.nodup_nil,
      fun id hid => (by cases hid)⟩, fun u => ⟨fun f g hf => (by cases hf), ?_⟩⟩
    intro id hid
    cases hid
  · obtain ⟨hs', ht', hothers⟩ := dedup_step (carefulStep_of_careful hc ht hmoves)
      (fun event hevent => ⟨i, t, ht, hevent⟩) hs hT hmoves
    exact ⟨hs', ht', fun j u _ hu hTu hapart =>
      hothers u (fun event hevent => ⟨j, u, hu, hevent⟩) hTu hapart⟩

def exampleSubscription : SubscriptionSnapshot :=
  ⟨"sub_1", "tenant_a", "https://example.com/hook", "8.8.8.8"⟩

abbrev ExampleWorld := World Dispatcher.examplePython (Memory.memoryEvents Unit)
  Stores.Memory.memoryQueue.toLeaseQueue Nat

def exampleStep : ExampleWorld → Label Dispatcher.examplePython Unit Nat → Option ExampleWorld :=
  step exampleDumps _ _

def exampleInit : ExampleWorld := init _ _

/-- The condition, at the rows of the in-memory stores. -/
def carefulMemory {ι : Type} [Fintype ι]
    (w : World py (Memory.memoryEvents δ) Stores.Memory.memoryQueue.toLeaseQueue ι) :
    Label py δ ι → Bool
  | .reply i (.reclaimed true) => (w.ticks i).all fun t =>
    w.shared.events.rows.all fun row => !row.stale t.now ||
      decide (∀ j, (w.ticks j).all (fun u => row.eventId ∉ owing u) = true) &&
        w.shared.deliveries.records.rows.all fun r => r.eventId ≠ row.eventId
  | .reply _ (.subscriptions subs _ _) => decide (subs.map (·.id)).Nodup
  | _ => true

theorem careful_of_memory {ι : Type} [Fintype ι]
    {w : World py (Memory.memoryEvents δ) Stores.Memory.memoryQueue.toLeaseQueue ι}
    {l : Label py δ ι} (h : carefulMemory w l = true) : Careful w l := by
  unfold Careful
  split
  · next i =>
    intro t ht event x hx hclaimed hidle
    obtain ⟨row, hrow, rfl⟩ := Option.map_eq_some_iff.mp hx
    obtain ⟨hmem, rfl⟩ := Table.find?_eq_some.mp hrow
    simp only [carefulMemory, ht, Option.all_some, List.all_eq_true, Bool.or_eq_true,
      Bool.not_eq_true', Bool.and_eq_true, decide_eq_true_eq] at h
    rcases h row hmem with hlive | ⟨howing, hstored⟩
    · have hpending : row.status = .pending := hidle _ (Memory.entry_reclaim_live hrow hlive)
      have hrowClaimed : row.status = .claimed := hclaimed
      rw [hpending] at hrowClaimed
      cases hrowClaimed
    · refine ⟨fun j u hu => ?_, ?_⟩
      · have hnone := howing j
        rw [hu, Option.all_some] at hnone
        exact of_decide_eq_true hnone
      · rintro ⟨id, j, hj, he⟩
        obtain ⟨r, hr, rfl⟩ := Option.map_eq_some_iff.mp hj
        exact hstored r (Table.find?_eq_some.mp hr).1 he
  · next subs uuid error => exact of_decide_eq_true h
  · trivial

/-- A tick crashes before its `enqueue_many`. The next one starts when the lease has run out, and
returns the event to PENDING; the third one has an event of its own. -/
def crashedAndRepeated : List (Label Dispatcher.examplePython Unit (Fin 3)) :=
  [.append 0 exampleEvent, .begin 0 exampleIngestor 0, .reply 0 (.reclaimed true),
    .reply 0 (.claimed []), .reply 0 (.subscriptions [exampleSubscription] (fun _ => "d_0") ""),
    .reply 0 .crash,
    .begin 1 exampleIngestor 31, .reply 1 (.reclaimed true), .reply 1 (.claimed []),
    .append 40 { exampleEvent with eventId := "evt_2" },
    .reply 1 (.subscriptions [exampleSubscription] (fun _ => "d_1") ""),
    .begin 2 exampleIngestor 41, .reply 2 (.reclaimed true), .reply 2 (.claimed []),
    .reply 1 .enqueued, .reply 2 (.subscriptions [exampleSubscription] (fun _ => "d_2") ""),
    .reply 1 .acked, .reply 2 .enqueued, .reply 2 .acked]

theorem deliveries_once_crashed_tick : ∃ w, Run.run (step exampleDumps (Memory.memoryEvents Unit)
      Stores.Memory.memoryQueue.toLeaseQueue) (init _ _) crashedAndRepeated = some w ∧
    w.shared.deliveries.records.rows.map (fun r => (r.eventId, r.deliveryId)) =
      [("evt_1", "d_1"), ("evt_2", "d_2")] ∧
    OncePerPair Stores.Memory.memoryQueue.toLeaseQueue w.shared.deliveries := by
  obtain ⟨w, hw, hstored⟩ := (Option.any_eq_true ..).mp (by decide +kernel :
    (Run.run (step exampleDumps (Memory.memoryEvents Unit) Stores.Memory.memoryQueue.toLeaseQueue)
      (init _ _) crashedAndRepeated).any (fun w => decide
        (w.shared.deliveries.records.rows.map (fun r => (r.eventId, r.deliveryId)) =
          [("evt_1", "d_1"), ("evt_2", "d_2")])) = true)
  exact ⟨w, hw, of_decide_eq_true hstored, deliveries_once hw
    (Run.along_imp (fun _ _ h => careful_of_memory h) (by decide +kernel))⟩

/-! ## A crash before the acknowledgement -/

/-- A tick up to the end of `enqueue_many`. -/
def fanOutAt (i : Nat) (now : Datetime) (id : DeliveryId) :
    List (Label Dispatcher.examplePython Unit Nat) :=
  [.begin i exampleIngestor now, .reply i (.reclaimed true), .reply i (.claimed []),
    .reply i (.subscriptions [exampleSubscription] (fun _ => id) ""), .reply i .enqueued]

/-- The first tick crashes before its `ack`; the lease runs out. -/
def crashedTick : List (Label Dispatcher.examplePython Unit Nat) :=
  .append 0 exampleEvent :: (fanOutAt 0 0 "d_1" ++ .reply 0 .crash :: fanOutAt 1 31 "d_2")

theorem reclaim_duplicates : ∃ w, Run.run exampleStep exampleInit crashedTick = some w ∧
    ¬ OncePerPair Stores.Memory.memoryQueue.toLeaseQueue w.shared.deliveries := by
  obtain ⟨w, hw, hrows⟩ := (Option.any_eq_true ..).mp (by decide +kernel :
    (Run.run exampleStep exampleInit crashedTick).any (fun w =>
      ["d_1", "d_2"].all fun id =>
        (Stores.Memory.memoryQueue.view w.shared.deliveries id).any fun j =>
          j.core.redeliveryOf = none && j.core.subscriptionId = "sub_1" &&
            j.core.eventId = "evt_1") = true)
  simp only [List.all_cons, List.all_nil, Bool.and_true, Bool.and_eq_true,
    Option.any_eq_true, decide_eq_true_eq] at hrows
  obtain ⟨⟨j, hj, ⟨hnil, hsub⟩, hevent⟩, j', hj', ⟨hnil', hsub'⟩, hevent'⟩ := hrows
  refine ⟨w, hw, fun honce => ?_⟩
  have hsame := honce "d_1" "d_2" j j' hj hj' hnil hnil' (hsub.trans hsub'.symm)
    (hevent.trans hevent'.symm)
  revert hsame
  decide

end WebhookEngine.Ingest.Dedup
