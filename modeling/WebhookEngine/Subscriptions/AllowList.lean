import WebhookEngine.Stores.Urls
import WebhookEngine.Subscriptions.Pausing
import WebhookEngine.UrlPolicy

/-!
# The URL policy and the service

Nothing in the service calls `validate`: `_fan_out`, `ping`, `redeliver` and `send` call
`check_ip`, which looks at addresses. A URL that a send posts to comes from a subscription by
way of the delivery store, which makes none of its own.

* `going_step`: a property of all URLs on their way, step by step;
* `posts_allowed`: the runs in which every post goes to an allowed URL;
* `posts_allowed_of_created`: such are the runs in which every subscription was created with
  an allowed URL.
-/

namespace WebhookEngine.Subscriptions.AllowList

open Lib Run Dispatcher Ingest.Events Ingest.Ingestor Stores Stores.Queue Engine SsrfGuard Pausing

variable {py : Python} {δ : Type} {E : EventQueue δ} {q : LeaseQueue} {ι κ : Type}

/-- Every URL that is stored, queued, claimed or posted to has `P`. -/
structure Going (P : String → Prop) (w : Pausing.World py E q ι κ) : Prop where
  store : ∀ u ∈ urls q.toDeliveryStore w.ingest.shared.deliveries, P u
  queued : ∀ k t f, w.ingest.ticks k = some t → t.stage = .enqueue f →
    ∀ r ∈ f.records, P r.targetUrl
  tasks : ∀ i, ∀ t ∈ (w.ticks i).inflight.rows, P t.record.targetUrl
  posts : ∀ p ∈ w.posts, P p.record.targetUrl

/-- No delivery is made for a subscription whose target passes `check_ip` but whose URL has
not `P`. -/
def Vetted (P : String → Prop) (svc : Service py δ) (w : Pausing.World py E q ι κ) :
    Pausing.Label py δ ι κ → Prop
  | .ingest (.reply i (.subscriptions subs _ _)) => ∀ t ∈ w.ingest.ticks i, ∀ sub ∈ subs,
    Ingest.Ingestor.passes t.ingestor.ssrf sub = true → P sub.url
  | .ping id _ _ _ => ∀ row ∈ w.subs.find? id,
    Ingest.Ingestor.passes svc.ssrf row.snapshot = true → P row.url
  | _ => True

instance (P : String → Prop) [DecidablePred P] (svc : Service py δ)
    (w : Pausing.World py E q ι κ) (l : Pausing.Label py δ ι κ) : Decidable (Vetted P svc w l) := by
  unfold Vetted
  split <;> infer_instance

variable {P : String → Prop}

theorem going_init (hq : KeepsUrls q.toDeliveryStore) :
    Going P (Pausing.init : Pausing.World py E q ι κ) where
  store u hu := by
    have hempty : u ∈ urls q.toDeliveryStore q.empty := hu
    rw [hq.empty] at hempty
    cases hempty
  queued k t f ht := by cases ht
  tasks i t ht := by cases ht
  posts p hp := by cases hp

/-- More URLs in the store. -/
theorem enqueue_urls (hq : KeepsUrls q.toDeliveryStore) {s s' : q.State} {rs : List DeliveryRecord}
    (h : q.enqueueMany s rs = some s') (hs : ∀ u ∈ urls q.toDeliveryStore s, P u)
    (hrs : ∀ r ∈ rs, P r.targetUrl) : ∀ u ∈ urls q.toDeliveryStore s', P u := by
  intro u hu
  rcases hq.enqueue s rs s' h hu with hold | ⟨r, hr, rfl⟩
  · exact hs u hold
  · exact hrs r hr

/-! ## Engines -/

theorem going_tick (hq : KeepsUrls q.toDeliveryStore) {cfg : WebhookDispatchConfig}
    {d : WebhookDispatcher py} {s s' : q.State} {now : Datetime} {tk tk' : Engine.Tick}
    {a : Action} {l : Log} (h : Engine.Tick.Moves q cfg d s now tk a s' tk' l)
    (hs : ∀ u ∈ urls q.toDeliveryStore s, P u)
    (htasks : ∀ t ∈ tk.inflight.rows, P t.record.targetUrl) :
    (∀ u ∈ urls q.toDeliveryStore s', P u) ∧ (∀ t ∈ tk'.inflight.rows, P t.record.targetUrl) ∧
      ∀ r ∈ l.posted, P r.targetUrl := by
  have hnone : ∀ t ∈ (Table.empty : Table Task.id).rows, P t.record.targetUrl :=
    List.forall_mem_nil _
  have hquiet : ∀ r ∈ ([] : List DeliveryRecord), P r.targetUrl := List.forall_mem_nil _
  cases h with
  | reclaim => exact ⟨fun u hu => hs u (hq.reclaim s now hu), hnone, hquiet⟩
  | reclaimRaised => exact ⟨hs, hnone, hquiet⟩
  | claim pick rs s' hclaim =>
    obtain ⟨hrs, hsub⟩ := hq.claim _ _ _ _ _ _ _ hclaim
    refine ⟨fun u hu => hs u (hsub hu), fun t ht => ?_, hquiet⟩
    have hfound := Table.find?_of_mem ht
    rw [Engine.Tick.inflight, find?_waitingTasks] at hfound
    obtain ⟨r, hr, rfl⟩ := Option.map_eq_some_iff.mp hfound
    exact hs _ (hrs ⟨r, List.mem_of_find?_eq_some hr, rfl⟩)
  | claimRaised pick => exact ⟨hs, hnone, hquiet⟩
  | task tasks id a t call phase s' ht hstep hcall =>
    have hrecord : P t.record.targetUrl := htasks t (Table.find?_eq_some.mp ht).1
    refine ⟨?_, fun u hu => ?_, fun r hr => ?_⟩
    · cases call with
      | none =>
        cases hcall
        exact hs
      | some call => exact fun u hu => hs u (hq.complete _ _ _ _ _ hcall hu)
    · have hfound := Table.find?_of_mem hu
      rw [Engine.Tick.inflight, find?_setTask ht] at hfound
      split at hfound
      · obtain ⟨phase', -, rfl⟩ := Option.map_eq_some_iff.mp hfound
        exact hrecord
      · exact htasks u (Table.find?_eq_some.mp hfound).1
    · cases a with
      | post =>
        obtain rfl := List.mem_singleton.mp hr
        exact hrecord
      | _ => cases hr
  | finish tasks hempty => exact ⟨hs, hnone, hquiet⟩

/-! ## Ingest ticks -/

/-- What a tick is about to enqueue was made of the subscriptions it was just given. -/
theorem queued_of_reply {dumps : δ → Option Bytes} {s s' : Shared py E q}
    {t t' : Ingest.Ingestor.Tick py δ} {r : Reply} {f : FanOut py δ}
    (h : TickMoves dumps E q s t t.stage r s' t') (hf : t'.stage = .enqueue f) :
    (∃ uuid error, r = .subscriptions f.subs uuid error) ∧ f.ingestor = t.ingestor ∧
      Fanned dumps f := by
  generalize hstage : t.stage = stage at h
  cases h with
  | fanned subs uuid error event records htodo hfan hfresh =>
    cases hf
    exact ⟨⟨uuid, error, rfl⟩, rfl, fanOut_spec hfan⟩
  | claimed pick n es last events t'' hclaim ht'' =>
    cases last with
    | true => exact absurd hf (proceed_stage t'' f)
    | false =>
      subst ht''
      cases hstage.symm.trans hf
  | skipped | enqueued | marked => exact absurd hf (proceed_stage _ f)
  | _ => cases hf

/-- A record goes to the URL of its subscription. -/
theorem url_of_fanned {dumps : δ → Option Bytes} {f : FanOut py δ} (hf : Fanned dumps f)
    {r : DeliveryRecord} (hr : r ∈ f.records) : ∃ sub ∈ f.subs,
      Ingest.Ingestor.passes f.ingestor.ssrf sub = true ∧ sub.url = r.targetUrl := by
  have hmem : snapshot r ∈ f.records.map snapshot := List.mem_map_of_mem hr
  rw [hf.snapshots] at hmem
  obtain ⟨hsub, hpass⟩ := List.mem_filter.mp hmem
  exact ⟨snapshot r, hsub, hpass, rfl⟩

theorem going_reply (hq : KeepsUrls q.toDeliveryStore) {dumps : δ → Option Bytes}
    {s s' : Shared py E q} {t t' : Ingest.Ingestor.Tick py δ} {r : Reply}
    (h : TickMoves dumps E q s t t.stage r s' t')
    (hs : ∀ u ∈ urls q.toDeliveryStore s.deliveries, P u)
    (hqueued : ∀ f, t.stage = .enqueue f → ∀ r ∈ f.records, P r.targetUrl)
    (hvetted : ∀ subs uuid error, r = .subscriptions subs uuid error → ∀ sub ∈ subs,
      Ingest.Ingestor.passes t.ingestor.ssrf sub = true → P sub.url) :
    (∀ u ∈ urls q.toDeliveryStore s'.deliveries, P u) ∧
      ∀ f, t'.stage = .enqueue f → ∀ r ∈ f.records, P r.targetUrl := by
  constructor
  · cases delivers h with
    | store f rs ht hrs henqueue =>
      exact enqueue_urls hq henqueue hs fun r hr => hqueued f ht r (hrs.subset hr)
    | quiet hdeliveries => exact hdeliveries ▸ hs
    | skip f hf hnil hdeliveries => exact hdeliveries ▸ hs
    | fan f hf hhead hfresh hdeliveries => exact hdeliveries ▸ hs
  · intro f hf x hx
    obtain ⟨⟨uuid, error, hr⟩, hingestor, hfanned⟩ := queued_of_reply h hf
    obtain ⟨sub, hsub, hpass, hurl⟩ := url_of_fanned hfanned hx
    rw [hingestor] at hpass
    exact hurl ▸ hvetted f.subs uuid error hr sub hsub hpass

variable [DecidableEq ι] [DecidableEq κ]

omit [DecidableEq ι] in
theorem going_ingest (hq : KeepsUrls q.toDeliveryStore) {svc : Service py δ}
    {w : Pausing.World py E q ι κ} {l : Ingest.Ingestor.Label py δ κ}
    {ingest : Ingest.Ingestor.World py E q κ} (hw : Going P w)
    (hl : Vetted P svc w (.ingest l))
    (h : Ingest.Ingestor.step svc.dumps E q w.ingest l = some ingest) :
    Going P { w with ingest := ingest } := by
  cases moves h with
  | append now event events happend => exact ⟨hw.store, hw.queued, hw.tasks, hw.posts⟩
  | begin i ingestor now hnone =>
    refine ⟨hw.store, fun k t f ht hf => ?_, hw.tasks, hw.posts⟩
    rcases update_some ht with ⟨rfl, rfl⟩ | ⟨-, hold⟩
    · cases hf
    · exact hw.queued k t f hold hf
  | reply i r t t' s ht hmoves =>
    obtain ⟨hs, hqueued⟩ := going_reply hq hmoves hw.store (fun f hf => hw.queued i t f ht hf)
      (by rintro subs uuid error rfl; exact hl t ht)
    refine ⟨hs, fun k u f hu hf => ?_, hw.tasks, hw.posts⟩
    rcases update_some hu with ⟨rfl, rfl⟩ | ⟨-, hold⟩
    · exact hqueued f hf
    · exact hw.queued k u f hold hf

/-! ## Every step -/

omit [DecidableEq ι] [DecidableEq κ] in
theorem going_enqueueOne (hq : KeepsUrls q.toDeliveryStore) {w w' : Pausing.World py E q ι κ}
    (hw : Going P w) {r : DeliveryRecord} (hr : P r.targetUrl) (h : enqueueOne w r = some w') :
    Going P w' := by
  obtain ⟨-, h⟩ := Option.ite_none_left_eq_some.mp h
  obtain ⟨deliveries, hdeliveries, rfl⟩ := Option.map_eq_some_iff.mp h
  refine ⟨enqueue_urls hq hdeliveries hw.store ?_, hw.queued, hw.tasks, hw.posts⟩
  intro x hx
  obtain rfl := List.mem_singleton.mp hx
  exact hr

theorem going_step (hq : KeepsUrls q.toDeliveryStore) {svc : Service py δ}
    {w w' : Pausing.World py E q ι κ} {l : Pausing.Label py δ ι κ} (hw : Going P w)
    (hl : Vetted P svc w l) (h : Pausing.step svc w l = some w') : Going P w' := by
  cases l with
  | create c =>
    obtain ⟨subs, -, rfl⟩ := Option.map_eq_some_iff.mp h
    exact ⟨hw.store, hw.queued, hw.tasks, hw.posts⟩
  | pause id =>
    obtain ⟨x, -, rfl⟩ := Option.map_eq_some_iff.mp h
    exact ⟨hw.store, hw.queued, hw.tasks, hw.posts⟩
  | resume id =>
    obtain ⟨x, -, rfl⟩ := Option.map_eq_some_iff.mp h
    exact ⟨hw.store, hw.queued, hw.tasks, hw.posts⟩
  | ingest l =>
    obtain ⟨-, h⟩ := Option.ite_none_right_eq_some.mp h
    obtain ⟨ingest, hstep, rfl⟩ := Option.map_eq_some_iff.mp h
    exact going_ingest hq hw hl hstep
  | engine i now a =>
    obtain ⟨⟨deliveries, tk, log⟩, htick, rfl⟩ := Option.map_eq_some_iff.mp h
    obtain ⟨hs, htasks, hposted⟩ := going_tick hq (tick_moves htick) hw.store (hw.tasks i)
    refine ⟨hs, hw.queued, fun j => ?_, fun p hp => ?_⟩
    · simp only [afterTick, Function.update_apply]
      split
      · exact htasks
      · exact hw.tasks j
    · rcases List.mem_append.mp hp with hp | hp
      · exact hw.posts p hp
      · obtain ⟨r, hr, rfl⟩ := List.mem_map.mp hp
        exact hposted r hr
  | ping id now uuid eventId =>
    obtain ⟨r, hr, h⟩ := Option.bind_eq_some_iff.mp h
    obtain ⟨row, hrow, hr⟩ := Option.bind_eq_some_iff.mp hr
    obtain ⟨hpass, hr⟩ := Option.ite_none_right_eq_some.mp hr
    cases hr
    exact going_enqueueOne hq hw (hl row hrow (decide_eq_true hpass)) h
  | redeliver id now uuid =>
    obtain ⟨r, hr, h⟩ := Option.bind_eq_some_iff.mp h
    obtain ⟨original, horiginal, hr⟩ := Option.bind_eq_some_iff.mp hr
    obtain ⟨-, hr⟩ := Option.ite_none_right_eq_some.mp hr
    cases hr
    have hurl : P (cloneRecord original now uuid).targetUrl :=
      hw.store _ ⟨id, original, horiginal, rfl⟩
    exact going_enqueueOne hq hw hurl h

/-- **Every post goes to an allowed URL**, in the runs that make deliveries for subscriptions
with allowed URLs only. -/
theorem posts_allowed (b : Shipped) (svc : Service py δ) (labels : List (Pausing.Label py δ ι κ))
    (w : Pausing.World py E b.queue ι κ)
    (hrun : run (Pausing.step svc) Pausing.init labels = some w)
    (hvetted : Along (Pausing.step svc) (Vetted (Allowed svc.ssrf) svc)
      (Pausing.init : Pausing.World py E b.queue ι κ) labels) :
    ∀ p ∈ w.posts, Allowed svc.ssrf p.record.targetUrl := by
  have hstep : ∀ (u : Pausing.World py E b.queue ι κ) l v, Going (Allowed svc.ssrf) u →
      Vetted (Allowed svc.ssrf) svc u l → Pausing.step svc u l = some v →
      Going (Allowed svc.ssrf) v :=
    fun u l v hu hl huv => going_step b.keepsUrls hu hl huv
  exact (run_preserves hstep hvetted (going_init b.keepsUrls) hrun).posts

/-! ## Subscriptions with allowed URLs -/

omit [DecidableEq ι] [DecidableEq κ] in
theorem tabled_setStatus {subs : Pg.PgTable} (htable : ∀ row ∈ subs.rows, P row.url)
    {id : SubscriptionId} {status : SubscriptionStatus} {x : Pg.PgTable × Bool}
    (h : Pg.setStatus subs id status = some x) : ∀ row ∈ x.1.rows, P row.url := by
  intro row hrow
  rw [Pg.eq_of_setStatus h] at hrow
  obtain ⟨old, hold, rfl⟩ := List.mem_map.mp hrow
  have hurl := htable old hold
  split
  · exact hurl
  · exact hurl

/-- The rows of the table keep the URLs they were created with. -/
theorem tabled_step {svc : Service py δ} {w w' : Pausing.World py E q ι κ}
    {l : Pausing.Label py δ ι κ} (htable : ∀ row ∈ w.subs.rows, P row.url)
    (hcreated : ∀ c, l = .create c → P c.url) (h : Pausing.step svc w l = some w') :
    ∀ row ∈ w'.subs.rows, P row.url := by
  cases l with
  | create c =>
    obtain ⟨subs, hcreate, rfl⟩ := Option.map_eq_some_iff.mp h
    obtain ⟨-, hsubs⟩ := Option.ite_none_left_eq_some.mp hcreate
    cases hsubs
    intro row hrow
    rcases Table.mem_insert hrow with hold | rfl
    · exact htable row hold
    · exact hcreated c rfl
  | pause id =>
    obtain ⟨x, hpause, rfl⟩ := Option.map_eq_some_iff.mp h
    exact tabled_setStatus htable hpause
  | resume id =>
    obtain ⟨x, hresume, rfl⟩ := Option.map_eq_some_iff.mp h
    exact tabled_setStatus htable hresume
  | ingest l =>
    obtain ⟨-, h⟩ := Option.ite_none_right_eq_some.mp h
    obtain ⟨ingest, -, rfl⟩ := Option.map_eq_some_iff.mp h
    exact htable
  | engine i now a =>
    obtain ⟨⟨deliveries, tk, log⟩, -, rfl⟩ := Option.map_eq_some_iff.mp h
    exact htable
  | ping id now uuid eventId =>
    obtain ⟨r, -, h⟩ := Option.bind_eq_some_iff.mp h
    obtain ⟨-, h⟩ := Option.ite_none_left_eq_some.mp h
    obtain ⟨deliveries, -, rfl⟩ := Option.map_eq_some_iff.mp h
    exact htable
  | redeliver id now uuid =>
    obtain ⟨r, -, h⟩ := Option.bind_eq_some_iff.mp h
    obtain ⟨-, h⟩ := Option.ite_none_left_eq_some.mp h
    obtain ⟨deliveries, -, rfl⟩ := Option.map_eq_some_iff.mp h
    exact htable

/-- Deliveries are made for rows of the table. -/
theorem vetted_of_tabled {svc : Service py δ} {w w' : Pausing.World py E q ι κ}
    {l : Pausing.Label py δ ι κ} (htable : ∀ row ∈ w.subs.rows, P row.url)
    (h : Pausing.step svc w l = some w') : Vetted P svc w l := by
  unfold Vetted
  split
  next i subs uuid error =>
    intro t ht sub hsub _
    obtain ⟨hanswered, -⟩ := Option.ite_none_right_eq_some.mp h
    have hbind : (w.ingest.ticks i).bind (fun t => t.todo.head?) = t.todo.head? := by
      rw [Option.mem_def.mp ht, Option.bind_some]
    rw [answered, hbind] at hanswered
    cases htodo : t.todo.head? with
    | none =>
      rw [htodo] at hanswered
      cases hanswered
    | some event =>
      rw [htodo] at hanswered
      have hperm := of_decide_eq_true hanswered
      obtain ⟨row, hrow, rfl⟩ := List.mem_map.mp (hperm.mem_iff.mp hsub)
      exact htable row (List.mem_of_mem_filter hrow)
  · intro row hrow _
    exact htable row (Table.find?_eq_some.mp hrow).1
  · trivial

/-- **Every post goes to an allowed URL** if every subscription was created with one. -/
theorem posts_allowed_of_created (b : Shipped) (svc : Service py δ)
    (labels : List (Pausing.Label py δ ι κ)) (w : Pausing.World py E b.queue ι κ)
    (hrun : run (Pausing.step svc) Pausing.init labels = some w)
    (hcreated : ∀ c, .create c ∈ labels → Allowed svc.ssrf c.url) :
    ∀ p ∈ w.posts, Allowed svc.ssrf p.record.targetUrl := by
  have hstep : ∀ (u : Pausing.World py E b.queue ι κ) l v,
      (Going (Allowed svc.ssrf) u ∧ ∀ row ∈ u.subs.rows, Allowed svc.ssrf row.url) →
      (∀ c, l = .create c → Allowed svc.ssrf c.url) → Pausing.step svc u l = some v →
      Going (Allowed svc.ssrf) v ∧ ∀ row ∈ v.subs.rows, Allowed svc.ssrf row.url := by
    rintro u l v ⟨hu, htable⟩ hl huv
    exact ⟨going_step b.keepsUrls hu (vetted_of_tabled htable huv) huv,
      tabled_step htable hl huv⟩
  have halong : Along (Pausing.step svc) (fun _ l => ∀ c, l = .create c → Allowed svc.ssrf c.url)
      (Pausing.init : Pausing.World py E b.queue ι κ) labels := by
    refine along_of_forall ?_ _
    rintro u l hl c rfl
    exact hcreated c hl
  exact (run_preserves hstep halong ⟨going_init b.keepsUrls, List.forall_mem_nil _⟩ hrun).1.posts

/-! ## Runs of the service -/

/-- The service, delivering to the allowed hosts only. -/
def exampleServiceFor (allowed : List String) : Service examplePython Unit :=
  { exampleService with
    ssrf :=
      { security := { allowedHosts := some allowed }
        blocked := exampleValidator.blocked
        built := exampleValidator.built } }

abbrev ExampleWorld := Pausing.World examplePython (Ingest.Memory.memoryEvents Unit)
  Shipped.postgres.queue (Fin 1) Nat

/-- A ping of one subscription, delivered. -/
def deliveredPing (url : String) : List (Pausing.Label examplePython Unit (Fin 1) Nat) :=
  [.create { exampleCreation "sub_1" "owner-a" with url := url }, .ping "sub_1" 1 "d_1" "evt_1"] ++
    deliver 2 "d_1"

def hooksCreation : Creation :=
  { exampleCreation "sub_1" "owner-a" with url := "https://hooks.example.com/in" }

/-- An event is fanned out and delivered; then its delivery is replayed. -/
def deliveredAndReplayed : List (Pausing.Label examplePython Unit (Fin 1) Nat) :=
  [.create hooksCreation,
    .ingest (.append 0 { eventId := "evt_1", event := "order.paid", data := () }),
    .ingest (.begin 0 Ingest.Ingestor.exampleIngestor 0), .ingest (.reply 0 (.reclaimed true)),
    .ingest (.reply 0 (.claimed [])),
    .ingest (.reply 0 (.subscriptions [hooksCreation.subscription.snapshot] (fun _ => "d_1") "")),
    .ingest (.reply 0 .enqueued), .ingest (.reply 0 .acked)] ++
  deliver 1 "d_1" ++ settled 1 "d_1" ++ .redeliver "d_1" 2 "d_2" :: deliver 3 "d_2"

theorem posts_allowed_replay : ∃ w : ExampleWorld,
    run (Pausing.step (exampleServiceFor ["*.example.com"])) Pausing.init
      deliveredAndReplayed = some w ∧ (w.posts.map fun p => p.record.deliveryId) = ["d_1", "d_2"] ∧
      ∀ p ∈ w.posts, Allowed (exampleServiceFor ["*.example.com"]).ssrf p.record.targetUrl := by
  obtain ⟨w, hw, hposts⟩ := (Option.any_eq_true ..).mp (by decide +kernel :
    (run (Pausing.step (exampleServiceFor ["*.example.com"])) (Pausing.init : ExampleWorld)
      deliveredAndReplayed).any (fun w =>
        decide ((w.posts.map fun p => p.record.deliveryId) = ["d_1", "d_2"])) = true)
  exact ⟨w, hw, of_decide_eq_true hposts, posts_allowed .postgres
    (exampleServiceFor ["*.example.com"]) _ w hw (by decide +kernel)⟩

/-- A host that is not on the list, and a URL with credentials. -/
theorem posted_to_refused_urls : ∃ w w' : ExampleWorld,
    run (Pausing.step (exampleServiceFor ["*.example.com"])) Pausing.init
      (deliveredPing "https://attacker.test/in") = some w ∧
    run (Pausing.step (exampleServiceFor ["*.example.com"])) Pausing.init
      (deliveredPing "https://user:pw@hooks.example.com/in") = some w' ∧
    (¬∀ p ∈ w.posts, Allowed (exampleServiceFor ["*.example.com"]).ssrf p.record.targetUrl) ∧
    ¬∀ p ∈ w'.posts, Allowed (exampleServiceFor ["*.example.com"]).ssrf p.record.targetUrl := by
  obtain ⟨w, hw, hposted⟩ := (Option.any_eq_true ..).mp (by decide +kernel :
    (run (Pausing.step (exampleServiceFor ["*.example.com"])) (Pausing.init : ExampleWorld)
      (deliveredPing "https://attacker.test/in")).any (fun w => decide (¬∀ p ∈ w.posts,
        Allowed (exampleServiceFor ["*.example.com"]).ssrf p.record.targetUrl)) = true)
  obtain ⟨w', hw', hposted'⟩ := (Option.any_eq_true ..).mp (by decide +kernel :
    (run (Pausing.step (exampleServiceFor ["*.example.com"])) (Pausing.init : ExampleWorld)
      (deliveredPing "https://user:pw@hooks.example.com/in")).any (fun w => decide (¬∀ p ∈ w.posts,
        Allowed (exampleServiceFor ["*.example.com"]).ssrf p.record.targetUrl)) = true)
  exact ⟨w, w', hw, hw', of_decide_eq_true hposted, of_decide_eq_true hposted'⟩

end WebhookEngine.Subscriptions.AllowList
