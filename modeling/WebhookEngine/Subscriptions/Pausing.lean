import WebhookEngine.Engine
import WebhookEngine.Ingest.Ingestor
import WebhookEngine.Ingest.Memory
import WebhookEngine.Stores.Pg
import WebhookEngine.Subscriptions.Pg

/-!
# Pausing a subscription

The microservice: the subscription table, the ingestor's ticks, the engines' ticks and
the admin calls, over one delivery store. A delivery is enqueued in three places
(`_fan_out`, `ping`, `redeliver`) and sent in one; only `_fan_out` looks at the status
of the subscription. The world notes the status that a subscription has when a send
starts, and keeps it with what the send posts.

* `safe_step`: what a step has to leave alone for the next send to start active;
* `no_post_while_paused`: the runs in which it does;
* `paused_task_posts`: where it does not, the next send posts.
-/

namespace WebhookEngine.Subscriptions.Pausing

open Lib Run Dispatcher Ingest.Events Stores.Queue Engine

variable {py : Python} {δ : Type}

/-- The configuration, the host's serialisers and the parts of the service. -/
structure Service (py : Python) (δ : Type) where
  cipher : Pg.SecretCipher
  dumps : δ → Option Bytes
  pingBody : SubscriptionId → Datetime → Bytes
  ssrf : SsrfGuard.UrlSafetyValidator py
  dispatch : WebhookDispatchConfig
  dispatcher : WebhookDispatcher py

/-! ## Operational calls -/

def PING_EVENT : String := "webhook.ping"

/-- The record of `ping`. -/
def pingRecord (svc : Service py δ) (sub : Subscription) (now : Datetime) (id : DeliveryId)
    (eventId : String) : DeliveryRecord where
  deliveryId := id
  subscriptionId := sub.id
  ownerId := sub.ownerId
  eventName := PING_EVENT
  eventId := eventId
  schemaVersion := "1.0"
  tenantId := none
  dataJson := svc.pingBody sub.id now
  emittedAt := now
  targetUrl := sub.url
  resolvedIp := sub.resolvedIp
  redeliveryOf := none
  attempts := 0
  fireAt := now
  createdAt := now
  status := .pending

/-- The clone of `redeliver`. -/
def cloneRecord (original : DeliveryRecord) (now : Datetime) (id : DeliveryId) :
    DeliveryRecord where
  deliveryId := id
  subscriptionId := original.subscriptionId
  ownerId := original.ownerId
  eventName := original.eventName
  eventId := original.eventId
  schemaVersion := original.schemaVersion
  tenantId := original.tenantId
  dataJson := original.dataJson
  emittedAt := original.emittedAt
  targetUrl := original.targetUrl
  resolvedIp := original.resolvedIp
  redeliveryOf := some original.deliveryId
  attempts := 0
  fireAt := now
  createdAt := now
  status := .pending

/-- What `ping` enqueues; `none` is `SubscriptionNotFound` or a refused target. -/
def ping (svc : Service py δ) (subs : Pg.PgTable) (id : SubscriptionId) (now : Datetime)
    (uuid : DeliveryId) (eventId : String) : Option DeliveryRecord :=
  (subs.find? id).bind fun row =>
    if Ingest.Ingestor.checkTarget svc.ssrf row.snapshot = some true then
      some (pingRecord svc row.toSubscription now uuid eventId)
    else none

/-- What `redeliver` enqueues; `none` is `DeliveryNotFound` or a refused target. -/
def redeliver (svc : Service py δ) (q : LeaseQueue) (s : q.State) (id : DeliveryId)
    (now : Datetime) (uuid : DeliveryId) : Option DeliveryRecord :=
  (q.get s id).bind fun original =>
    if Ingest.Ingestor.checkTarget svc.ssrf (Ingest.Ingestor.snapshot original) = some true then
      some (cloneRecord original now uuid)
    else none

/-! ## The world -/

/-- A call of `sender.post`, and the status of the subscription when its send started. -/
structure Post where
  record : DeliveryRecord
  status : Option SubscriptionStatus

/-- The parties, the status noted for each send, and the posts. -/
structure World (py : Python) (E : EventQueue δ) (q : LeaseQueue) (ι κ : Type) where
  subs : Pg.PgTable
  ingest : Ingest.Ingestor.World py E q κ
  ticks : ι → Tick
  started : ι × DeliveryId → Option SubscriptionStatus
  posts : List Post

inductive Label (py : Python) (δ ι κ : Type) where
  | create (c : Creation)
  | pause (id : SubscriptionId)
  | resume (id : SubscriptionId)
  | ingest (l : Ingest.Ingestor.Label py δ κ)
  | engine (i : ι) (now : Datetime) (a : Action)
  | ping (id : SubscriptionId) (now : Datetime) (uuid : DeliveryId) (eventId : String)
  | redeliver (id : DeliveryId) (now : Datetime) (uuid : DeliveryId)

variable {E : EventQueue δ} {q : LeaseQueue} {ι κ : Type}

def init : World py E q ι κ :=
  ⟨.empty, Ingest.Ingestor.init E q, fun _ => .idle, fun _ => none, []⟩

def statusOf (subs : Pg.PgTable) (id : SubscriptionId) : Option SubscriptionStatus :=
  (subs.find? id).map fun row => row.status

/-- The subscriptions that an ingest tick is given are those of `for_event`. -/
def answered (w : World py E q ι κ) : Ingest.Ingestor.Label py δ κ → Bool
  | .reply i (.subscriptions subs _ _) =>
    match (w.ingest.ticks i).bind fun t => t.todo.head? with
    | some event => decide (subs.Perm (Pg.forEvent w.subs event.event event.tenantId))
    | none => false
  | _ => true

/-- `enqueue_many` of one record, under a new id. -/
def enqueueOne (w : World py E q ι κ) (r : DeliveryRecord) : Option (World py E q ι κ) :=
  let shared := w.ingest.shared
  if r.deliveryId ∈ shared.minted then none
  else
    (q.enqueueMany shared.deliveries [r]).map fun deliveries =>
      { w with
        ingest := { w.ingest with
          shared := { shared with
            deliveries := deliveries
            minted := shared.minted ++ [r.deliveryId] } } }

/-- What a step of an engine leaves: the sends that it has started are noted with the status of
their subscriptions, its posts with the status noted. -/
def afterTick [DecidableEq ι] (w : World py E q ι κ) (i : ι) (deliveries : q.State) (tk : Tick)
    (l : Log) : World py E q ι κ where
  subs := w.subs
  ingest := { w.ingest with shared := { w.ingest.shared with deliveries := deliveries } }
  ticks := Function.update w.ticks i tk
  started := l.dispatched.foldl
    (fun f r => Function.update f (i, r.deliveryId) (statusOf w.subs r.subscriptionId)) w.started
  posts := w.posts ++ l.posted.map fun r => ⟨r, w.started (i, r.deliveryId)⟩

def step [DecidableEq ι] [DecidableEq κ] (svc : Service py δ) (w : World py E q ι κ) :
    Label py δ ι κ → Option (World py E q ι κ)
  | .create c => (Pg.create svc.cipher w.subs c).map fun subs => { w with subs := subs }
  | .pause id => (Pg.pause w.subs id).map fun x => { w with subs := x.1 }
  | .resume id => (Pg.resume w.subs id).map fun x => { w with subs := x.1 }
  | .ingest l =>
    if answered w l then
      (Ingest.Ingestor.step svc.dumps E q w.ingest l).map fun ingest => { w with ingest := ingest }
    else none
  | .engine i now a =>
    (Tick.step q svc.dispatch svc.dispatcher w.ingest.shared.deliveries now (w.ticks i) a).map
      fun (deliveries, tk, l) => afterTick w i deliveries tk l
  | .ping id now uuid eventId => (ping svc w.subs id now uuid eventId).bind (enqueueOne w)
  | .redeliver id now uuid =>
    (redeliver svc q w.ingest.shared.deliveries id now uuid).bind (enqueueOne w)

/-! ## Sends that start active -/

def Paused (subs : Pg.PgTable) (id : SubscriptionId) : Prop := statusOf subs id = some .paused

/-- A claim hands out no delivery of a paused subscription, and a pause finds none of the
subscription's deliveries between its claim and the start of its send. -/
def LeavesAlone (svc : Service py δ) (w : World py E q ι κ) : Label py δ ι κ → Prop
  | .engine _ now (.claim pick true) => ∀ claimed ∈ q.claimBatch w.ingest.shared.deliveries now
      svc.dispatch.leaseTtlS svc.dispatch.batchSize pick,
    ∀ r ∈ claimed.1, ¬Paused w.subs r.subscriptionId
  | .pause id => ∀ i, ∀ t ∈ (w.ticks i).inflight.rows, t.phase.holdsGate = false →
    t.record.subscriptionId ≠ id
  | _ => True

instance (subs : Pg.PgTable) (id : SubscriptionId) : Decidable (Paused subs id) := by
  unfold Paused
  infer_instance

instance {n : Nat} (svc : Service py δ) (w : World py E q (Fin n) κ) (l : Label py δ (Fin n) κ) :
    Decidable (LeavesAlone svc w l) := by
  unfold LeavesAlone
  split <;> infer_instance

/-- The deliveries that wait for their send have subscriptions that are not paused. -/
def Waiting (subs : Pg.PgTable) (tk : Tick) : Prop :=
  ∀ t ∈ tk.inflight.rows, t.phase.holdsGate = false → ¬Paused subs t.record.subscriptionId

structure Safe (w : World py E q ι κ) : Prop where
  waiting : ∀ i, Waiting w.subs (w.ticks i)
  started : ∀ x, w.started x ≠ some .paused
  posts : ∀ p ∈ w.posts, p.status ≠ some .paused

theorem safe_init : Safe (init : World py E q ι κ) where
  waiting i t ht := by cases ht
  started x h := by cases h
  posts p hp := by cases hp

theorem dispatch_holdsGate {cfg : WebhookDispatchConfig} {d : WebhookDispatcher py}
    {r : DeliveryRecord} {now : Datetime} {phase phase' : Phase} {a : TaskAction}
    {call : Option Engine.Call} (h : DispatchMoves cfg d r now phase a call (some phase')) :
    phase'.holdsGate = true := by
  cases h <;> rfl

/-- Only a claim makes deliveries wait. -/
theorem waiting_tick {cfg : WebhookDispatchConfig} {d : WebhookDispatcher py} {s s' : q.State}
    {now : Datetime} {tk tk' : Tick} {a : Action} {l : Log} {subs : Pg.PgTable}
    (h : Tick.Moves q cfg d s now tk a s' tk' l) (hw : Waiting subs tk)
    (hclaimed : ∀ r ∈ l.claimed, ¬Paused subs r.subscriptionId) : Waiting subs tk' := by
  cases h with
  | reclaim => exact hw
  | reclaimRaised => exact hw
  | claim pick rs s' hclaim =>
    intro t ht hwaits
    have hfound := Table.find?_of_mem ht
    rw [Tick.inflight, find?_waitingTasks] at hfound
    obtain ⟨r, hr, rfl⟩ := Option.map_eq_some_iff.mp hfound
    exact hclaimed r (List.mem_of_find?_eq_some hr)
  | claimRaised pick => exact hw
  | task tasks id a t call phase s' ht hstep hcall =>
    intro u hu hwaits
    have hfound := Table.find?_of_mem hu
    rw [Tick.inflight, find?_setTask ht] at hfound
    split at hfound
    · obtain ⟨phase', rfl, rfl⟩ := Option.map_eq_some_iff.mp hfound
      rw [dispatch_holdsGate (dispatch_moves hstep)] at hwaits
      cases hwaits
    · exact hw u (Table.find?_eq_some.mp hfound).1 hwaits
  | finish tasks hempty =>
    intro t ht
    cases ht

/-- A send that starts has waited. -/
theorem started_tick {cfg : WebhookDispatchConfig} {d : WebhookDispatcher py} {s s' : q.State}
    {now : Datetime} {tk tk' : Tick} {a : Action} {l : Log} {subs : Pg.PgTable}
    (h : Tick.Moves q cfg d s now tk a s' tk' l) (hw : Waiting subs tk) :
    ∀ r ∈ l.dispatched, ¬Paused subs r.subscriptionId := by
  intro r hr
  cases h with
  | task tasks id a t call phase s' ht hstep hcall =>
    have hwaiting : a.log t.record = { dispatched := [t.record] } → t.phase.holdsGate = false := by
      have hmoves := dispatch_moves hstep
      generalize t.phase = phase₀ at hmoves ⊢
      intro hlog
      cases hmoves with
      | start ans hnow => rfl
      | _ => cases congrArg Log.dispatched hlog
    cases a with
    | start ans =>
      obtain rfl := List.mem_singleton.mp hr
      exact hw t (Table.find?_eq_some.mp ht).1 (hwaiting rfl)
    | _ => cases hr
  | _ => cases hr

theorem safe_afterTick [DecidableEq ι] {w : World py E q ι κ} (hw : Safe w) {i : ι}
    {deliveries : q.State} {tk : Tick} {l : Log} (hwaiting : Waiting w.subs tk)
    (hstarted : ∀ r ∈ l.dispatched, ¬Paused w.subs r.subscriptionId) :
    Safe (afterTick w i deliveries tk l) where
  waiting j := by
    simp only [afterTick, Function.update_apply]
    split
    · exact hwaiting
    · exact hw.waiting j
  started := by
    have hfold : ∀ (rs : List DeliveryRecord) (f : ι × DeliveryId → Option SubscriptionStatus),
        (∀ r ∈ rs, ¬Paused w.subs r.subscriptionId) → (∀ x, f x ≠ some .paused) → ∀ x,
        rs.foldl (fun f r => Function.update f (i, r.deliveryId)
          (statusOf w.subs r.subscriptionId)) f x ≠ some .paused := by
      intro rs
      induction rs with
      | nil => exact fun f _ hf => hf
      | cons r rs ih =>
        intro f hrs hf
        apply ih _ fun x hx => hrs x (List.mem_cons_of_mem _ hx)
        intro x
        simp only [Function.update_apply]
        split
        · exact hrs r (List.mem_cons_self ..)
        · exact hf x
    exact hfold l.dispatched w.started hstarted hw.started
  posts p hp := by
    rcases List.mem_append.mp hp with hp | hp
    · exact hw.posts p hp
    · obtain ⟨r, -, rfl⟩ := List.mem_map.mp hp
      exact hw.started _

/-- A change of the table that pauses no subscription of a waiting delivery. -/
theorem Safe.table {w : World py E q ι κ} (hw : Safe w) {subs : Pg.PgTable}
    (h : ∀ i, ∀ t ∈ (w.ticks i).inflight.rows, t.phase.holdsGate = false →
      Paused subs t.record.subscriptionId → Paused w.subs t.record.subscriptionId) :
    Safe { w with subs := subs } where
  waiting i t ht hwaits hpaused := hw.waiting i t ht hwaits (h i t ht hwaits hpaused)
  started := hw.started
  posts := hw.posts

theorem statusOf_setStatus {subs : Pg.PgTable} {id : SubscriptionId} {status : SubscriptionStatus}
    {x : Pg.PgTable × Bool} (h : Pg.setStatus subs id status = some x) (j : SubscriptionId) :
    statusOf x.1 j = if j = id then (statusOf subs j).map fun _ => status else statusOf subs j := by
  unfold statusOf
  rw [Pg.find?_setStatus h]
  split
  · rw [Option.map_map, Option.map_map]
    rfl
  · rfl

theorem safe_enqueueOne {w w' : World py E q ι κ} (hw : Safe w) {r : DeliveryRecord}
    (h : enqueueOne w r = some w') : Safe w' := by
  unfold enqueueOne at h
  obtain ⟨-, h⟩ := Option.ite_none_left_eq_some.mp h
  obtain ⟨deliveries, -, rfl⟩ := Option.map_eq_some_iff.mp h
  exact ⟨hw.waiting, hw.started, hw.posts⟩

theorem paused_create {cipher : Pg.SecretCipher} {subs subs' : Pg.PgTable} {c : Creation}
    (h : Pg.create cipher subs c = some subs') {id : SubscriptionId} (hpaused : Paused subs' id) :
    Paused subs id := by
  obtain ⟨row, hactive, hfound⟩ := Pg.find?_create h id
  unfold Paused statusOf at hpaused ⊢
  rw [hfound] at hpaused
  cases hold : subs.find? id with
  | some old =>
    rw [hold] at hpaused
    exact hpaused
  | none =>
    rw [hold, Option.none_or] at hpaused
    split at hpaused
    · rw [Option.map_some, hactive] at hpaused
      cases hpaused
    · cases hpaused

/-- What a tick logs as claimed, a claim has handed out. -/
theorem claimed_tick {cfg : WebhookDispatchConfig} {d : WebhookDispatcher py} {s s' : q.State}
    {now : Datetime} {tk tk' : Tick} {a : Action} {l : Log}
    (h : Tick.Moves q cfg d s now tk a s' tk' l) {r : DeliveryRecord} (hr : r ∈ l.claimed) :
    ∃ pick, a = .claim pick true ∧
      q.claimBatch s now cfg.leaseTtlS cfg.batchSize pick = some (l.claimed, s') := by
  cases h with
  | claim pick rs s' hclaim => exact ⟨pick, rfl, hclaim⟩
  | task tasks id a t call phase s' ht hstep hcall => cases a <;> cases hr
  | _ => cases hr

variable [DecidableEq ι] [DecidableEq κ]

theorem safe_step {svc : Service py δ} {w w' : World py E q ι κ} {l : Label py δ ι κ}
    (hw : Safe w) (hl : LeavesAlone svc w l) (h : step svc w l = some w') : Safe w' := by
  cases l with
  | create c =>
    obtain ⟨subs, hcreate, rfl⟩ := Option.map_eq_some_iff.mp h
    apply hw.table
    exact fun i t _ _ hpaused => paused_create hcreate hpaused
  | pause id =>
    obtain ⟨x, hpause, rfl⟩ := Option.map_eq_some_iff.mp h
    apply hw.table
    intro i t ht hwaits hpaused
    unfold Paused at hpaused
    rw [statusOf_setStatus hpause, if_neg (hl i t ht hwaits)] at hpaused
    exact hpaused
  | resume id =>
    obtain ⟨x, hresume, rfl⟩ := Option.map_eq_some_iff.mp h
    apply hw.table
    intro i t _ _ hpaused
    unfold Paused at hpaused
    rw [statusOf_setStatus hresume] at hpaused
    split at hpaused
    · obtain ⟨_, -, habsurd⟩ := Option.map_eq_some_iff.mp hpaused
      cases habsurd
    · exact hpaused
  | ingest l =>
    obtain ⟨-, h⟩ := Option.ite_none_right_eq_some.mp h
    obtain ⟨ingest, -, rfl⟩ := Option.map_eq_some_iff.mp h
    exact ⟨hw.waiting, hw.started, hw.posts⟩
  | engine i now a =>
    obtain ⟨⟨deliveries, tk, log⟩, htick, rfl⟩ := Option.map_eq_some_iff.mp h
    have hmoves := tick_moves htick
    apply safe_afterTick hw
    · apply waiting_tick hmoves (hw.waiting i)
      intro r hr
      obtain ⟨pick, rfl, hclaim⟩ := claimed_tick hmoves hr
      exact hl _ hclaim r hr
    · exact started_tick hmoves (hw.waiting i)
  | ping id now uuid eventId =>
    obtain ⟨r, -, h⟩ := Option.bind_eq_some_iff.mp h
    exact safe_enqueueOne hw h
  | redeliver id now uuid =>
    obtain ⟨r, -, h⟩ := Option.bind_eq_some_iff.mp h
    exact safe_enqueueOne hw h

/-- **No post by a send that starts while its subscription is paused**, in the runs that leave
the waiting deliveries alone. -/
theorem no_post_while_paused (svc : Service py δ) (labels : List (Label py δ ι κ))
    (w : World py E q ι κ) (hrun : run (step svc) init labels = some w)
    (halone : Along (step svc) (LeavesAlone svc) (init : World py E q ι κ) labels) :
    ∀ p ∈ w.posts, p.status ≠ some .paused := by
  have hstep : ∀ (u : World py E q ι κ) l v, Safe u → LeavesAlone svc u l →
      step svc u l = some v → Safe v :=
    fun u l v hu hl huv => safe_step hu hl huv
  exact (run_preserves hstep halone safe_init hrun).posts

/-- The step of an engine that its tick takes without a store call. -/
theorem step_engine {svc : Service py δ} {w : World py E q ι κ} {i : ι} {now : Datetime}
    {id : DeliveryId} {a : TaskAction} {tasks : Table Task.id} {t : Task} {phase : Option Phase}
    (htick : w.ticks i = .dispatching tasks) (htask : tasks.find? id = some t)
    (hpasses : passes svc.dispatch tasks a = true)
    (hstep : dispatchStep svc.dispatch svc.dispatcher t.record now t.phase a = some (none, phase)) :
    step svc w (.engine i now (.task id a)) =
      some (afterTick w i w.ingest.shared.deliveries (.dispatching (setTask tasks id phase))
        (a.log t.record)) := by
  simp only [step, htick, Tick.step, htask, hpasses, hstep, Option.bind_some, if_true, execute,
    Option.map_some]

/-- A delivery of a paused subscription that waits for its send is posted, once the gate lets
it in, if `send` does not refuse it for another reason. -/
theorem paused_task_posts (svc : Service py δ) (w : World py E q ι κ) (i : ι) (now : Datetime)
    (id : DeliveryId) (r : DeliveryRecord) (tasks : Table Task.id) (ans : Answers)
    (htick : w.ticks i = .dispatching tasks) (htask : tasks.find? id = some ⟨r, .waiting⟩)
    (hpaused : Paused w.subs r.subscriptionId)
    (hgate : active tasks < svc.dispatch.workerConcurrency) (hnow : ans.now = now)
    (hpost : (send svc.dispatcher r ans).post.isSome = true) : ∃ w', run (step svc) w
      [.engine i now (.task id (.start ans)), .engine i now (.task id .post)] = some w' ∧
      ⟨r, some .paused⟩ ∈ w'.posts := by
  have hstart : step svc w (.engine i now (.task id (.start ans))) = _ :=
    step_engine htick htask (decide_eq_true hgate) (if_pos hnow)
  have hfound := find?_setTask htask (some (.sending ans)) id
  rw [if_pos rfl] at hfound
  refine ⟨_, run_cons_some.mpr ⟨_, hstart, run_cons_some.mpr ⟨_, step_engine
    (Function.update_self ..) hfound rfl (if_pos hpost), rfl⟩⟩, ?_⟩
  apply List.mem_append_right
  have hnoted : (afterTick w i w.ingest.shared.deliveries
      (.dispatching (setTask tasks id (some (.sending ans)))) { dispatched := [r] }).started
        (i, r.deliveryId) = some .paused := by
    simp only [afterTick, List.foldl_cons, List.foldl_nil, Function.update_self]
    exact hpaused
  rw [← hnoted]
  exact List.mem_singleton_self _

/-! ## Runs of the service -/

def exampleService : Service examplePython Unit where
  cipher := Pg.identityCipher
  dumps := Ingest.Ingestor.exampleDumps
  pingBody _ _ := [0x7b, 0x7d]
  ssrf := exampleValidator
  dispatch := {}
  dispatcher := exampleDispatcher

abbrev ExampleWorld := World examplePython (Ingest.Memory.memoryEvents Unit)
  Stores.Pg.pgQueue.toLeaseQueue (Fin 1) Nat

/-- An engine's tick up to the post of one delivery. -/
def deliver (now : Datetime) (id : DeliveryId) : List (Label examplePython Unit (Fin 1) Nat) :=
  [.engine 0 now (.reclaim true), .engine 0 now (.claim [id] true),
    .engine 0 now (.task id (.start (exampleAnswers now (some "8.8.8.8")))),
    .engine 0 now (.task id .post)]

/-- The rest of the tick. -/
def settled (now : Datetime) (id : DeliveryId) : List (Label examplePython Unit (Fin 1) Nat) :=
  [.engine 0 now (.task id (.settle true)), .engine 0 now .finish]

/-- A ping while the subscription is paused, delivered after it is resumed. -/
def resumedPing : List (Label examplePython Unit (Fin 1) Nat) :=
  [.create (exampleCreation "sub_1" "owner-a"), .pause "sub_1", .ping "sub_1" 1 "d_1" "evt_1",
    .resume "sub_1"] ++ deliver 2 "d_1"

theorem no_post_while_paused_resumed_ping : ∃ w : ExampleWorld,
    run (step exampleService) init resumedPing = some w ∧ w.posts.length = 1 ∧
      ∀ p ∈ w.posts, p.status ≠ some .paused := by
  obtain ⟨w, hw, hlength⟩ := (Option.any_eq_true ..).mp (by decide +kernel :
    (run (step exampleService) (init : ExampleWorld) resumedPing).any (fun w =>
      decide (w.posts.length = 1)) = true)
  exact ⟨w, hw, of_decide_eq_true hlength,
    no_post_while_paused exampleService resumedPing w hw (by decide +kernel)⟩

/-- An event is fanned out, then the subscription is paused, then the engine ticks. -/
def pausedDelivery : List (Label examplePython Unit (Fin 1) Nat) :=
  [.create (exampleCreation "sub_1" "owner-a"),
    .ingest (.append 0 { eventId := "evt_1", event := "order.paid", data := () }),
    .ingest (.begin 0 Ingest.Ingestor.exampleIngestor 0), .ingest (.reply 0 (.reclaimed true)),
    .ingest (.reply 0 (.claimed [])),
    .ingest (.reply 0 (.subscriptions [(exampleCreation "sub_1" "owner-a").subscription.snapshot]
      (fun _ => "d_1") "")),
    .ingest (.reply 0 .enqueued), .pause "sub_1"] ++ deliver 1 "d_1"

theorem delivery_posted_while_paused : ∃ w : ExampleWorld,
    run (step exampleService) init pausedDelivery = some w ∧
      ¬∀ p ∈ w.posts, p.status ≠ some .paused := by
  obtain ⟨w, hw, hposted⟩ := (Option.any_eq_true ..).mp (by decide +kernel :
    (run (step exampleService) (init : ExampleWorld) pausedDelivery).any (fun w =>
      decide (¬∀ p ∈ w.posts, p.status ≠ some .paused)) = true)
  exact ⟨w, hw, of_decide_eq_true hposted⟩

end WebhookEngine.Subscriptions.Pausing
