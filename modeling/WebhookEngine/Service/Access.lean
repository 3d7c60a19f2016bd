import WebhookEngine.Service.Routes

/-!
# Requests without the source key

Whoever does not send the key is turned away, but for the probes; what they are answered tells
nothing of what is stored, and what they do to the stores is no more than what an ingestor does
to the events at each of its ticks: `/ready` reclaims the leases that have expired.

* `returns_refusals`: what their handlers answer;
* `harmless_stranger`: what their handlers do to the stores;
* `strangers_unseen`: a run with their requests, and the run of the others.
-/

namespace WebhookEngine.Service

open Lib Lib.Run Lib.Coroutines Ingest.Events Subscriptions

variable {py : Python} {δ π : Type} {b : Backends δ}

/-- A request without the key. -/
def Request.isStranger (deps : ServiceDeps py δ) : Request δ → Bool
  | .http sourceKey _ _ => decide (sourceKey ≠ some deps.sourceKey)
  | .rotateSecret .. => false

/-- The answers to a request without the key. -/
def Request.refusals : Request δ → List Answer
  | .http _ .health _ => [.response ⟨200, .status "ok"⟩]
  | .http _ .ready _ =>
    [.response ⟨200, .status "ok"⟩, .response ⟨503, .status "backend_unavailable"⟩]
  | _ => [.response unauthorized, .response unprocessable]

/-- What an ingestor does that `/ready` does too. -/
def IsReclaim (l : Work δ) : Prop := ∃ now, l = .reclaimEvents now

variable (deps : ServiceDeps py δ)

/-! ## Handlers -/

/-- A route that asks for the key does not reach its handler. -/
theorem handle_stranger {sourceKey : Option String} {route : Route δ} {env : Env}
    (hstranger : (Request.http sourceKey route env).isStranger deps = true)
    (hopen : route.isOpen = false) :
    ∃ r, .response r ∈ (Request.http sourceKey route env).refusals ∧
      (handle deps (.http sourceKey route env) : Handler π δ) = respond r := by
  have hrefusals : (Request.http sourceKey route env).refusals =
      [.response unauthorized, .response unprocessable] := by
    cases route with
    | health => cases hopen
    | ready => cases hopen
    | _ => rfl
  rw [hrefusals]
  simp only [handle, hopen, Bool.false_eq_true, if_false]
  cases endpoint deps env route with
  | none => exact ⟨unprocessable, by simp, rfl⟩
  | some handler =>
    cases sourceKey with
    | none => exact ⟨unprocessable, by simp, rfl⟩
    | some key =>
      have hne : key ≠ deps.sourceKey := fun h => of_decide_eq_true hstranger (congrArg some h)
      exact ⟨unauthorized, by simp, if_pos hne⟩

theorem work_of_perform {s t : Stores b} {order : List String} {now : Datetime}
    {r : (StoreCall.reclaimStale now : StoreCall b.subs.Pending δ).Ans}
    (h : perform s order (.reclaimStale now) = some (r, t)) :
    work s (.reclaimEvents now) = some t := by
  cases h
  rfl

theorem exec_reclaimStale {s t : Stores b} {now : Datetime} {c : StoreCall b.subs.Pending δ}
    (hc : c = .reclaimStale now) {o : Outcome} {r : c.Reply} (h : exec s c o = some (r, t)) :
    t = s ∨ work s (.reclaimEvents now) = some t := by
  cases o with
  | returns order =>
    obtain ⟨x, hx, hrt⟩ := Option.map_eq_some_iff.mp h
    cases hrt
    subst hc
    exact Or.inr (work_of_perform hx)
  | raises e stored =>
    obtain ⟨u, hu, hrt⟩ := Option.map_eq_some_iff.mp h
    cases hrt
    subst hc
    by_cases hstored : stored = []
    · -- the call has not reached the backend
      exact Or.inl (Option.some.inj ((if_pos hstored).symm.trans hu)).symm
    · -- the backend has reclaimed and the reply is lost
      obtain ⟨x, hx, rfl⟩ := Option.map_eq_some_iff.mp ((if_neg hstored).symm.trans hu)
      exact Or.inr (work_of_perform hx)

theorem harmless_readiness (env : Env) :
    Harmless (server deps b) IsReclaim (readiness env) := by
  refine ⟨fun s o r t h => ?_, fun r => ?_⟩
  · exact (exec_reclaimStale rfl h).imp_right fun hwork => ⟨_, ⟨env.now, rfl⟩, hwork⟩
  · cases r with
    | ok n => trivial
    | error e => trivial

theorem harmless_stranger (q : Request δ) (h : q.isStranger deps = true) :
    Harmless (server deps b) IsReclaim (handle deps q) := by
  cases q with
  | rotateSecret id graceS secret token now => cases h
  | http sourceKey route env =>
    cases hopen : route.isOpen with
    | false =>
      obtain ⟨r, -, hr⟩ := handle_stranger (π := b.subs.Pending) deps h hopen
      rw [hr]
      trivial
    | true =>
      cases route with
      | health => trivial
      | ready => exact harmless_readiness deps env
      | _ => cases hopen

theorem returns_refusals (q : Request δ) (h : q.isStranger deps = true) :
    Returns (· ∈ q.refusals) (handle deps q : Handler π δ) := by
  cases q with
  | rotateSecret id graceS secret token now => cases h
  | http sourceKey route env =>
    cases hopen : route.isOpen with
    | false =>
      obtain ⟨r, hmem, hr⟩ := handle_stranger (π := π) deps h hopen
      rw [hr]
      exact hmem
    | true =>
      cases route with
      | health => exact List.mem_singleton_self _
      | ready =>
        intro r
        cases r with
        | ok n => exact List.mem_cons_self
        | error e => exact List.mem_cons_of_mem _ (List.mem_singleton_self _)
      | _ => cases hopen

/-! ## Runs -/

theorem refuses (b : Backends δ) :
    Rely (server deps b) (fun _ => True) (fun _ _ => True)
      (fun q a _ => q.isStranger deps = true → a ∈ q.refusals) where
  refl _ := trivial
  trans _ _ _ _ _ := trivial
  exec _ _ _ _ _ _ _ := ⟨trivial, trivial⟩
  work _ _ _ _ _ := ⟨trivial, trivial⟩
  stable _ _ _ _ h _ := h
  handle q s _ := by
    cases hstranger : q.isStranger deps with
    | false => exact (returns_of_forall (fun _ h => by cases h) _).ensures (fun _ _ h => h) s
    | true =>
      exact (returns_refusals deps q hstranger).ensures (fun _ _ hmem _ => hmem) s

/-- **Strangers are turned away**: every answer to one of them is one of the fixed refusals of its
route, and the run would have gone the same, in every store and in every answer to the others,
had none of them asked anything, but for an ingestor's reclaiming. -/
theorem strangers_unseen (b : Backends δ) {κ : Type} [DecidableEq κ] (ls : List (Label δ κ))
    (w : World b κ) (h : run (step (server deps b)) (init (Stores.empty b)) ls = some w) :
    (∀ x ∈ w.answers, x.1.isStranger deps = true → x.2 ∈ x.1.refusals) ∧
      ∃ ls', run (step (server deps b)) (init (Stores.empty b)) ls' =
          some (w.without fun q => q.isStranger deps) ∧
        Erases IsReclaim (fun q => q.isStranger deps) ls ls' :=
  ⟨answers_run (refuses deps b) trivial h,
    without_run (harmless_stranger deps) (tame_init (Stores.empty b)) h⟩

/-- Two strangers, one of them at `/ready`, beside an event of a producer. -/
def twoStrangers : List (Label Unit Bool) :=
  [.start false (.http (some "guess") (.emit { event := "order.paid", data := () }) exampleEnv),
    .start false (.http none .ready exampleEnv),
    .start true (.http (some "key") (.emit { event := "order.paid", data := () }) exampleEnv),
    .resume false (.returns []), .resume true (.returns [])]

theorem strangers_unseen_two : ∃ w : World exampleBackends Bool,
    run (step (server exampleDeps exampleBackends)) (init (Stores.empty exampleBackends))
      twoStrangers = some w ∧ w.answers.length = 3 ∧
      (∀ x ∈ w.answers, x.1.isStranger exampleDeps = true → x.2 ∈ x.1.refusals) ∧
      ∃ ls', run (step (server exampleDeps exampleBackends)) (init (Stores.empty exampleBackends))
          ls' = some (w.without fun q => q.isStranger exampleDeps) ∧
        Erases IsReclaim (fun q => q.isStranger exampleDeps) twoStrangers ls' := by
  obtain ⟨w, hw, hlength⟩ := (Option.any_eq_true ..).mp (by decide +kernel :
    (run (step (server exampleDeps exampleBackends))
      (init (Stores.empty exampleBackends) : World exampleBackends Bool) twoStrangers).any
        (fun w => decide (w.answers.length = 3)) = true)
  exact ⟨w, hw, of_decide_eq_true hlength,
    strangers_unseen exampleDeps exampleBackends twoStrangers w hw⟩

end WebhookEngine.Service
