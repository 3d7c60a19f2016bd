import Mathlib.Data.List.Forall2
import Mathlib.Logic.Function.Basic
import WebhookEngine.Lib.Run

/-!
# Coroutines over one store

A coroutine has returned, or it awaits a call of the store and goes on from the reply. A server
starts one for each request; their calls interleave with one another and with other work on
the store, and a coroutine may be cancelled at any await.

* `related_run`: two servers whose requests, calls and replies correspond answer alike;
* `without_run`: requests whose calls do no more than other work does can be left out;
* `answers_run`: what a coroutine ensures whatever the others do, its answer keeps.
-/

namespace Lib.Coroutines

open Run

inductive Coroutine (γ : Type*) (ρ : γ → Type*) (α : Type*) where
  | done (a : α)
  | await (c : γ) (next : ρ c → Coroutine γ ρ α)

/-- `exec` is one call, with the choices of the store; `work` is what others do to it. -/
structure Server (σ θ α γ : Type*) (ρ : γ → Type*) (ω β : Type*) where
  handle : θ → Coroutine γ ρ α
  exec : σ → (c : γ) → ω → Option (ρ c × σ)
  work : σ → β → Option σ

structure World (σ θ α κ γ : Type*) (ρ : γ → Type*) where
  store : σ
  running : κ → Option (θ × Coroutine γ ρ α)
  answers : List (θ × α)

inductive Label (θ κ ω β : Type*) where
  | start (k : κ) (q : θ)
  | resume (k : κ) (o : ω)
  | work (b : β)
  | cancel (k : κ)

variable {σ θ α κ γ ω β : Type*} {ρ : γ → Type*}

def init (s : σ) : World σ θ α κ γ ρ := ⟨s, fun _ => none, []⟩

variable [DecidableEq κ]

/-- A coroutine that has returned is answered, another one goes on. -/
def World.settle (w : World σ θ α κ γ ρ) (k : κ) (q : θ) (p : Coroutine γ ρ α) :
    World σ θ α κ γ ρ :=
  match p with
  | .done a =>
    { w with running := Function.update w.running k none, answers := w.answers ++ [(q, a)] }
  | .await c next => { w with running := Function.update w.running k (some (q, .await c next)) }

def step (sv : Server σ θ α γ ρ ω β) (w : World σ θ α κ γ ρ) :
    Label θ κ ω β → Option (World σ θ α κ γ ρ)
  | .start k q =>
    match w.running k with
    | some _ => none
    | none => some (w.settle k q (sv.handle q))
  | .resume k o =>
    match w.running k with
    | some (q, .await c next) =>
      (sv.exec w.store c o).map fun x => World.settle { w with store := x.2 } k q (next x.1)
    | _ => none
  | .work b => (sv.work w.store b).map fun s => { w with store := s }
  | .cancel k => some { w with running := Function.update w.running k none }

variable {sv : Server σ θ α γ ρ ω β}

/-! ## What a step does -/

/-- A task after a settlement was there before, or it is the one that goes on. -/
theorem running_of_settle {w : World σ θ α κ γ ρ} {k j : κ} {q : θ} {p : Coroutine γ ρ α}
    {x : θ × Coroutine γ ρ α} (h : (w.settle k q p).running j = some x) :
    w.running j = some x ∨ x = (q, p) ∧ ∀ a, p ≠ .done a := by
  cases p with
  | done a =>
    change Function.update w.running k none j = some x at h
    rw [Function.update_apply] at h
    exact Or.inl (Option.ite_none_left_eq_some.mp h).2
  | await c next =>
    change Function.update w.running k (some (q, .await c next)) j = some x at h
    rw [Function.update_apply] at h
    split at h
    · cases h
      exact Or.inr ⟨rfl, fun a ha => by cases ha⟩
    · exact Or.inl h

theorem running_of_cancel {w : World σ θ α κ γ ρ} {k j : κ} {x : θ × Coroutine γ ρ α}
    (h : Function.update w.running k none j = some x) : w.running j = some x := by
  rw [Function.update_apply] at h
  exact (Option.ite_none_left_eq_some.mp h).2

/-- The ways in which a step changes a world. -/
inductive Moves (sv : Server σ θ α γ ρ ω β) (w : World σ θ α κ γ ρ) :
    Label θ κ ω β → World σ θ α κ γ ρ → Prop where
  | start (k : κ) (q : θ) (hfree : w.running k = none) :
      Moves sv w (.start k q) (w.settle k q (sv.handle q))
  | resume (k : κ) (o : ω) (q : θ) (c : γ) (next : ρ c → Coroutine γ ρ α) (r : ρ c) (s : σ)
      (hrunning : w.running k = some (q, .await c next))
      (hexec : sv.exec w.store c o = some (r, s)) :
      Moves sv w (.resume k o) (World.settle { w with store := s } k q (next r))
  | work (b : β) (s : σ) (hwork : sv.work w.store b = some s) :
      Moves sv w (.work b) { w with store := s }
  | cancel (k : κ) :
      Moves sv w (.cancel k) { w with running := Function.update w.running k none }

theorem moves_iff {w w' : World σ θ α κ γ ρ} {l : Label θ κ ω β} :
    step sv w l = some w' ↔ Moves sv w l w' := by
  constructor
  · intro h
    cases l with
    | start k q =>
      simp only [step] at h
      split at h
      · cases h
      next hfree =>
        cases h
        exact .start k q hfree
    | resume k o =>
      simp only [step] at h
      split at h
      next q c next hrunning =>
        obtain ⟨⟨r, s⟩, hexec, rfl⟩ := Option.map_eq_some_iff.mp h
        exact .resume k o q c next r s hrunning hexec
      · cases h
    | work b =>
      obtain ⟨s, hwork, rfl⟩ := Option.map_eq_some_iff.mp h
      exact .work b s hwork
    | cancel k =>
      cases h
      exact .cancel k
  · intro h
    cases h with
    | start k q hfree => simp only [step, hfree]
    | resume k o q c next r s hrunning hexec => simp only [step, hrunning, hexec, Option.map_some]
    | work b s hwork => simp only [step, hwork, Option.map_some]
    | cancel k => rfl

/-! ## Two servers -/

section Related

variable {σ' θ' α' γ' β' : Type*} {ρ' : γ' → Type*} {sv' : Server σ' θ' α' γ' ρ' ω β'}

/-- Corresponding calls, and from corresponding replies on corresponding coroutines. -/
inductive Related (C : γ → γ' → Prop) (R : (c : γ) → (c' : γ') → ρ c → ρ' c' → Prop)
    (A : α → α' → Prop) : Coroutine γ ρ α → Coroutine γ' ρ' α' → Prop where
  | done {a : α} {a' : α'} (h : A a a') : Related C R A (.done a) (.done a')
  | await {c : γ} {c' : γ'} {next : ρ c → Coroutine γ ρ α} {next' : ρ' c' → Coroutine γ' ρ' α'}
      (hc : C c c') (h : ∀ r r', R c c' r r' → Related C R A (next r) (next' r')) :
      Related C R A (.await c next) (.await c' next')

/-- Corresponding stores stay so under corresponding calls, with the same choices, and work. -/
structure Simulates (sv : Server σ θ α γ ρ ω β) (sv' : Server σ' θ' α' γ' ρ' ω β')
    (S : σ → σ' → Prop) (Q : θ → θ' → Prop) (A : θ → θ' → α → α' → Prop) (C : γ → γ' → Prop)
    (R : (c : γ) → (c' : γ') → ρ c → ρ' c' → Prop) (B : β → β' → Prop) : Prop where
  handle : ∀ q q', Q q q' → Related C R (A q q') (sv.handle q) (sv'.handle q')
  exec : ∀ s s' c c' o r t, S s s' → C c c' → sv.exec s c o = some (r, t) →
    ∃ r' t', sv'.exec s' c' o = some (r', t') ∧ R c c' r r' ∧ S t t'
  work : ∀ s s' b b' t, S s s' → B b b' → sv.work s b = some t →
    ∃ t', sv'.work s' b' = some t' ∧ S t t'

inductive SameLabel (Q : θ → θ' → Prop) (B : β → β' → Prop) :
    Label θ κ ω β → Label θ' κ ω β' → Prop where
  | start (k : κ) {q : θ} {q' : θ'} (h : Q q q') : SameLabel Q B (.start k q) (.start k q')
  | resume (k : κ) (o : ω) : SameLabel Q B (.resume k o) (.resume k o)
  | work {b : β} {b' : β'} (h : B b b') : SameLabel Q B (.work b) (.work b')
  | cancel (k : κ) : SameLabel Q B (.cancel k) (.cancel k)

/-- Corresponding requests with corresponding coroutines. -/
structure SameTask (Q : θ → θ' → Prop) (A : θ → θ' → α → α' → Prop) (C : γ → γ' → Prop)
    (R : (c : γ) → (c' : γ') → ρ c → ρ' c' → Prop) (x : θ × Coroutine γ ρ α)
    (x' : θ' × Coroutine γ' ρ' α') : Prop where
  request : Q x.1 x'.1
  related : Related C R (A x.1 x'.1) x.2 x'.2

/-- Corresponding requests with corresponding answers. -/
structure SameAnswer (Q : θ → θ' → Prop) (A : θ → θ' → α → α' → Prop) (x : θ × α)
    (x' : θ' × α') : Prop where
  request : Q x.1 x'.1
  answer : A x.1 x'.1 x.2 x'.2

structure SameWorld (S : σ → σ' → Prop) (Q : θ → θ' → Prop) (A : θ → θ' → α → α' → Prop)
    (C : γ → γ' → Prop) (R : (c : γ) → (c' : γ') → ρ c → ρ' c' → Prop)
    (w : World σ θ α κ γ ρ) (w' : World σ' θ' α' κ γ' ρ') : Prop where
  store : S w.store w'.store
  running : ∀ k, Option.Rel (SameTask Q A C R) (w.running k) (w'.running k)
  answers : List.Forall₂ (SameAnswer Q A) w.answers w'.answers

variable {S : σ → σ' → Prop} {Q : θ → θ' → Prop} {A : θ → θ' → α → α' → Prop} {C : γ → γ' → Prop}
  {R : (c : γ) → (c' : γ') → ρ c → ρ' c' → Prop} {B : β → β' → Prop}

omit [DecidableEq κ] in
theorem sameWorld_init {s : σ} {s' : σ'} (h : S s s') :
    SameWorld S Q A C R (init s : World σ θ α κ γ ρ) (init s' : World σ' θ' α' κ γ' ρ') where
  store := h
  running _ := .none
  answers := .nil

theorem rel_update {T : θ × Coroutine γ ρ α → θ' × Coroutine γ' ρ' α' → Prop}
    {f : κ → Option (θ × Coroutine γ ρ α)} {f' : κ → Option (θ' × Coroutine γ' ρ' α')}
    (h : ∀ k, Option.Rel T (f k) (f' k)) (k : κ) {x : Option (θ × Coroutine γ ρ α)}
    {x' : Option (θ' × Coroutine γ' ρ' α')} (hx : Option.Rel T x x') (j : κ) :
    Option.Rel T (Function.update f k x j) (Function.update f' k x' j) := by
  rw [Function.update_apply, Function.update_apply]
  split
  · exact hx
  · exact h j

theorem SameWorld.settle {w : World σ θ α κ γ ρ} {w' : World σ' θ' α' κ γ' ρ'}
    (h : SameWorld S Q A C R w w') (k : κ) {q : θ} {q' : θ'} (hq : Q q q')
    {p : Coroutine γ ρ α} {p' : Coroutine γ' ρ' α'} (hp : Related C R (A q q') p p') :
    SameWorld S Q A C R (w.settle k q p) (w'.settle k q' p') := by
  cases hp with
  | done ha =>
    refine ⟨h.store, rel_update h.running k .none, ?_⟩
    exact List.rel_append h.answers (.cons ⟨hq, ha⟩ .nil)
  | await hc hnext =>
    exact ⟨h.store, rel_update h.running k (.some ⟨hq, .await hc hnext⟩), h.answers⟩

theorem related_step (hsim : Simulates sv sv' S Q A C R B) {w t : World σ θ α κ γ ρ}
    {w' : World σ' θ' α' κ γ' ρ'} (h : SameWorld S Q A C R w w') {l : Label θ κ ω β}
    {l' : Label θ' κ ω β'} (hl : SameLabel Q B l l') (hstep : step sv w l = some t) :
    ∃ t', step sv' w' l' = some t' ∧ SameWorld S Q A C R t t' := by
  cases moves_iff.mp hstep with
  | start k q hfree =>
    cases hl with
    | start k hq =>
      have hrel := h.running k
      rw [hfree] at hrel
      cases hfree' : w'.running k with
      | some x => rw [hfree'] at hrel; cases hrel
      | none =>
        exact ⟨_, moves_iff.mpr (.start k _ hfree'), h.settle k hq (hsim.handle _ _ hq)⟩
  | resume k o q c next r s hrunning hexec =>
    cases hl
    have hrel := h.running k
    rw [hrunning] at hrel
    cases hrunning' : w'.running k with
    | none => rw [hrunning'] at hrel; cases hrel
    | some x =>
      obtain ⟨q', p'⟩ := x
      rw [hrunning'] at hrel
      cases hrel with
      | some htask =>
        obtain ⟨hq, hrelated⟩ := htask
        cases hrelated with
        | await hc hnext =>
          obtain ⟨r', s', hexec', hr, hs⟩ := hsim.exec _ _ _ _ _ _ _ h.store hc hexec
          refine ⟨_, moves_iff.mpr (.resume k o _ _ _ r' s' hrunning' hexec'), ?_⟩
          have hsame : SameWorld S Q A C R { w with store := s } { w' with store := s' } :=
            ⟨hs, h.running, h.answers⟩
          exact hsame.settle k hq (hnext r r' hr)
  | work b s hwork =>
    cases hl with
    | work hb =>
      obtain ⟨s', hwork', hs⟩ := hsim.work _ _ _ _ _ h.store hb hwork
      exact ⟨_, moves_iff.mpr (.work _ s' hwork'), hs, h.running, h.answers⟩
  | cancel k =>
    cases hl
    exact ⟨_, moves_iff.mpr (.cancel k), h.store, rel_update h.running k .none, h.answers⟩

/-- **Two servers.** -/
theorem related_run (hsim : Simulates sv sv' S Q A C R B) {ls : List (Label θ κ ω β)}
    {ls' : List (Label θ' κ ω β')} (hls : List.Forall₂ (SameLabel Q B) ls ls')
    {w t : World σ θ α κ γ ρ} {w' : World σ' θ' α' κ γ' ρ'} (h : SameWorld S Q A C R w w')
    (hrun : run (step sv) w ls = some t) :
    ∃ t', run (step sv') w' ls' = some t' ∧ SameWorld S Q A C R t t' := by
  induction hls generalizing w w' with
  | nil =>
    cases hrun
    exact ⟨w', rfl, h⟩
  | cons hl _ ih =>
    obtain ⟨u, hu, hrun⟩ := run_cons_some.mp hrun
    obtain ⟨u', hu', hsame⟩ := related_step hsim h hl hu
    obtain ⟨t', ht', hsame⟩ := ih hsame hrun
    exact ⟨t', run_cons_some.mpr ⟨u', hu', ht'⟩, hsame⟩

end Related

/-! ## Requests that are no more than work -/

/-- Each call that the coroutine awaits leaves the store as it is, or does what `W` does. -/
def Harmless (sv : Server σ θ α γ ρ ω β) (W : β → Prop) : Coroutine γ ρ α → Prop
  | .done _ => True
  | .await c next =>
    (∀ s o r t, sv.exec s c o = some (r, t) → t = s ∨ ∃ b, W b ∧ sv.work s b = some t) ∧
      ∀ r, Harmless sv W (next r)

/-- Without the requests with `p`, those that run and those that have been answered. -/
def World.without (p : θ → Bool) (w : World σ θ α κ γ ρ) : World σ θ α κ γ ρ where
  store := w.store
  running k := (w.running k).filter fun x => !p x.1
  answers := w.answers.filter fun x => !p x.1

omit [DecidableEq κ] in
theorem running_without {p : θ → Bool} {w : World σ θ α κ γ ρ} {k : κ} {q : θ}
    {c : Coroutine γ ρ α} (h : w.running k = some (q, c)) :
    (w.without p).running k = if p q then none else some (q, c) := by
  rw [World.without]
  simp only [h]
  cases hq : p q <;> simp [Option.filter, hq]

theorem update_without (p : θ → Bool) (f : κ → Option (θ × Coroutine γ ρ α)) (k : κ)
    (x : Option (θ × Coroutine γ ρ α)) :
    (fun j => (Function.update f k x j).filter fun x => !p x.1) =
      Function.update (fun j => (f j).filter fun x => !p x.1) k (x.filter fun x => !p x.1) := by
  funext j
  by_cases hj : j = k
  · subst hj
    rw [Function.update_self, Function.update_self]
  · rw [Function.update_of_ne hj, Function.update_of_ne hj]

theorem without_settle {p : θ → Bool} (w : World σ θ α κ γ ρ) (k : κ) {q : θ} (hq : p q = false)
    (c : Coroutine γ ρ α) : (w.settle k q c).without p = (w.without p).settle k q c := by
  have hupdate := update_without p w.running k
  cases c with
  | done a => simp [World.settle, World.without, hq, hupdate]
  | await c next => simp [World.settle, World.without, hupdate, Option.filter_some, hq]

theorem without_settle_of {p : θ → Bool} (w : World σ θ α κ γ ρ) {k : κ} {q : θ} (hq : p q = true)
    (hfree : (w.without p).running k = none) (c : Coroutine γ ρ α) :
    (w.settle k q c).without p = w.without p := by
  have hupdate := update_without p w.running k
  have hself : Function.update (w.without p).running k none = (w.without p).running :=
    Function.update_eq_self_iff.mpr hfree.symm
  cases c with
  | done a => simpa [World.settle, World.without, hq, hupdate] using hself
  | await c next => simpa [World.settle, World.without, hupdate, Option.filter_some, hq] using hself

/-- Every task of a request with `p` is harmless. -/
def Tame (sv : Server σ θ α γ ρ ω β) (W : β → Prop) (p : θ → Bool) (w : World σ θ α κ γ ρ) :
    Prop := ∀ k q c, w.running k = some (q, c) → p q = true → Harmless sv W c

variable {W : β → Prop} {p : θ → Bool}

omit [DecidableEq κ] in
theorem tame_init (s : σ) : Tame sv W p (init s : World σ θ α κ γ ρ) :=
  fun _ _ _ h => by cases h

theorem Tame.settle {w : World σ θ α κ γ ρ} (h : Tame sv W p w) (k : κ) {q : θ}
    {c : Coroutine γ ρ α} (hc : p q = true → Harmless sv W c) : Tame sv W p (w.settle k q c) := by
  intro j q' c' hj hq'
  rcases running_of_settle hj with hj | ⟨hx, -⟩
  · exact h j q' c' hj hq'
  · cases hx
    exact hc hq'

theorem tame_step (hp : ∀ q, p q = true → Harmless sv W (sv.handle q)) {w t : World σ θ α κ γ ρ}
    (h : Tame sv W p w) {l : Label θ κ ω β} (hstep : step sv w l = some t) : Tame sv W p t := by
  cases moves_iff.mp hstep with
  | start k q hfree => exact h.settle k (hp q)
  | resume k o q c next r s hrunning hexec =>
    have hw : Tame sv W p { w with store := s } := h
    exact hw.settle k fun hq => (h k q _ hrunning hq).2 r
  | work b s hwork => exact h
  | cancel k => exact fun j q c hj => h j q c (running_of_cancel hj)

/-- The second run is the first one without the starts with `p`; some replies are gone, or have
become work with `W`. -/
inductive Erases (W : β → Prop) (p : θ → Bool) :
    List (Label θ κ ω β) → List (Label θ κ ω β) → Prop where
  | nil : Erases W p [] []
  | keep (l : Label θ κ ω β) {ls ls' : List (Label θ κ ω β)}
      (hl : ∀ k q, l = .start k q → p q = false) (h : Erases W p ls ls') :
      Erases W p (l :: ls) (l :: ls')
  | start (k : κ) (q : θ) {ls ls' : List (Label θ κ ω β)} (hq : p q = true)
      (h : Erases W p ls ls') : Erases W p (.start k q :: ls) ls'
  | resume (k : κ) (o : ω) {ls ls' : List (Label θ κ ω β)} (h : Erases W p ls ls') :
      Erases W p (.resume k o :: ls) ls'
  | work (k : κ) (o : ω) (b : β) {ls ls' : List (Label θ κ ω β)} (hb : W b)
      (h : Erases W p ls ls') : Erases W p (.resume k o :: ls) (.work b :: ls')

theorem without_step {w t : World σ θ α κ γ ρ} (h : Tame sv W p w) {l : Label θ κ ω β}
    (hstep : step sv w l = some t) :
    ∃ ms, run (step sv) (w.without p) ms = some (t.without p) ∧
      ∀ ls ls', Erases W p ls ls' → Erases W p (l :: ls) (ms ++ ls') := by
  cases moves_iff.mp hstep with
  | start k q hfree =>
    have hfree' : (w.without p).running k = none := by rw [World.without]; simp only [hfree]; rfl
    cases hq : p q with
    | true =>
      refine ⟨[], ?_, fun ls ls' => .start k q hq⟩
      rw [without_settle_of w hq hfree', run_nil]
    | false =>
      refine ⟨[.start k q], ?_, fun ls ls' => .keep _ fun k' q' hl => ?_⟩
      · rw [without_settle w k hq]
        exact run_cons_some.mpr ⟨_, moves_iff.mpr (.start k q hfree'), rfl⟩
      · cases hl
        exact hq
  | resume k o q c next r s hrunning hexec =>
    have hrunning' := running_without (p := p) hrunning
    cases hq : p q with
    | true =>
      rw [hq, if_pos rfl] at hrunning'
      have hgone := without_settle_of { w with store := s } hq hrunning' (next r)
      rcases (h k q _ hrunning hq).1 _ _ _ _ hexec with rfl | ⟨b, hb, hwork⟩
      · exact ⟨[], by rw [hgone, run_nil], fun ls ls' => .resume k o⟩
      · refine ⟨[.work b], ?_, fun ls ls' => .work k o b hb⟩
        rw [hgone]
        exact run_cons_some.mpr ⟨_, moves_iff.mpr (.work b s hwork), rfl⟩
    | false =>
      rw [hq, if_neg Bool.false_ne_true] at hrunning'
      refine ⟨[.resume k o], ?_, fun ls ls' => .keep _ fun k' q' hl => by cases hl⟩
      rw [without_settle _ k hq]
      exact run_cons_some.mpr ⟨_, moves_iff.mpr (.resume k o q c next r s hrunning' hexec), rfl⟩
  | work b s hwork =>
    exact ⟨[.work b], run_cons_some.mpr ⟨_, moves_iff.mpr (.work b s hwork), rfl⟩,
      fun ls ls' => .keep _ fun k' q' hl => by cases hl⟩
  | cancel k =>
    refine ⟨[.cancel k], run_cons_some.mpr ⟨_, moves_iff.mpr (.cancel k), ?_⟩,
      fun ls ls' => .keep _ fun k' q' hl => by cases hl⟩
    have hupdate := update_without p w.running k none
    simp [World.without, hupdate]

/-- **Requests that are no more than work** can be left out: what is left is a run too. -/
theorem without_run (hp : ∀ q, p q = true → Harmless sv W (sv.handle q))
    {ls : List (Label θ κ ω β)} {w t : World σ θ α κ γ ρ} (h : Tame sv W p w)
    (hrun : run (step sv) w ls = some t) :
    ∃ ls', run (step sv) (w.without p) ls' = some (t.without p) ∧ Erases W p ls ls' := by
  induction ls generalizing w with
  | nil =>
    cases hrun
    exact ⟨[], rfl, .nil⟩
  | cons l ls ih =>
    obtain ⟨u, hu, hrun⟩ := run_cons_some.mp hrun
    obtain ⟨ms, hms, herase⟩ := without_step h hu
    obtain ⟨ls', hls', herase'⟩ := ih (tame_step hp h hu) hrun
    exact ⟨ms ++ ls', run_append_some.mpr ⟨_, hms, hls'⟩, herase ls ls' herase'⟩

/-! ## What an answer promises -/

/-- The coroutine answers only with what `post` says of the store then, whatever is done to the
store at its awaits: any change that `rely` allows, between states with `I`. -/
def Ensures (exec : σ → (c : γ) → ω → Option (ρ c × σ)) (I : σ → Prop) (rely : σ → σ → Prop)
    (post : α → σ → Prop) : Coroutine γ ρ α → σ → Prop
  | .done a, s => post a s
  | .await c next, s => ∀ t, I t → rely s t → ∀ o r u, exec t c o = some (r, u) →
    Ensures exec I rely post (next r) u

/-- Whatever the store replies, the answer has `P`. -/
def Returns (P : α → Prop) : Coroutine γ ρ α → Prop
  | .done a => P a
  | .await _ next => ∀ r, Returns P (next r)

theorem returns_of_forall {P : α → Prop} (h : ∀ a, P a) (p : Coroutine γ ρ α) : Returns P p := by
  induction p with
  | done a => exact h a
  | await c next ih => exact ih

theorem Returns.ensures {exec : σ → (c : γ) → ω → Option (ρ c × σ)} {I : σ → Prop}
    {rely : σ → σ → Prop} {P : α → Prop} {post : α → σ → Prop} {p : Coroutine γ ρ α}
    (h : Returns P p) (hP : ∀ a s, P a → post a s) (s : σ) : Ensures exec I rely post p s := by
  induction p generalizing s with
  | done a => exact hP a s h
  | await c next ih => exact fun t _ _ o r u _ => ih r (h r) u

/-- A change that everybody allows. -/
structure Rely (sv : Server σ θ α γ ρ ω β) (I : σ → Prop) (rely : σ → σ → Prop)
    (post : θ → α → σ → Prop) : Prop where
  refl : ∀ s, rely s s
  trans : ∀ s t u, rely s t → rely t u → rely s u
  exec : ∀ s c o r t, I s → sv.exec s c o = some (r, t) → I t ∧ rely s t
  work : ∀ s b t, I s → sv.work s b = some t → I t ∧ rely s t
  stable : ∀ q a s t, post q a s → rely s t → post q a t
  handle : ∀ q s, I s → Ensures sv.exec I rely (post q) (sv.handle q) s

variable {I : σ → Prop} {rely : σ → σ → Prop} {post : θ → α → σ → Prop}

theorem Ensures.later (h : Rely sv I rely post) {q : θ} {p : Coroutine γ ρ α} {s t : σ}
    (hp : Ensures sv.exec I rely (post q) p s) (hst : rely s t) :
    Ensures sv.exec I rely (post q) p t := by
  cases p with
  | done a => exact h.stable q a s t hp hst
  | await c next => exact fun u hI htu => hp u hI (h.trans s t u hst htu)

/-- Every task will answer as it should, and every answer has. -/
structure Kept (sv : Server σ θ α γ ρ ω β) (I : σ → Prop) (rely : σ → σ → Prop)
    (post : θ → α → σ → Prop) (w : World σ θ α κ γ ρ) : Prop where
  store : I w.store
  running : ∀ k q p, w.running k = some (q, p) → Ensures sv.exec I rely (post q) p w.store
  answers : ∀ x ∈ w.answers, post x.1 x.2 w.store

omit [DecidableEq κ] in
theorem kept_init {s : σ} (h : I s) : Kept sv I rely post (init s : World σ θ α κ γ ρ) where
  store := h
  running _ _ _ hp := by cases hp
  answers _ hx := by cases hx

omit [DecidableEq κ] in
/-- Time passes. -/
theorem Kept.later (h : Rely sv I rely post) {w : World σ θ α κ γ ρ} (hw : Kept sv I rely post w)
    {s : σ} (hs : I s) (hrely : rely w.store s) : Kept sv I rely post { w with store := s } where
  store := hs
  running k q p hp := (hw.running k q p hp).later h hrely
  answers x hx := h.stable _ _ _ _ (hw.answers x hx) hrely

theorem Kept.settle {w : World σ θ α κ γ ρ} (hw : Kept sv I rely post w) (k : κ) {q : θ}
    {p : Coroutine γ ρ α} (hp : Ensures sv.exec I rely (post q) p w.store) :
    Kept sv I rely post (w.settle k q p) := by
  have hstore : (w.settle k q p).store = w.store := by cases p <;> rfl
  refine ⟨hstore ▸ hw.store, fun j q' p' hj => ?_, fun x hx => ?_⟩
  · rw [hstore]
    rcases running_of_settle hj with hj | ⟨hx, -⟩
    · exact hw.running j q' p' hj
    · cases hx
      exact hp
  · rw [hstore]
    cases p with
    | await c next => exact hw.answers x hx
    | done a =>
      rcases List.mem_append.mp hx with hx | hx
      · exact hw.answers x hx
      · obtain rfl := List.mem_singleton.mp hx
        exact hp

theorem kept_step (h : Rely sv I rely post) {w t : World σ θ α κ γ ρ}
    (hw : Kept sv I rely post w) {l : Label θ κ ω β} (hstep : step sv w l = some t) :
    Kept sv I rely post t := by
  cases moves_iff.mp hstep with
  | start k q hfree => exact hw.settle k (h.handle q _ hw.store)
  | resume k o q c next r s hrunning hexec =>
    obtain ⟨hs, hrely⟩ := h.exec _ _ _ _ _ hw.store hexec
    exact (hw.later h hs hrely).settle k
      (hw.running k q _ hrunning _ hw.store (h.refl _) o r s hexec)
  | work b s hwork =>
    obtain ⟨hs, hrely⟩ := h.work _ _ _ hw.store hwork
    exact hw.later h hs hrely
  | cancel k =>
    exact ⟨hw.store, fun j q p hj => hw.running j q p (running_of_cancel hj), hw.answers⟩

theorem rely_step (h : Rely sv I rely post) {w t : World σ θ α κ γ ρ} (hw : I w.store)
    {l : Label θ κ ω β} (hstep : step sv w l = some t) : I t.store ∧ rely w.store t.store := by
  have hsettle : ∀ (w : World σ θ α κ γ ρ) k q p, (w.settle k q p).store = w.store := by
    intro w k q p
    cases p <;> rfl
  cases moves_iff.mp hstep with
  | start k q hfree =>
    rw [hsettle]
    exact ⟨hw, h.refl _⟩
  | resume k o q c next r s hrunning hexec =>
    rw [hsettle]
    exact h.exec _ _ _ _ _ hw hexec
  | work b s hwork => exact h.work _ _ _ hw hwork
  | cancel k => exact ⟨hw, h.refl _⟩

/-- **The change that a run makes** is one that everybody allows. -/
theorem rely_run (h : Rely sv I rely post) {w t : World σ θ α κ γ ρ} (hw : I w.store)
    {ls : List (Label θ κ ω β)} (hrun : run (step sv) w ls = some t) :
    I t.store ∧ rely w.store t.store := by
  refine run_invariant (I := fun t => I t.store ∧ rely w.store t.store) (fun u l t hu hstep => ?_)
    ⟨hw, h.refl _⟩ hrun
  obtain ⟨hI, hrely⟩ := rely_step h hu.1 hstep
  exact ⟨hI, h.trans _ _ _ hu.2 hrely⟩

/-- **What an answer promises** is kept in every state after it. -/
theorem answers_run (h : Rely sv I rely post) {s : σ} (hs : I s) {ls : List (Label θ κ ω β)}
    {w : World σ θ α κ γ ρ} (hrun : run (step sv) (init s) ls = some w) :
    ∀ x ∈ w.answers, post x.1 x.2 w.store :=
  (run_invariant (fun _ _ _ hw hstep => kept_step h hw hstep) (kept_init hs) hrun).answers

end Lib.Coroutines
