import Mathlib.Logic.Function.Basic
import Mathlib.Data.List.Induction
import WebhookEngine.Lib.Run

/-!
# Calls of two commands, interleaved

A call sends one atomic command, and perhaps a second one made of what the first
has read. `serial` executes calls one after another; `step` interleaves the
commands of any number of clients, and logs each call with its returned value when
it returns.

* `logged_snoc`: a log whose calls are serial, entry by entry;
* `serial_of_run`: if every second command finds what its call has read still
  holding, the calls are serial in the order in which they returned.
-/

namespace Lib.Serial

open Run

/-- `first` is the first command of a call: it returns, or hands on the second command. -/
structure System (σ γ π ρ : Type*) where
  first : σ → γ → σ × (ρ ⊕ π)
  second : σ → π → σ × ρ
  first_reads : ∀ s c p, (first s c).2 = .inr p → (first s c).1 = s

variable {σ γ π ρ ι : Type*}

/-- Both commands of a call with nothing between them. -/
def System.call (sys : System σ γ π ρ) (s : σ) (c : γ) : σ × ρ :=
  match sys.first s c with
  | (t, .inl r) => (t, r)
  | (t, .inr p) => sys.second t p

def System.serial (sys : System σ γ π ρ) : σ → List γ → σ × List ρ
  | s, [] => (s, [])
  | s, c :: cs =>
    let (t, r) := sys.call s c
    let (u, rs) := sys.serial t cs
    (u, r :: rs)

variable {sys : System σ γ π ρ}

theorem serial_cons (s : σ) (c : γ) (cs : List γ) : sys.serial s (c :: cs) =
    ((sys.serial (sys.call s c).1 cs).1, (sys.call s c).2 :: (sys.serial (sys.call s c).1 cs).2) :=
  rfl

theorem serial_append (s : σ) (cs ds : List γ) : sys.serial s (cs ++ ds) =
    ((sys.serial (sys.serial s cs).1 ds).1,
      (sys.serial s cs).2 ++ (sys.serial (sys.serial s cs).1 ds).2) := by
  induction cs generalizing s with
  | nil => rfl
  | cons c cs ih =>
    rw [List.cons_append, serial_cons, serial_cons, ih]
    rfl

theorem serial_snoc (s : σ) (cs : List γ) (c : γ) : sys.serial s (cs ++ [c]) =
    ((sys.call (sys.serial s cs).1 c).1,
      (sys.serial s cs).2 ++ [(sys.call (sys.serial s cs).1 c).2]) :=
  serial_append s cs [c]

/-- What every call keeps, any number of calls keeps. -/
theorem serial_preserves {I : σ → Prop} (hcall : ∀ s c, I s → I (sys.call s c).1) {s : σ}
    (h : I s) (cs : List γ) : I (sys.serial s cs).1 := by
  induction cs generalizing s with
  | nil => exact h
  | cons c cs ih => exact ih (hcall s c h)

/-- The calls of a log, executed from `s`, return as logged and end in `t`. -/
def Logged (sys : System σ γ π ρ) (s : σ) (log : List (γ × ρ)) (t : σ) : Prop :=
  sys.serial s (log.map Prod.fst) = (t, log.map Prod.snd)

theorem logged_snoc {s t : σ} {log : List (γ × ρ)} {c : γ} {r : ρ} :
    Logged sys s (log ++ [(c, r)]) t ↔ ∃ u, Logged sys s log u ∧ sys.call u c = (t, r) := by
  unfold Logged
  simp only [List.map_append, List.map_cons, List.map_nil, serial_snoc, Prod.mk.injEq]
  constructor
  · rintro ⟨ht, hreturned⟩
    obtain ⟨hlog, hr⟩ := List.append_inj' hreturned rfl
    exact ⟨_, Prod.ext rfl hlog, Prod.ext ht (List.cons.inj hr).1⟩
  · rintro ⟨u, hlog, hcall⟩
    rw [hlog, hcall]
    exact ⟨rfl, rfl⟩

theorem logged_left {s t : σ} {log later : List (γ × ρ)} (h : Logged sys s (log ++ later) t) :
    ∃ u, Logged sys s log u := by
  induction later using List.reverseRecOn generalizing t with
  | nil => exact ⟨t, by rwa [List.append_nil] at h⟩
  | append_singleton later e ih =>
    rw [← List.append_assoc] at h
    obtain ⟨u, hu, -⟩ := logged_snoc.mp h
    exact ih hu

/-- The state that an entry of the log has found. -/
theorem logged_at {s t : σ} {log later : List (γ × ρ)} {c : γ} {r : ρ}
    (h : Logged sys s (log ++ (c, r) :: later) t) :
    ∃ u v, Logged sys s log u ∧ sys.call u c = (v, r) := by
  rw [List.append_cons] at h
  obtain ⟨v, hv⟩ := logged_left h
  obtain ⟨u, hu, hcall⟩ := logged_snoc.mp hv
  exact ⟨u, v, hu, hcall⟩

/-! ## Interleaved -/

structure World (σ γ π ρ ι : Type*) where
  state : σ
  pending : ι → Option (γ × π)
  log : List (γ × ρ)

def start (s : σ) : World σ γ π ρ ι := ⟨s, fun _ => none, []⟩

/-- The client `i` sends the first command of a call, or the second one of its call. -/
inductive Label (γ ι : Type*) where
  | first (i : ι) (c : γ)
  | second (i : ι)

def step [DecidableEq ι] (sys : System σ γ π ρ) (w : World σ γ π ρ ι) :
    Label γ ι → Option (World σ γ π ρ ι)
  | .first i c =>
    match w.pending i, sys.first w.state c with
    | some _, _ => none
    | none, (s, .inl r) => some { w with state := s, log := w.log ++ [(c, r)] }
    | none, (s, .inr p) =>
      some { w with state := s, pending := Function.update w.pending i (some (c, p)) }
  | .second i =>
    match w.pending i with
    | none => none
    | some (c, p) =>
      let (s, r) := sys.second w.state p
      some ⟨s, Function.update w.pending i none, w.log ++ [(c, r)]⟩

/-- The second command that a step sends meets `Q` in the state that it finds. -/
def Meets (Q : σ → π → Prop) (w : World σ γ π ρ ι) : Label γ ι → Prop
  | .first _ _ => True
  | .second i => ∀ c p, w.pending i = some (c, p) → Q w.state p

instance decidableMeets {Q : σ → π → Prop} [∀ s p, Decidable (Q s p)] (w : World σ γ π ρ ι)
    (l : Label γ ι) : Decidable (Meets Q w l) :=
  match l with
  | .first _ _ => .isTrue trivial
  | .second i =>
    match h : w.pending i with
    | none => .isTrue fun c p hp => by rw [h] at hp; cases hp
    | some (_, q) =>
      decidable_of_iff (Q w.state q)
        ⟨fun hq c p hp => by rw [h] at hp; cases hp; exact hq, fun hQ => hQ _ _ h⟩

/-- The log so far is a serial execution, and every pending call would hand on its second
command again wherever `Q` holds of it. -/
structure Serialised (sys : System σ γ π ρ) (Q : σ → π → Prop) (s : σ) (w : World σ γ π ρ ι) :
    Prop where
  serial : Logged sys s w.log w.state
  reread : ∀ i c p, w.pending i = some (c, p) → ∀ t, Q t p → (sys.first t c).2 = .inr p

theorem call_of_returns {s : σ} {c : γ} {r : ρ} (h : (sys.first s c).2 = .inl r) :
    sys.call s c = ((sys.first s c).1, r) := by
  unfold System.call
  generalize sys.first s c = x at h ⊢
  obtain ⟨t, y⟩ := x
  cases h
  rfl

theorem call_of_pending {s : σ} {c : γ} {p : π} (h : (sys.first s c).2 = .inr p) :
    sys.call s c = sys.second s p := by
  have hs := sys.first_reads s c p h
  unfold System.call
  generalize sys.first s c = x at h hs ⊢
  obtain ⟨t, y⟩ := x
  cases h
  cases hs
  rfl

/-- A call that takes effect at once extends the serial execution. -/
theorem Serialised.extend {Q : σ → π → Prop} {s : σ} {w : World σ γ π ρ ι}
    (h : Serialised sys Q s w) {c : γ} {t : σ} {r : ρ} (hc : sys.call w.state c = (t, r))
    {pending : ι → Option (γ × π)}
    (hp : ∀ i c p, pending i = some (c, p) → w.pending i = some (c, p)) :
    Serialised sys Q s ⟨t, pending, w.log ++ [(c, r)]⟩ where
  serial := logged_snoc.mpr ⟨w.state, h.serial, hc⟩
  reread i d p hd := h.reread i d p (hp i d p hd)

variable [DecidableEq ι]

theorem serialised_step {Q : σ → π → Prop}
    (hQ : ∀ s c p, (sys.first s c).2 = .inr p → ∀ t, Q t p → (sys.first t c).2 = .inr p) {s : σ}
    {w w' : World σ γ π ρ ι} {l : Label γ ι} (h : Serialised sys Q s w) (hl : Meets Q w l)
    (hstep : step sys w l = some w') : Serialised sys Q s w' := by
  cases l with
  | first i c =>
    simp only [step] at hstep
    split at hstep
    · cases hstep
    next t r hi hf =>
      cases hstep
      apply h.extend _ fun _ _ _ hp => hp
      rw [call_of_returns (by rw [hf]), hf]
    next t p hi hf =>
      cases hstep
      have hp : (sys.first w.state c).2 = .inr p := by rw [hf]
      have hs := sys.first_reads _ _ _ hp
      rw [hf] at hs
      refine ⟨?_, fun j d q hj => ?_⟩
      · obtain rfl : t = w.state := hs
        exact h.serial
      · by_cases hji : j = i
        · subst hji
          simp only [Function.update_self] at hj
          cases hj
          exact hQ _ _ _ hp
        · simp only [Function.update_of_ne hji] at hj
          exact h.reread j d q hj
  | second i =>
    simp only [step] at hstep
    split at hstep
    · cases hstep
    next c p hi =>
      cases hstep
      have hagain := h.reread i c p hi _ (hl c p hi)
      apply h.extend (call_of_pending hagain)
      intro j d q hj
      by_cases hji : j = i
      · subst hji
        rw [Function.update_self] at hj
        cases hj
      · rwa [Function.update_of_ne hji] at hj

/-- **Serial in the order of the returns.** -/
theorem serial_of_run {Q : σ → π → Prop}
    (hQ : ∀ s c p, (sys.first s c).2 = .inr p → ∀ t, Q t p → (sys.first t c).2 = .inr p) {s : σ}
    {ls : List (Label γ ι)} {w : World σ γ π ρ ι} (hl : Along (step sys) (Meets Q) (start s) ls)
    (hrun : run (step sys) (start s) ls = some w) : Logged sys s w.log w.state := by
  have hstart : Serialised sys Q s (start s : World σ γ π ρ ι) := ⟨rfl, fun i c p h => by cases h⟩
  have hstep : ∀ (u : World σ γ π ρ ι) l v, Serialised sys Q s u → Meets Q u l →
      step sys u l = some v → Serialised sys Q s v :=
    fun u l v hu hl huv => serialised_step hQ hu hl huv
  exact (run_preserves hstep hl hstart hrun).serial

end Lib.Serial
