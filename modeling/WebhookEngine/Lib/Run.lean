import Mathlib.Data.List.Basic

/-!
# Runs of a partial step function

A system is a step function `σ → α → Option σ`: the label `α` carries every
choice of the environment, `none` means that the label is not enabled. `run`
executes a list of labels. The rules here are the only inductions over runs
that the rest of the development needs:

* `run_preserves`, `run_invariant`: an invariant of the steps is an invariant of the runs;
* `along_iff`: two conditions on the steps that agree under an invariant;
* `along_of_last`: what the last state tells of every step before it;
* `last_iff_along`: the exact condition under which the last state still has a property;
* `run_relates`: a reflexive and transitive relation between the two ends of
  every step holds between the two ends of every run;
* `between_iff_along`: the same, with the exact condition on the steps;
* `run_of_restricted`: a step function with fewer labels enabled has fewer runs;
* `run_flip`: a run from a state without a property to one with it has a step
  that establishes it.

`Along step P s as` says that every step of the run meets `P`.
-/

namespace Lib.Run

variable {σ α : Type*}

/-- Execute a list of labels. -/
def run (step : σ → α → Option σ) : σ → List α → Option σ
  | s, [] => some s
  | s, a :: as => (step s a).bind fun t => run step t as

/-- Every step that the run from `s` takes meets `P`. -/
def Along (step : σ → α → Option σ) (P : σ → α → Prop) : σ → List α → Prop
  | _, [] => True
  | s, a :: as => P s a ∧ ∀ t, step s a = some t → Along step P t as

variable {step : σ → α → Option σ} {P : σ → α → Prop}

@[simp] theorem run_nil (s : σ) : run step s [] = some s := rfl

theorem run_cons (s : σ) (a : α) (as : List α) :
    run step s (a :: as) = (step s a).bind fun t => run step t as := rfl

theorem run_cons_some {s t : σ} {a : α} {as : List α} :
    run step s (a :: as) = some t ↔ ∃ u, step s a = some u ∧ run step u as = some t := by
  rw [run_cons, Option.bind_eq_some_iff]

theorem run_append (s : σ) (as bs : List α) :
    run step s (as ++ bs) = (run step s as).bind fun t => run step t bs := by
  induction as generalizing s with
  | nil => rfl
  | cons a as ih =>
    rw [List.cons_append, run_cons, run_cons]
    cases step s a with
    | none => rfl
    | some u => exact ih u

theorem run_append_some {s t : σ} {as bs : List α} :
    run step s (as ++ bs) = some t ↔ ∃ u, run step s as = some u ∧ run step u bs = some t := by
  rw [run_append, Option.bind_eq_some_iff]

/-- A run of a step function that is a restriction of another one is a run of that one. -/
theorem run_of_restricted {step' : σ → α → Option σ}
    (h : ∀ s a t, step' s a = some t → step s a = some t) {as : List α} {s t : σ}
    (hr : run step' s as = some t) : run step s as = some t := by
  induction as generalizing s with
  | nil => exact hr
  | cons a as ih =>
    obtain ⟨u, hu, hr⟩ := run_cons_some.mp hr
    exact run_cons_some.mpr ⟨u, h s a u hu, ih hr⟩

@[simp] theorem along_nil (s : σ) : Along step P s [] := trivial

/-- A condition on the steps of a given run can be evaluated. -/
instance decidableAlong [h : ∀ s a, Decidable (P s a)] :
    ∀ (as : List α) (s : σ), Decidable (Along step P s as)
  | [], _ => .isTrue trivial
  | a :: as, s =>
    match h s a, e : step s a with
    | .isFalse hP, _ => .isFalse fun hA => hP hA.1
    | .isTrue hP, none => .isTrue ⟨hP, fun t ht => by rw [e] at ht; cases ht⟩
    | .isTrue hP, some u =>
      match decidableAlong as u with
      | .isFalse hu => .isFalse fun hA => hu (hA.2 u e)
      | .isTrue hu => .isTrue ⟨hP, fun t ht => by rw [e] at ht; cases ht; exact hu⟩

theorem along_append {s t : σ} {as bs : List α} (h : Along step P s (as ++ bs))
    (hr : run step s as = some t) : Along step P t bs := by
  induction as generalizing s with
  | nil => cases hr; exact h
  | cons a as ih =>
    obtain ⟨u, hu, hr⟩ := run_cons_some.mp hr
    exact ih (h.2 u hu) hr

theorem along_left {s : σ} {as bs : List α} (h : Along step P s (as ++ bs)) :
    Along step P s as := by
  induction as generalizing s with
  | nil => trivial
  | cons a as ih => exact ⟨h.1, fun u hu => ih (h.2 u hu)⟩

theorem along_of_forall {as : List α} (h : ∀ s, ∀ a ∈ as, P s a) (s : σ) : Along step P s as := by
  induction as generalizing s with
  | nil => trivial
  | cons a as ih =>
    exact ⟨h s a (List.mem_cons_self ..), fun t _ =>
      ih (fun s b hb => h s b (List.mem_cons_of_mem _ hb)) t⟩

theorem along_imp {Q : σ → α → Prop} (himp : ∀ s a, P s a → Q s a) {s : σ} {as : List α}
    (h : Along step P s as) : Along step Q s as := by
  induction as generalizing s with
  | nil => trivial
  | cons a as ih => exact ⟨himp s a h.1, fun u hu => ih (h.2 u hu)⟩

theorem along_and {Q : σ → α → Prop} {s : σ} {as : List α} (hP : Along step P s as)
    (hQ : Along step Q s as) : Along step (fun s a => P s a ∧ Q s a) s as := by
  induction as generalizing s with
  | nil => trivial
  | cons a as ih => exact ⟨⟨hP.1, hQ.1⟩, fun u hu => ih (hP.2 u hu) (hQ.2 u hu)⟩

/-- The condition of the step that a run takes after its prefix `as`. -/
theorem along_at {s t : σ} {as bs : List α} {a : α} (h : Along step P s (as ++ a :: bs))
    (hr : run step s as = some t) : P t a :=
  (along_append h hr).1

/-- **Invariant rule.** -/
theorem run_preserves {I : σ → Prop}
    (hstep : ∀ s a t, I s → P s a → step s a = some t → I t) :
    ∀ {as : List α} {s t : σ}, Along step P s as → I s → run step s as = some t → I t := by
  intro as
  induction as with
  | nil =>
    intro s t _ hI hr
    cases hr
    exact hI
  | cons a as ih =>
    intro s t hP hI hr
    obtain ⟨u, hu, hr⟩ := run_cons_some.mp hr
    exact ih (hP.2 u hu) (hstep s a u hI hP.1 hu) hr

/-- The invariant rule for steps that all keep it. -/
theorem run_invariant {I : σ → Prop} (hstep : ∀ s a t, I s → step s a = some t → I t)
    {as : List α} {s t : σ} (hI : I s) (hr : run step s as = some t) : I t :=
  run_preserves (P := fun _ _ => True) (fun s a t hI _ => hstep s a t hI)
    (along_of_forall (fun _ _ _ => trivial) s) hI hr

/-- **Exact invariant rule.** Under an invariant that the steps with `Q` keep, the steps
of a run all meet `P` if and only if they all meet `Q`. -/
theorem along_iff {I : σ → Prop} {Q : σ → α → Prop}
    (hiff : ∀ s a t, I s → step s a = some t → (P s a ↔ Q s a))
    (hstep : ∀ s a t, I s → Q s a → step s a = some t → I t) :
    ∀ {as : List α} {s t : σ}, I s → run step s as = some t →
      (Along step P s as ↔ Along step Q s as) := by
  intro as
  induction as with
  | nil =>
    intro s t _ _
    exact Iff.rfl
  | cons a as ih =>
    intro s t hI hr
    obtain ⟨u, hu, hr⟩ := run_cons_some.mp hr
    have hhead := hiff s a u hI hu
    constructor
    · rintro ⟨hP, hrest⟩
      have hQ := hhead.mp hP
      refine ⟨hQ, fun v hv => ?_⟩
      cases hu.symm.trans hv
      exact (ih (hstep s a u hI hQ hu) hr).mp (hrest u hu)
    · rintro ⟨hQ, hrest⟩
      refine ⟨hhead.mpr hQ, fun v hv => ?_⟩
      cases hu.symm.trans hv
      exact (ih (hstep s a u hI hQ hu) hr).mpr (hrest u hu)

/-- Nothing more can happen. -/
def Over (step : σ → α → Option σ) (s : σ) : Prop := ∀ a, step s a = none

/-- Where no run goes on for ever, every run can be continued to its end. -/
theorem exists_over (hwf : WellFounded fun t s => ∃ a, step s a = some t) (s : σ) :
    ∃ as t, run step s as = some t ∧ Over step t := by
  induction s using hwf.induction with
  | _ s ih =>
    by_cases hover : Over step s
    · exact ⟨[], s, rfl, hover⟩
    · obtain ⟨a, ha⟩ := not_forall.mp hover
      obtain ⟨u, hu⟩ := Option.ne_none_iff_exists'.mp ha
      obtain ⟨as, t, hr, ht⟩ := ih u ⟨a, hu⟩
      exact ⟨a :: as, t, run_cons_some.mpr ⟨u, hu, hr⟩, ht⟩

/-- What the last state of a run has, and each step hands back, every step establishes. -/
theorem along_of_last {I Q : σ → Prop}
    (hstep : ∀ s a t, I s → step s a = some t → I t ∧ (Q t → Q s)) :
    ∀ {as : List α} {s t : σ}, I s → run step s as = some t → Q t →
      Q s ∧ Along step (fun u a => ∀ v, step u a = some v → Q v) s as := by
  intro as
  induction as with
  | nil =>
    intro s t _ hr hQ
    cases hr
    exact ⟨hQ, trivial⟩
  | cons a as ih =>
    intro s t hI hr hQ
    obtain ⟨u, hu, hr⟩ := run_cons_some.mp hr
    obtain ⟨hIu, hback⟩ := hstep s a u hI hu
    obtain ⟨hQu, hrest⟩ := ih hIu hr hQ
    refine ⟨hback hQu, fun v hv => ?_, fun v hv => ?_⟩
    · cases hu.symm.trans hv
      exact hQu
    · cases hu.symm.trans hv
      exact hrest

/-- If `P` is the condition under which a step keeps `Q`, and `Q` does not come back once
lost, then the last state of a run has `Q` if and only if the first one has it and every
step meets `P`. -/
theorem last_iff_along {I Q : σ → Prop}
    (hstep : ∀ s a t, I s → step s a = some t → I t ∧ (Q t ↔ Q s ∧ P s a)) :
    ∀ {as : List α} {s t : σ}, I s → run step s as = some t →
      I t ∧ (Q t ↔ Q s ∧ Along step P s as) := by
  intro as
  induction as with
  | nil =>
    intro s t hI hr
    cases hr
    exact ⟨hI, (and_iff_left trivial).symm⟩
  | cons a as ih =>
    intro s t hI hr
    obtain ⟨u, hu, hr⟩ := run_cons_some.mp hr
    obtain ⟨hIu, hhead⟩ := hstep s a u hI hu
    obtain ⟨hIt, hrest⟩ := ih hIu hr
    refine ⟨hIt, hrest.trans ?_⟩
    rw [hhead, and_assoc]
    refine and_congr_right fun _ => and_congr_right fun _ =>
      ⟨fun halong v hv => ?_, fun h => h u hu⟩
    cases hu.symm.trans hv
    exact halong

/-- **Relation rule.** `I` is an invariant that the steps may use. -/
theorem run_relates {I : σ → Prop} {R : σ → σ → Prop} (hrefl : ∀ s, R s s)
    (htrans : ∀ s t u, R s t → R t u → R s u)
    (hstep : ∀ s a t, I s → P s a → step s a = some t → I t ∧ R s t) :
    ∀ {as : List α} {s t : σ}, Along step P s as → I s → run step s as = some t → R s t := by
  intro as
  induction as with
  | nil =>
    intro s t _ _ hr
    cases hr
    exact hrefl s
  | cons a as ih =>
    intro s t hP hI hr
    obtain ⟨u, hu, hr⟩ := run_cons_some.mp hr
    obtain ⟨hIu, hR⟩ := hstep s a u hI hP.1 hu
    exact htrans s u t hR (ih (hP.2 u hu) hIu hr)

/-- `R` holds between any two states that the run from `s` goes through. -/
def Between (step : σ → α → Option σ) (R : σ → σ → Prop) (s : σ) (as : List α) : Prop :=
  ∀ bs cs ds u v, as = bs ++ (cs ++ ds) → run step s bs = some u → run step u cs = some v → R u v

/-- **Exact relation rule.** If `P` is the condition under which a step keeps `R`,
then `R` holds between the states of a run if and only if every step meets `P`. -/
theorem between_iff_along {R : σ → σ → Prop} (hrefl : ∀ s, R s s)
    (htrans : ∀ s t u, R s t → R t u → R s u)
    (hstep : ∀ s a t, step s a = some t → (R s t ↔ P s a)) {as : List α} {s t : σ}
    (hr : run step s as = some t) : Between step R s as ↔ Along step P s as := by
  constructor
  · intro h
    induction as generalizing s with
    | nil => trivial
    | cons a as ih =>
      obtain ⟨u, hu, hr⟩ := run_cons_some.mp hr
      have hsu : R s u := h [] [a] as s u rfl rfl (by rw [run_cons, hu]; rfl)
      refine ⟨(hstep s a u hu).mp hsu, fun v hv => ?_⟩
      rw [hu] at hv
      cases hv
      apply ih hr
      intro bs cs ds x y has hx hy
      exact h (a :: bs) cs ds x y (by rw [has, List.cons_append])
        (run_cons_some.mpr ⟨u, hu, hx⟩) hy
  · rintro h bs cs ds u v rfl hu hv
    exact run_relates (I := fun _ => True) hrefl htrans
      (fun x a y _ hP hxy => ⟨trivial, (hstep x a y hxy).mpr hP⟩)
      (along_left (along_append h hu)) trivial hv

/-- **Flip.** A run from a state without `Q` to a state with `Q` has a step that
establishes `Q`. -/
theorem run_flip {Q : σ → Prop} :
    ∀ {as : List α} {s t : σ}, ¬ Q s → Q t → run step s as = some t →
      ∃ bs a cs u v, as = bs ++ a :: cs ∧ run step s bs = some u ∧ step u a = some v ∧
        run step v cs = some t ∧ ¬ Q u ∧ Q v := by
  intro as
  induction as with
  | nil =>
    intro s t hs ht hr
    cases hr
    exact absurd ht hs
  | cons a as ih =>
    intro s t hs ht hr
    obtain ⟨u, hu, hr⟩ := run_cons_some.mp hr
    by_cases hQ : Q u
    · exact ⟨[], a, as, s, u, rfl, rfl, hu, hr, hs, hQ⟩
    · obtain ⟨bs, b, cs, x, y, rfl, hx, hy, hcs, hQx, hQy⟩ := ih hQ ht hr
      exact ⟨a :: bs, b, cs, x, y, rfl, run_cons_some.mpr ⟨u, hu, hx⟩, hy, hcs, hQx, hQy⟩

end Lib.Run
