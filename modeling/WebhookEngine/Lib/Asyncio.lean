import Mathlib.Data.List.Perm.Subperm
import Mathlib.Data.Rat.Defs
import WebhookEngine.Lib.Table

/-!
# Tasks, their cancellation, and what they share

The part of `asyncio` that decides how a group of tasks ends. A task runs until it returns
or is cancelled, and what has happened to it stays. `gather` awaits a group; when the
task that awaits it is cancelled, every unfinished child is, and so it is when a
`wait_for` around it runs out of time. A lock has one holder at most, a semaphore as many as
its value says; in which order those who wait are let in is left open.

* `gathered_cancel`: a cancelled group has nothing left to wait for;
* `cancel_of_gathered`: a group that has ended cannot be cancelled;
* `Semaphore.length_le`: tasks that all hold a semaphore are as many as its value at most.
-/

namespace Lib.Asyncio

inductive Fate where
  | running
  | returned (at_ : ℚ)
  | cancelled (at_ : ℚ)
  deriving DecidableEq, Repr

/-- A task, and when it would return if it is let run. -/
structure Child (κ : Type*) where
  id : κ
  due : ℚ
  fate : Fate
  deriving DecidableEq

variable {κ : Type*}

def Child.done (t : Child κ) : Bool := t.fate ≠ .running

/-- `task.cancel()` of a task that catches no `CancelledError`. -/
def Child.cancel (now : ℚ) (t : Child κ) : Child κ :=
  if t.done then t else { t with fate := .cancelled now }

def Child.finish (now : ℚ) (t : Child κ) : Child κ := { t with fate := .returned now }

@[simp] theorem cancel_id (now : ℚ) (t : Child κ) : (t.cancel now).id = t.id := by
  unfold Child.cancel
  split <;> rfl

theorem cancel_of_done {now : ℚ} {t : Child κ} (h : t.done = true) : t.cancel now = t := if_pos h

theorem cancel_of_running {now : ℚ} {t : Child κ} (h : t.done = false) :
    (t.cancel now).fate = .cancelled now := by
  unfold Child.cancel
  rw [if_neg (by rw [h]; exact Bool.false_ne_true)]

theorem done_cancel (now : ℚ) (t : Child κ) : (t.cancel now).done = true := by
  cases h : t.done with
  | true => rw [cancel_of_done h, h]
  | false => simp [Child.done, cancel_of_running h]

/-- The tasks that one `gather` awaits. -/
abbrev Gather (κ : Type*) := Table (Child.id : Child κ → κ)

/-- `gather` has nothing left to wait for. -/
def gathered (g : Gather κ) : Bool := g.rows.all Child.done

/-- The unfinished tasks. -/
def unfinished (g : Gather κ) : List (Child κ) := g.rows.filter fun t => !t.done

def cancelAll (now : ℚ) (g : Gather κ) : Gather κ :=
  g.update (fun _ => true) (Child.cancel now) (cancel_id now)

theorem gathered_iff {g : Gather κ} : gathered g = true ↔ ∀ t ∈ g.rows, t.done = true :=
  List.all_eq_true

theorem unfinished_eq_nil {g : Gather κ} : unfinished g = [] ↔ gathered g = true := by
  unfold unfinished
  rw [List.filter_eq_nil_iff, gathered_iff]
  simp

theorem mem_cancelAll {now : ℚ} {g : Gather κ} {t : Child κ} :
    t ∈ (cancelAll now g).rows ↔ ∃ t₀ ∈ g.rows, t₀.cancel now = t := by
  simp [cancelAll, Table.update]

/-- A cancelled group has ended. -/
theorem gathered_cancel (now : ℚ) (g : Gather κ) : gathered (cancelAll now g) = true := by
  rw [gathered_iff]
  intro t ht
  obtain ⟨t₀, -, rfl⟩ := mem_cancelAll.mp ht
  exact done_cancel now t₀

/-- A group that has ended cannot be cancelled. -/
theorem cancel_of_gathered {now : ℚ} {g : Gather κ} (h : gathered g = true) {t : Child κ} :
    t ∈ (cancelAll now g).rows ↔ t ∈ g.rows := by
  rw [gathered_iff] at h
  rw [mem_cancelAll]
  constructor
  · rintro ⟨t₀, ht₀, rfl⟩
    rw [cancel_of_done (h t₀ ht₀)]
    exact ht₀
  · intro ht
    exact ⟨t, ht, cancel_of_done (h t ht)⟩

/-! ## Locks and semaphores -/

variable {τ : Type*}

/-- `asyncio.Lock`. -/
structure Lock (τ : Type*) where
  holder : Option τ

/-- `none` while another task holds the lock. -/
def Lock.acquire (l : Lock τ) (t : τ) : Option (Lock τ) :=
  if l.holder.isNone then some ⟨some t⟩ else none

def Lock.release : Lock τ := ⟨none⟩

theorem Lock.acquire_eq_some {l l' : Lock τ} {t : τ} :
    l.acquire t = some l' ↔ l.holder = none ∧ l' = ⟨some t⟩ := by
  rw [acquire]
  cases h : l.holder with
  | none => simp [eq_comm]
  | some t' => simp

/-- `asyncio.Semaphore(value)`: never more holders than its value. -/
structure Semaphore (τ : Type*) where
  value : Nat
  holders : List τ
  admitted : holders.length ≤ value

def Semaphore.new (value : Nat) : Semaphore τ := ⟨value, [], Nat.zero_le _⟩

/-- `none` while no permit is free. -/
def Semaphore.acquire (s : Semaphore τ) (t : τ) : Option (Semaphore τ) :=
  if h : s.holders.length < s.value then some ⟨s.value, t :: s.holders, h⟩ else none

theorem Semaphore.acquire_eq_some {s s' : Semaphore τ} {t : τ} (h : s.acquire t = some s') :
    s'.value = s.value ∧ s'.holders = t :: s.holders := by
  obtain ⟨hfree, h⟩ := Option.dite_none_right_eq_some.mp h
  cases h
  exact ⟨rfl, rfl⟩

/-- Tasks that all hold a semaphore are as many as its value at most. -/
theorem Semaphore.length_le (s : Semaphore τ) {ts : List τ} (hn : ts.Nodup)
    (hts : ∀ t ∈ ts, t ∈ s.holders) : ts.length ≤ s.value :=
  (List.subperm_of_subset hn hts).length_le.trans s.admitted

variable [DecidableEq τ]

def Semaphore.release (s : Semaphore τ) (t : τ) : Semaphore τ :=
  ⟨s.value, s.holders.erase t, List.length_erase_le.trans s.admitted⟩

/-- The other holders keep the semaphore. -/
theorem Semaphore.mem_release {s : Semaphore τ} {t t' : τ} (hne : t' ≠ t) (h : t' ∈ s.holders) :
    t' ∈ (s.release t).holders := (List.mem_erase_of_ne hne).mpr h

end Lib.Asyncio
