import WebhookEngine.Engine

/-!
# Store calls whose reply is lost

The engines of `Engine`, where besides a store call of a dispatch may take effect and raise: a
commit whose answer does not arrive. The store is left as if the call had returned, the
dispatch as if it had not.

* `lost_moves`: what such a step can do.
-/

namespace WebhookEngine.LostReplies

open Lib Dispatcher Stores.Queue Engine

variable {py : Python} {q : LeaseQueue} {ι : Type}

inductive Label (ι : Type) where
  | engine (l : Engine.Label ι)
  | lost (i : ι) (now : Datetime) (id : DeliveryId) (a : TaskAction)

/-- A step with a store call, as it is when the call returns and when it raises. -/
def withReply (ok : Bool) : TaskAction → Option TaskAction
  | .settle _ => some (.settle ok)
  | .append error _ => some (.append error ok)
  | .bury _ => some (.bury ok)
  | .start _ | .post => none

section
variable (cfg : WebhookDispatchConfig) (d : WebhookDispatcher py)

/-- The record of a dispatch, and the store call of its step. -/
def called (w : World q ι) (i : ι) (now : Datetime) (id : DeliveryId) (a : TaskAction) :
    Option (DeliveryRecord × Call) :=
  ((w.ticks i).inflight.find? id).bind fun t =>
    (dispatchStep cfg d t.record now t.phase a).bind fun x => x.1.map fun call => (t.record, call)

/-- The store call of a dispatch that takes effect in a step. -/
def effective (w : World q ι) : Label ι → Option (DeliveryRecord × Call)
  | .engine (.act i now (.task id a)) => called cfg d w i now id a
  | .lost i now id a => (withReply true a).bind (called cfg d w i now id)
  | _ => none

variable [DecidableEq ι]

/-- A dispatch whose store call takes effect and raises. -/
def lostStep (w : World q ι) (i : ι) (now : Datetime) (id : DeliveryId) (a : TaskAction) :
    Option (World q ι) :=
  match w.ticks i, withReply true a, withReply false a with
  | .dispatching tasks, some returns, some raises =>
    (tasks.find? id).bind fun t =>
      (dispatchStep cfg d t.record now t.phase returns).bind fun x =>
        (dispatchStep cfg d t.record now t.phase raises).bind fun y =>
          (execute q w.store id x.1).map fun s =>
            { w with
              store := s
              ticks := Function.update w.ticks i (.dispatching (setTask tasks id y.2)) }
  | _, _, _ => none

variable (q) in
def step (w : World q ι) : Label ι → Option (World q ι)
  | .engine l => Engine.step q cfg d w l
  | .lost i now id a => lostStep cfg d w i now id a

end

variable {cfg : WebhookDispatchConfig} {d : WebhookDispatcher py}

theorem called_eq {w : World q ι} {i : ι} {now : Datetime} {id : DeliveryId} {a : TaskAction}
    {t : Task} {call : Option Call} {phase : Option Phase}
    (ht : (w.ticks i).inflight.find? id = some t)
    (hstep : dispatchStep cfg d t.record now t.phase a = some (call, phase)) :
    called cfg d w i now id a = call.map fun call => (t.record, call) := by
  rw [called, ht, Option.bind_some, hstep, Option.bind_some]

variable [DecidableEq ι]

/-- What a step with a lost reply can do. -/
theorem lost_moves {w w' : World q ι} {i : ι} {now : Datetime} {id : DeliveryId} {a : TaskAction}
    (h : lostStep cfg d w i now id a = some w') :
    ∃ tasks t returns raises call phase call' phase' s, w.ticks i = .dispatching tasks ∧
      tasks.find? id = some t ∧ withReply true a = some returns ∧
      withReply false a = some raises ∧
      dispatchStep cfg d t.record now t.phase returns = some (call, phase) ∧
      dispatchStep cfg d t.record now t.phase raises = some (call', phase') ∧
      execute q w.store id call = some s ∧
      w' = { w with
        store := s
        ticks := Function.update w.ticks i (.dispatching (setTask tasks id phase')) } := by
  unfold lostStep at h
  split at h
  next tasks returns raises htick hreturns hraises =>
    obtain ⟨t, ht, h⟩ := Option.bind_eq_some_iff.mp h
    obtain ⟨⟨call, phase⟩, hx, h⟩ := Option.bind_eq_some_iff.mp h
    obtain ⟨⟨call', phase'⟩, hy, h⟩ := Option.bind_eq_some_iff.mp h
    obtain ⟨s, hs, h⟩ := Option.map_eq_some_iff.mp h
    exact ⟨tasks, t, returns, raises, call, phase, call', phase', s, htick, ht, hreturns, hraises,
      hx, hy, hs, h.symm⟩
  · cases h

end WebhookEngine.LostReplies
