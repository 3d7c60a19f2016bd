import WebhookEngine.Subscriptions.Subscription

/-!
# What a subscription store is for

A `Registry` holds the subscriptions that stand after a sequence of calls: `create`
enters one, `delete` takes it out, the other calls change a field. `Standing` and
`Deleted` say the same of the calls themselves.

* `find?_standing`, `standing_of_find?`: the registry holds what stands;
* `find?_of_deleted`: and nothing that has been deleted.
-/

namespace WebhookEngine.Subscriptions

open Lib

abbrev Registry := Table Subscription.id

namespace Registry

def setStatus (r : Registry) (id : SubscriptionId) (status : SubscriptionStatus) : Registry :=
  r.modify id (fun s => { s with status := status }) fun _ => rfl

def apply (r : Registry) : Call → Registry
  | .create c => r.put c.subscription
  | .pause id => r.setStatus id .paused
  | .resume id => r.setStatus id .active
  | .rotateSecret id graceS secret token _ =>
    if graceS < 0 then r
    else r.modify id (fun s => { s with secret := orToken secret token }) fun _ => rfl
  | .delete id => r.erase id

def after (r : Registry) (calls : List Call) : Registry := calls.foldl apply r

theorem find?_setStatus (r : Registry) (id j : SubscriptionId) (status : SubscriptionStatus) :
    (r.setStatus id status).find? j =
      if j = id then (r.find? j).map fun s => { s with status := status } else r.find? j :=
  Table.find?_modify ..

theorem find?_create (r : Registry) (c : Creation) (id : SubscriptionId) :
    (r.apply (.create c)).find? id = if id = c.id then some c.subscription else r.find? id := by
  rw [apply, Table.find?_put]
  by_cases h : id = c.id
  · rw [if_pos h, if_pos (show c.subscription.id = id from h.symm)]
  · rw [if_neg h, if_neg (show ¬c.subscription.id = id from fun e => h e.symm)]

end Registry

/-! ## The calls themselves -/

/-- The status that a call gives to the subscription, if it gives one. -/
def Call.gives (id : SubscriptionId) : Call → Option SubscriptionStatus
  | .pause j => if j = id then some .paused else none
  | .resume j => if j = id then some .active else none
  | _ => none

/-- The last status change of the subscription. -/
def lastStatus (id : SubscriptionId) (calls : List Call) : Option SubscriptionStatus :=
  (calls.filterMap (Call.gives id)).getLast?

/-- Created and not deleted, with the calls since then. -/
structure Standing (calls : List Call) (c : Creation) (since : List Call) : Prop where
  created : ∃ before, calls = before ++ .create c :: since
  kept : Call.delete c.id ∉ since

/-- Created, and deleted by a later call. -/
def Deleted (calls : List Call) (id : SubscriptionId) : Prop :=
  ∃ before since, calls = before ++ .delete id :: since ∧ ∃ c, c.id = id ∧ .create c ∈ before

/-- The ids that `create` mints are distinct. -/
def FreshIds (calls : List Call) : Prop := (calls.filterMap Call.mints).Nodup

theorem lastStatus_cons (id : SubscriptionId) (call : Call) (calls : List Call) :
    lastStatus id (call :: calls) = (lastStatus id calls).or (call.gives id) := by
  unfold lastStatus
  rw [List.filterMap_cons]
  cases call.gives id with
  | none => simp
  | some status =>
    rw [List.getLast?_cons]
    cases (calls.filterMap (Call.gives id)).getLast? <;> rfl

theorem freshIds_append {before since : List Call} {c : Creation}
    (h : FreshIds (before ++ .create c :: since)) :
    (∀ call ∈ before, call.mints ≠ some c.id) ∧ ∀ call ∈ since, call.mints ≠ some c.id := by
  unfold FreshIds at h
  rw [List.filterMap_append, List.filterMap_cons_some (rfl : (Call.create c).mints = some c.id),
    List.nodup_append] at h
  obtain ⟨-, hsince, hdisjoint⟩ := h
  constructor
  · intro call hcall hmints
    exact hdisjoint c.id (List.mem_filterMap.mpr ⟨call, hcall, hmints⟩) c.id
      (List.mem_cons_self ..) rfl
  · intro call hcall hmints
    exact (List.nodup_cons.mp hsince).1 (List.mem_filterMap.mpr ⟨call, hcall, hmints⟩)

theorem freshIds_left {calls : List Call} {call : Call} (h : FreshIds (calls ++ [call])) :
    FreshIds calls := by
  unfold FreshIds at h ⊢
  rw [List.filterMap_append, List.nodup_append] at h
  exact h.1

theorem freshIds_snoc {calls : List Call} {call : Call} (h : FreshIds (calls ++ [call]))
    {id : SubscriptionId} (hid : call.mints = some id) : ∀ x ∈ calls, x.mints ≠ some id := by
  intro x hx hmints
  unfold FreshIds at h
  rw [List.filterMap_append, List.nodup_append] at h
  exact h.2.2 id (List.mem_filterMap.mpr ⟨x, hx, hmints⟩) id
    (List.mem_filterMap.mpr ⟨call, List.mem_singleton_self call, hid⟩) rfl

theorem gives_active_or_paused (id : SubscriptionId) (call : Call) :
    call.gives id = none ∨ call.gives id = some .active ∨ call.gives id = some .paused := by
  cases call with
  | create c => exact .inl rfl
  | pause j =>
    by_cases hj : j = id
    · exact .inr (.inr (if_pos hj))
    · exact .inl (if_neg hj)
  | resume j =>
    by_cases hj : j = id
    · exact .inr (.inl (if_pos hj))
    · exact .inl (if_neg hj)
  | rotateSecret j graceS secret token now => exact .inl rfl
  | delete j => exact .inl rfl

/-- A subscription is active unless its last status change is a pause. -/
theorem lastStatus_active {id : SubscriptionId} {calls : List Call} :
    (lastStatus id calls).getD .active = .active ↔ lastStatus id calls ≠ some .paused := by
  have hlast : lastStatus id calls = none ∨ lastStatus id calls = some .active ∨
      lastStatus id calls = some .paused := by
    induction calls with
    | nil => exact .inl rfl
    | cons call calls ih =>
      rw [lastStatus_cons]
      rcases ih with h | h | h
      · rw [h]
        exact gives_active_or_paused id call
      · exact .inr (.inl (by rw [h]; rfl))
      · exact .inr (.inr (by rw [h]; rfl))
  rcases hlast with h | h | h <;> simp [h]

namespace Registry

/-- A subscription that is not in the registry enters it by its creation alone. -/
theorem find?_apply_none {r : Registry} {id : SubscriptionId} {call : Call}
    (h : r.find? id = none) (hmints : call.mints ≠ some id) : (r.apply call).find? id = none := by
  cases call with
  | create c =>
    have hne : id ≠ c.id := fun e => hmints (congrArg some e.symm)
    rw [find?_create, if_neg hne, h]
  | pause j =>
    rw [apply, find?_setStatus, h]
    split <;> rfl
  | resume j =>
    rw [apply, find?_setStatus, h]
    split <;> rfl
  | rotateSecret j graceS secret token now =>
    rw [apply]
    split
    · exact h
    · rw [Table.find?_modify, h]
      split <;> rfl
  | delete j =>
    rw [apply, Table.find?_erase, h]
    split <;> rfl

theorem find?_after_none {r : Registry} {id : SubscriptionId} {calls : List Call}
    (h : r.find? id = none) (hmints : ∀ call ∈ calls, call.mints ≠ some id) :
    (r.after calls).find? id = none := by
  induction calls generalizing r with
  | nil => exact h
  | cons call calls ih =>
    apply ih
    · exact find?_apply_none h (hmints call (List.mem_cons_self ..))
    · exact fun x hx => hmints x (List.mem_cons_of_mem _ hx)

theorem find?_setStatus_some {r : Registry} {s : Subscription} (h : r.find? s.id = some s)
    (j : SubscriptionId) (status : SubscriptionStatus) : (r.setStatus j status).find? s.id =
      some { s with status := (if j = s.id then some status else none).getD s.status } := by
  rw [find?_setStatus, h]
  by_cases hj : j = s.id
  · subst hj
    simp
  · rw [if_neg hj, if_neg (Ne.symm hj)]
    rfl

/-- A call other than its deletion changes the status and the secret of a subscription alone. -/
theorem find?_apply_some {r : Registry} {s : Subscription} {call : Call}
    (h : r.find? s.id = some s) (hmints : call.mints ≠ some s.id) (hdelete : call ≠ .delete s.id) :
    ∃ secret, (r.apply call).find? s.id =
      some { s with status := (call.gives s.id).getD s.status, secret := secret } := by
  cases call with
  | create c =>
    have hne : s.id ≠ c.id := fun e => hmints (congrArg some e.symm)
    exact ⟨s.secret, by rw [find?_create, if_neg hne, h]; rfl⟩
  | pause j => exact ⟨s.secret, find?_setStatus_some h j .paused⟩
  | resume j => exact ⟨s.secret, find?_setStatus_some h j .active⟩
  | rotateSecret j graceS secret token now =>
    rw [apply]
    split
    · exact ⟨s.secret, h⟩
    · rw [Table.find?_modify, h]
      split
      · exact ⟨orToken secret token, rfl⟩
      · exact ⟨s.secret, rfl⟩
  | delete j =>
    have hne : s.id ≠ j := fun e => hdelete (by rw [e])
    exact ⟨s.secret, by rw [apply, Table.find?_erase, if_neg hne, h]; rfl⟩

theorem find?_after_some {calls : List Call} : ∀ {r : Registry} {s : Subscription},
    r.find? s.id = some s → (∀ call ∈ calls, call.mints ≠ some s.id) →
    Call.delete s.id ∉ calls → ∃ secret, (r.after calls).find? s.id =
      some { s with status := (lastStatus s.id calls).getD s.status, secret := secret } := by
  induction calls with
  | nil => exact fun h _ _ => ⟨_, h⟩
  | cons call calls ih =>
    intro r s h hmints hdelete
    obtain ⟨secret, happly⟩ := find?_apply_some h (hmints call (List.mem_cons_self ..))
      fun e => hdelete (e ▸ List.mem_cons_self ..)
    obtain ⟨secret', hafter⟩ := ih
      (s := { s with status := (call.gives s.id).getD s.status, secret := secret }) happly
      (fun x hx => hmints x (List.mem_cons_of_mem _ hx))
      fun hx => hdelete (List.mem_cons_of_mem _ hx)
    refine ⟨secret', hafter.trans ?_⟩
    rw [lastStatus_cons]
    cases lastStatus s.id calls <;> rfl

theorem after_append (r : Registry) (before since : List Call) :
    r.after (before ++ since) = (r.after before).after since := by
  unfold after
  rw [List.foldl_append]

theorem find?_standing {calls : List Call} (hfresh : FreshIds calls) {c : Creation}
    {since : List Call} (h : Standing calls c since) : ∃ secret,
      (after .empty calls).find? c.id = some { c.subscription with
        status := (lastStatus c.id since).getD .active, secret := secret } := by
  obtain ⟨⟨before, rfl⟩, hkept⟩ := h
  obtain ⟨-, hsince⟩ := freshIds_append hfresh
  have hborn : ((after .empty before).apply (.create c)).find? c.subscription.id =
      some c.subscription := by
    rw [find?_create]
    exact if_pos rfl
  rw [after_append]
  exact find?_after_some hborn hsince hkept

/-- What has not been minted is not in the registry, nor what has been deleted. -/
theorem find?_not_minted {calls : List Call} {id : SubscriptionId}
    (h : ∀ call ∈ calls, call.mints ≠ some id) : (after .empty calls).find? id = none :=
  find?_after_none rfl h

theorem find?_deleted {before since : List Call} {id : SubscriptionId}
    (h : ∀ call ∈ since, call.mints ≠ some id) :
    (after .empty (before ++ .delete id :: since)).find? id = none := by
  rw [after_append]
  apply find?_after_none _ h
  rw [apply, Table.find?_erase, if_pos rfl]

/-- The subscriptions of the registry are those that stand. -/
theorem standing_of_find? {calls : List Call} (hfresh : FreshIds calls) {id : SubscriptionId}
    {s : Subscription} (h : (after .empty calls).find? id = some s) :
    ∃ c since, c.id = id ∧ Standing calls c since := by
  by_cases hminted : ∃ call ∈ calls, call.mints = some id
  · obtain ⟨call, hcall, hmints⟩ := hminted
    cases call with
    | create c =>
      cases hmints
      obtain ⟨before, since, rfl⟩ := List.append_of_mem hcall
      obtain ⟨-, hsince⟩ := freshIds_append hfresh
      refine ⟨c, since, rfl, ⟨before, rfl⟩, fun hdelete => ?_⟩
      obtain ⟨first, rest, rfl⟩ := List.append_of_mem hdelete
      have hnone : (after .empty ((before ++ .create c :: first) ++ .delete c.id :: rest)).find?
          c.id = none := find?_deleted
        fun call hcall => hsince call (List.mem_append_right _ (List.mem_cons_of_mem _ hcall))
      rw [List.append_assoc, List.cons_append, h] at hnone
      cases hnone
    | pause j => cases hmints
    | resume j => cases hmints
    | rotateSecret j graceS secret token now => cases hmints
    | delete j => cases hmints
  · have hnone := find?_not_minted fun call hcall e => hminted ⟨call, hcall, e⟩
    rw [h] at hnone
    cases hnone

theorem find?_of_deleted {calls : List Call} (hfresh : FreshIds calls) {id : SubscriptionId}
    (h : Deleted calls id) : (after .empty calls).find? id = none := by
  obtain ⟨before, since, rfl, c, rfl, hc⟩ := h
  apply find?_deleted
  obtain ⟨first, rest, rfl⟩ := List.append_of_mem hc
  rw [List.append_assoc, List.cons_append] at hfresh
  obtain ⟨-, hsince⟩ := freshIds_append hfresh
  exact fun call hcall => hsince call (List.mem_append_right _ (List.mem_cons_of_mem _ hcall))

end Registry

end WebhookEngine.Subscriptions
