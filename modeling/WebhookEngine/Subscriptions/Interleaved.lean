import Mathlib.Data.List.Permutation
import WebhookEngine.Subscriptions.Coherence

/-!
# Concurrent calls on the Redis store

The commands of any number of calls, in any order. `pause`, `resume`, `rotate_secret`
and `delete` read first and write in a second command; what they have read may have
changed in between.

* `call_moves`: what a call does when nothing comes between its commands;
* `interleaved_serial`: while every second command finds what its call has read, the
  calls are serial, every hash is absent or complete, a deleted one stays away and
  each reported secret is current or the previous one of the next rotation.
-/

namespace WebhookEngine.Subscriptions.Redis

open Lib Run Serial

/-- What a call has read, at its second command: the hash is there, the secret is the one
read, the hash lists the owner and the events read. -/
def StillHolds (k : Keyspace) : Pending → Prop
  | .setStatus id _ => k.hashes (subKey id) ≠ .absent
  | .rotateSecret id _ old _ => (k.hashes (subKey id)).secret = some old
  | .delete id ownerId events =>
    (k.hashes (subKey id)).ownerId = some ownerId ∧ (k.hashes (subKey id)).events = some events

instance (k : Keyspace) (p : Pending) : Decidable (StillHolds k p) := by
  cases p <;> unfold StillHolds <;> infer_instance

/-! ## The first command -/

theorem setStatus_pending {k : Keyspace} {id : SubscriptionId} {status : SubscriptionStatus}
    {p : Pending} : setStatus k id status = .inr p ↔
      k.hashes (subKey id) ≠ .absent ∧ .setStatus id status = p := by
  unfold setStatus
  split
  case isTrue h => simp [h]
  case isFalse h => simp [h]

theorem rotateSecret_pending {k : Keyspace} {id : SubscriptionId} {graceS : Int}
    {secret : Option String} {token : Token} {now : Datetime} {p : Pending} :
    rotateSecret k id graceS secret token now = .inr p ↔
      ∃ old until_, (k.hashes (subKey id)).secret = some old ∧ old ≠ "" ∧
        graceUntil now graceS = some until_ ∧
        .rotateSecret id (orToken secret token) old until_ = p := by
  unfold rotateSecret
  constructor
  · intro h
    split at h
    · cases h
    · cases h
    next old until_ hold huntil =>
      obtain ⟨hold, hne⟩ := Option.filter_eq_some_iff.mp hold
      exact ⟨old, until_, hold, by simpa using hne, huntil, Sum.inr.inj h⟩
  · rintro ⟨old, until_, hold, hne, huntil, rfl⟩
    have hfilter : (k.hashes (subKey id)).secret.filter (· ≠ "") = some old := by
      rw [hold]
      simp [hne]
    rw [hfilter, huntil]

theorem delete_pending {k : Keyspace} {id : SubscriptionId} {p : Pending} :
    delete k id = .inr p ↔ ∃ ownerId events, (k.hashes (subKey id)).ownerId = some ownerId ∧
      (k.hashes (subKey id)).events = some events ∧ .delete id ownerId events = p := by
  unfold delete
  constructor
  · intro h
    split at h
    · cases h
    · split at h
      next ownerId events howner hevents =>
        exact ⟨ownerId, events, howner, hevents, Sum.inr.inj h⟩
      · cases h
  · rintro ⟨ownerId, events, howner, hevents, rfl⟩
    have hne : k.hashes (subKey id) ≠ .absent := fun e => by rw [e] at howner; cases howner
    rw [if_neg hne, howner, hevents]

/-- What has been read still holds: the first command would hand on the same again. -/
theorem first_again (k : Keyspace) (c : Call) (p : Pending) (h : (store.first k c).2 = .inr p)
    (t : Keyspace) (ht : StillHolds t p) : (store.first t c).2 = .inr p := by
  cases c with
  | create c => cases h
  | pause id =>
    obtain ⟨-, rfl⟩ := setStatus_pending.mp h
    exact setStatus_pending.mpr ⟨ht, rfl⟩
  | resume id =>
    obtain ⟨-, rfl⟩ := setStatus_pending.mp h
    exact setStatus_pending.mpr ⟨ht, rfl⟩
  | rotateSecret id graceS secret token now =>
    obtain ⟨old, until_, -, hne, huntil, rfl⟩ := rotateSecret_pending.mp h
    exact rotateSecret_pending.mpr ⟨old, until_, ht, hne, huntil, rfl⟩
  | delete id =>
    obtain ⟨ownerId, events, -, -, rfl⟩ := delete_pending.mp h
    exact delete_pending.mpr ⟨ownerId, events, ht.1, ht.2, rfl⟩

/-! ## A call with nothing between its commands -/

/-- What a call can do: create, write one of the three second commands, or leave the
keyspace as it is and report neither a secret nor a change. -/
inductive CallMoves (k : Keyspace) : Call → Keyspace → Returned → Prop
  | create (c : Creation) : CallMoves k (.create c) (create k c) (.created c.subscription)
  | setStatus {c : Call} {id : SubscriptionId} (status : SubscriptionStatus)
      (hc : c = .pause id ∨ c = .resume id) (h : k.hashes (subKey id) ≠ .absent) :
      CallMoves k c (k.hset (subKey id) { status := some status }) (.changed true)
  | rotateSecret {id : SubscriptionId} {graceS : Int} {secret : Option String} {token : Token}
      {now : Datetime} {old : String} {until_ : Datetime}
      (h : (k.hashes (subKey id)).secret = some old) :
      CallMoves k (.rotateSecret id graceS secret token now)
        (second k (.rotateSecret id (orToken secret token) old until_)).1
        (.rotated ⟨orToken secret token, some old, some until_⟩)
  | delete {id : SubscriptionId} {ownerId : OwnerId} {events : List String}
      (h : (k.hashes (subKey id)).ownerId = some ownerId) :
      CallMoves k (.delete id) (second k (.delete id ownerId events)).1 (.changed true)
  | kept {c : Call} {r : Returned} (hr : r = .changed false ∨ r = .keyError ∨ r = .valueError) :
      CallMoves k c k r

/-- A call that returns at its first command has read only, `create` apart. -/
theorem first_returns {k : Keyspace} {c : Call} {r : Returned} (h : (store.first k c).2 = .inl r)
    (hc : ∀ x, c ≠ .create x) : (store.first k c).1 = k ∧
      (r = .changed false ∨ r = .keyError ∨ r = .valueError) := by
  have hstatus : ∀ {id status}, setStatus k id status = .inl r → r = .changed false := by
    intro id status h
    unfold setStatus at h
    split at h
    · exact (Sum.inl.inj h).symm
    · cases h
  cases c with
  | create x => exact absurd rfl (hc x)
  | pause id => exact ⟨rfl, .inl (hstatus h)⟩
  | resume id => exact ⟨rfl, .inl (hstatus h)⟩
  | rotateSecret id graceS secret token now =>
    refine ⟨rfl, .inr ?_⟩
    change rotateSecret k id graceS secret token now = .inl r at h
    unfold rotateSecret at h
    split at h
    · exact .inl (Sum.inl.inj h).symm
    · exact .inr (Sum.inl.inj h).symm
    · cases h
  | delete id =>
    refine ⟨rfl, ?_⟩
    change delete k id = .inl r at h
    unfold delete at h
    split at h
    · exact .inl (Sum.inl.inj h).symm
    · split at h
      · cases h
      · exact .inr (.inl (Sum.inl.inj h).symm)

theorem call_moves (k : Keyspace) (c : Call) :
    CallMoves k c (store.call k c).1 (store.call k c).2 := by
  cases hfirst : (store.first k c).2 with
  | inl r =>
    rw [call_of_returns hfirst]
    by_cases hc : ∃ x, c = .create x
    · obtain ⟨x, rfl⟩ := hc
      cases hfirst
      exact .create x
    · obtain ⟨hk, hr⟩ := first_returns hfirst fun x e => hc ⟨x, e⟩
      rw [hk]
      exact .kept hr
  | inr p =>
    rw [call_of_pending hfirst]
    cases c with
    | create c => cases hfirst
    | pause id =>
      obtain ⟨h, rfl⟩ := setStatus_pending.mp hfirst
      exact .setStatus _ (.inl rfl) h
    | resume id =>
      obtain ⟨h, rfl⟩ := setStatus_pending.mp hfirst
      exact .setStatus _ (.inr rfl) h
    | rotateSecret id graceS secret token now =>
      obtain ⟨old, until_, h, -, -, rfl⟩ := rotateSecret_pending.mp hfirst
      exact .rotateSecret h
    | delete id =>
      obtain ⟨ownerId, events, h, -, rfl⟩ := delete_pending.mp hfirst
      exact .delete h

/-! ## Hashes -/

/-- All the fields that `create` writes are there. -/
structure Complete (h : Hash) : Prop where
  id : h.id.isSome
  ownerId : h.ownerId.isSome
  url : h.url.isSome
  secret : h.secret.isSome
  events : h.events.isSome
  status : h.status.isSome
  createdAt : h.createdAt.isSome
  resolvedIp : h.resolvedIp.isSome

def Whole (k : Keyspace) : Prop :=
  ∀ id, k.hashes (subKey id) = .absent ∨ Complete (k.hashes (subKey id))

theorem complete_row (h : Hash) (c : Creation) : Complete (h.hset (row c)) :=
  ⟨rfl, rfl, rfl, rfl, rfl, rfl, rfl, rfl⟩

theorem Complete.hset {h : Hash} (hc : Complete h) (mapping : Hash) :
    Complete (h.hset mapping) := by
  have hor : ∀ {α : Type} {x y : Option α}, y.isSome → (x.or y).isSome := by
    intro α x y hy
    cases x with
    | none => exact hy
    | some a => rfl
  exact ⟨hor hc.id, hor hc.ownerId, hor hc.url, hor hc.secret, hor hc.events, hor hc.status,
    hor hc.createdAt, hor hc.resolvedIp⟩

/-- A mapping written to a hash that is there. -/
theorem Whole.hset {k : Keyspace} (hk : Whole k) {id : SubscriptionId}
    (h : k.hashes (subKey id) ≠ .absent) (mapping : Hash) : Whole (k.hset (subKey id) mapping) := by
  intro j
  rw [hashes_hset]
  split
  · exact .inr (((hk id).resolve_left h).hset mapping)
  · exact hk j

theorem moves_whole {k k' : Keyspace} {c : Call} {r : Returned} (h : CallMoves k c k' r)
    (hk : Whole k) : Whole k' := by
  cases h with
  | create c =>
    intro j
    rw [hashes_create]
    split
    · exact .inr (complete_row _ c)
    · exact hk j
  | setStatus status hc h => exact hk.hset h _
  | rotateSecret h => exact hk.hset (fun e => by rw [e] at h; cases h) _
  | delete h =>
    intro j
    rw [hashes_delete]
    split
    · exact .inl rfl
    · exact hk j
  | kept hr => exact hk

theorem whole_serial (calls : List Call) : Whole (store.serial .empty calls).1 :=
  serial_preserves (fun k c => moves_whole (call_moves k c)) (fun _ => .inl rfl) calls

/-! ## Deletions -/

/-- A deletion that has found its subscription deletes what an earlier call created. -/
theorem deleted_of_changed {calls : List Call} (hfresh : FreshIds calls) {id : SubscriptionId}
    (h : (store.call (store.serial .empty calls).1 (.delete id)).2 = .changed true) :
    ∃ c, c.id = id ∧ .create c ∈ calls := by
  cases hfound : (Registry.after .empty calls).find? id with
  | none =>
    have habsent := (coherent_serial hfresh).absent id hfound
    have hreturns : (store.first (store.serial .empty calls).1 (.delete id)).2 =
        .inl (.changed false) := if_pos habsent
    rw [call_of_returns hreturns] at h
    cases h
  | some s =>
    obtain ⟨c, since, hid, ⟨before, rfl⟩, -⟩ := Registry.standing_of_find? hfresh hfound
    exact ⟨c, hid, List.mem_append_right _ (List.mem_cons_self ..)⟩

/-! ## Reported secrets -/

/-- The secret that a call reports as the current one of the subscription. -/
def reports (id : SubscriptionId) : Call × Returned → Option String
  | (.create c, .created s) => if c.id = id then some s.secret else none
  | (.rotateSecret j _ _ _ _, .rotated m) => if j = id then some m.current else none
  | _ => none

def lastReported (id : SubscriptionId) (log : List (Call × Returned)) : Option String :=
  (log.filterMap (reports id)).getLast?

theorem lastReported_snoc (id : SubscriptionId) (log : List (Call × Returned))
    (e : Call × Returned) :
    lastReported id (log ++ [e]) = (reports id e).or (lastReported id log) := by
  unfold lastReported
  rw [List.filterMap_append]
  cases h : reports id e with
  | none => simp [h]
  | some secret => simp [h]

/-- The secret of a hash after a call is the one it has reported, or the one of before. -/
theorem moves_secret {k k' : Keyspace} {c : Call} {r : Returned} (h : CallMoves k c k' r)
    (id : SubscriptionId) {secret : String}
    (hsecret : (k'.hashes (subKey id)).secret = some secret) :
    (reports id (c, r)).or (k.hashes (subKey id)).secret = some secret := by
  cases h with
  | create c =>
    rw [hashes_create] at hsecret
    split at hsecret
    case isTrue hid =>
      rw [reports, if_pos hid.symm]
      exact hsecret
    case isFalse hid =>
      rw [reports, if_neg (Ne.symm hid)]
      exact hsecret
  | @setStatus _ j status hc h =>
    have hnone : reports id (c, .changed true) = none := by
      rcases hc with rfl | rfl <;> rfl
    rw [hashes_hset] at hsecret
    rw [hnone]
    split at hsecret
    case isTrue hid =>
      rw [hid]
      exact hsecret
    case isFalse => exact hsecret
  | @rotateSecret j graceS given token now old until_ h =>
    simp only [second] at hsecret
    rw [hashes_hset] at hsecret
    split at hsecret
    case isTrue hid =>
      rw [reports, if_pos hid.symm]
      exact hsecret
    case isFalse hid =>
      rw [reports, if_neg (Ne.symm hid)]
      exact hsecret
  | delete h =>
    rw [hashes_delete] at hsecret
    split at hsecret
    · cases hsecret
    · exact hsecret
  | kept hr =>
    have hnone : reports id (c, r) = none := by
      rcases hr with rfl | rfl | rfl <;> cases c <;> rfl
    rw [hnone]
    exact hsecret

/-- The secret of a hash is the last one that a call has reported. -/
theorem logged_secret {log : List (Call × Returned)} {k : Keyspace}
    (h : Logged store .empty log k) {id : SubscriptionId} {secret : String}
    (hsecret : (k.hashes (subKey id)).secret = some secret) :
    lastReported id log = some secret := by
  induction log using List.reverseRecOn generalizing k secret with
  | nil =>
    cases h
    cases hsecret
  | append_singleton log e ih =>
    obtain ⟨u, hu, hcall⟩ := logged_snoc.mp h
    have hmoves := call_moves u e.1
    rw [hcall] at hmoves
    have hor := moves_secret hmoves id hsecret
    rw [lastReported_snoc]
    cases hreports : reports id e with
    | some reported =>
      rw [hreports] at hor
      exact hor
    | none =>
      rw [hreports] at hor
      exact ih hu hor

/-- A rotation keeps the secret that was reported before it. -/
theorem logged_rotation {log later : List (Call × Returned)} {k : Keyspace} {id : SubscriptionId}
    {graceS : Int} {secret : Option String} {token : Token} {now : Datetime} {m : SecretMaterial}
    (h : Logged store .empty
      (log ++ (.rotateSecret id graceS secret token now, .rotated m) :: later) k) :
    m.previous = lastReported id log := by
  obtain ⟨u, v, hu, hcall⟩ := logged_at h
  have hmoves := call_moves u (.rotateSecret id graceS secret token now)
  rw [hcall] at hmoves
  cases hmoves with
  | rotateSecret hold => exact (logged_secret hu hold).symm
  | kept hr => rcases hr with hr | hr | hr <;> cases hr

/-- A hash whose deletion has been reported is absent. -/
theorem logged_deletion {log : List (Call × Returned)} {k : Keyspace}
    (h : Logged store .empty log k) (hfresh : FreshIds (log.map Prod.fst)) {id : SubscriptionId}
    (hdeleted : (Call.delete id, Returned.changed true) ∈ log) :
    k.hashes (subKey id) = .absent := by
  have hcoherent := coherent_serial hfresh
  have hk : (store.serial .empty (log.map Prod.fst)).1 = k := congrArg Prod.fst h
  rw [hk] at hcoherent
  apply hcoherent.absent
  apply Registry.find?_of_deleted hfresh
  obtain ⟨before, later, rfl⟩ := List.append_of_mem hdeleted
  obtain ⟨u, v, hu, hcall⟩ := logged_at h
  refine ⟨before.map Prod.fst, later.map Prod.fst, List.map_append, ?_⟩
  have hbefore : FreshIds (before.map Prod.fst) := by
    unfold FreshIds at hfresh ⊢
    rw [List.map_append, List.filterMap_append, List.nodup_append] at hfresh
    exact hfresh.1
  have hu' : (store.serial .empty (before.map Prod.fst)).1 = u := congrArg Prod.fst hu
  exact deleted_of_changed hbefore (by rw [hu', hcall])

/-! ## Interleaved calls -/

variable {ι : Type*} [DecidableEq ι]

/-- **Serial while nothing read has changed.** -/
theorem interleaved_serial (commands : List (Label Call ι))
    (w : World Keyspace Call Pending Returned ι)
    (hrun : run (step store) (start .empty) commands = some w)
    (hholds : Along (step store) (Meets StillHolds) (start .empty) commands) :
    store.serial .empty (w.log.map Prod.fst) = (w.state, w.log.map Prod.snd) ∧
    (∀ id, w.state.hashes (subKey id) = .absent ∨ Complete (w.state.hashes (subKey id))) ∧
    (FreshIds (w.log.map Prod.fst) → ∀ id, (Call.delete id, Returned.changed true) ∈ w.log →
      w.state.hashes (subKey id) = .absent) ∧
    (∀ id, w.state.hashes (subKey id) ≠ .absent →
      (w.state.hashes (subKey id)).secret = lastReported id w.log) ∧
    ∀ log later id graceS secret token now m,
      w.log = log ++ (.rotateSecret id graceS secret token now, .rotated m) :: later →
      m.previous = lastReported id log := by
  have hlogged : Logged store .empty w.log w.state := serial_of_run first_again hholds hrun
  have hwhole := whole_serial (w.log.map Prod.fst)
  rw [hlogged] at hwhole
  refine ⟨hlogged, hwhole, fun hfresh id => logged_deletion hlogged hfresh, ?_, ?_⟩
  · intro id hne
    obtain ⟨secret, hsecret⟩ := Option.isSome_iff_exists.mp ((hwhole id).resolve_left hne).secret
    rw [hsecret, logged_secret hlogged hsecret]
  · intro log later id graceS secret token now m hlog
    rw [hlog] at hlogged
    exact logged_rotation hlogged

/-- A pause between the two commands of a rotation. -/
def exampleCommands : List (Label Call Nat) := [
  .first 0 (.create (exampleCreation "a" "owner-a")),
  .first 1 (.rotateSecret "a" 60 (some "s1") ⟨"t1", by decide⟩ 0), .first 2 (.pause "a"),
  .second 2, .second 1]

theorem interleaved_serial_pause_in_rotation :
    ∃ w, run (step store) (start .empty) exampleCommands = some w ∧
      (w.state.hashes (subKey "a") = .absent ∨ Complete (w.state.hashes (subKey "a"))) := by
  obtain ⟨w, hw⟩ := Option.isSome_iff_exists.mp (by decide +kernel :
    (run (step store) (start .empty) exampleCommands).isSome = true)
  exact ⟨w, hw, (interleaved_serial exampleCommands w hw (by decide +kernel)).2.1 "a"⟩

/-- A deletion between the two commands of a pause. -/
def exampleRevival : List (Label Call Nat) := [
  .first 0 (.create (exampleCreation "a" "owner-a")), .first 0 (.pause "a"),
  .first 1 (.delete "a"), .second 1, .second 0]

/-- A rotation between the two commands of another. -/
def exampleRotations : List (Label Call Nat) := [
  .first 0 (.create (exampleCreation "a" "owner-a")),
  .first 0 (.rotateSecret "a" 60 (some "s1") ⟨"t1", by decide⟩ 0),
  .first 1 (.rotateSecret "a" 60 (some "s2") ⟨"t2", by decide⟩ 0), .second 0, .second 1]

/-- The deleted hash is back with its status alone, and the secret `s1`, reported as the
current one, is lost; neither run agrees with any order of its calls. -/
theorem races_not_serial :
    (∃ w, run (step store) (start .empty) exampleRevival = some w ∧
      w.state.hashes (subKey "a") = { status := some .paused } ∧
      ∀ order : List (Call × Returned), order.Perm w.log →
        store.serial .empty (order.map Prod.fst) ≠ (w.state, order.map Prod.snd)) ∧
    ∃ w, run (step store) (start .empty) exampleRotations = some w ∧
      getSecret w.state "a" = some ⟨"s2", some "s0", some 60⟩ ∧
      ∀ order : List (Call × Returned), order.Perm w.log →
        store.serial .empty (order.map Prod.fst) ≠ (w.state, order.map Prod.snd) := by
  constructor
  · obtain ⟨w, hw, hpartial⟩ := (Option.any_eq_true ..).mp (by decide +kernel :
      (run (step store) (start .empty) exampleRevival).any (fun w =>
        decide (w.state.hashes (subKey "a") = { status := some .paused })) = true)
    have hhash := of_decide_eq_true hpartial
    refine ⟨w, hw, hhash, fun order _ hserial => ?_⟩
    have hwhole := whole_serial (order.map Prod.fst) "a"
    rw [hserial, hhash] at hwhole
    rcases hwhole with habsent | hcomplete
    · cases habsent
    · cases hcomplete.id
  · obtain ⟨w, hw, hall⟩ := (Option.any_eq_true ..).mp (by decide +kernel :
      (run (step store) (start .empty) exampleRotations).any (fun w =>
        decide (getSecret w.state "a" = some ⟨"s2", some "s0", some 60⟩ ∧
          ∀ order ∈ w.log.permutations',
            (store.serial .empty (order.map Prod.fst)).2 ≠ order.map Prod.snd)) = true)
    obtain ⟨hsecret, hreturned⟩ := of_decide_eq_true hall
    refine ⟨w, hw, hsecret, fun order horder hserial => ?_⟩
    exact hreturned order (List.mem_permutations'.mpr horder) (congrArg Prod.snd hserial)

end WebhookEngine.Subscriptions.Redis
