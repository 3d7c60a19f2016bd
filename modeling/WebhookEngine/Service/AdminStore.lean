import Mathlib.Data.Sum.Basic
import WebhookEngine.Subscriptions.Backends

/-!
# The subscription store behind the routes

`SubscriptionAdminStore` of `service/deps.py`, as far as the routes call it, and the three
stores that the profiles build. A call is one command, or two with what others do in between.

`Blind`: two states of a store with the same subscriptions but for their secrets stay so, and
answer the same but for the secrets; `adminBlind`: each of the three is.
-/

namespace WebhookEngine.Service

open Lib Lib.Columns Subscriptions

/-- `first` is the first command of a call, `second` the second one of a call that has read
something before; `listForOwner` is given the ids in the order in which the backend finds them.
`none`: the command cannot answer like that, it raises or the order is not one of the backend. -/
structure AdminStore where
  State : Type
  Pending : Type
  empty : State
  first : State → Call → Option (State × (Returned ⊕ Pending))
  second : State → Pending → State × Returned
  get : State → SubscriptionId → Option (Option Subscription)
  listForOwner : State → OwnerId → List SubscriptionId → Option (List Subscription)

/-- The subscriptions in the order in which the database finds them. -/
def inOrder (subs : List Subscription) (order : List SubscriptionId) :
    Option (List Subscription) :=
  if order.Perm (subs.map Subscription.id) then
    some (order.filterMap fun id => subs.find? fun s => s.id = id)
  else none

def pgAdmin (cipher : Pg.SecretCipher) : AdminStore where
  State := Pg.PgTable
  Pending := Empty
  empty := .empty
  first t c := (Backends.pgCall cipher t c).map fun x => (x.1, .inl x.2)
  second _ p := p.elim
  get t id := if fitsText id then some (Pg.get cipher t id) else none
  listForOwner t ownerId order :=
    if fitsText ownerId then inOrder (Pg.listForOwner cipher t ownerId) order else none

def mongoAdmin : AdminStore where
  State := Mongo.Collection
  Pending := Empty
  empty := .empty
  first col c := (Backends.mongoCall col c).map fun x => (x.1, .inl x.2)
  second _ p := p.elim
  get col id := some (Mongo.get col id)
  listForOwner col ownerId order := inOrder (Mongo.listForOwner col ownerId) order

def redisAdmin : AdminStore where
  State := Redis.Keyspace
  Pending := Redis.Pending
  empty := .empty
  first k c := some (Redis.store.first k c)
  second := Redis.store.second
  get := Redis.get
  listForOwner k ownerId ids :=
    if ids.Nodup ∧ ids.toFinset = k.sets (Redis.ownerKey ownerId) then Redis.listForOwner k ids
    else none

inductive EventBackend where
  | pg
  | mongo
  | memory
  deriving DecidableEq, Repr

/-- The subscription store of a profile; that of `memory` is the Redis store over `fakeredis`. -/
def adminStore (cipher : Pg.SecretCipher) : EventBackend → AdminStore
  | .pg => pgAdmin cipher
  | .mongo => mongoAdmin
  | .memory => redisAdmin

/-- A creation that returns, returns what it was asked for. -/
theorem first_create {cipher : Pg.SecretCipher} {backend : EventBackend}
    {s t : (adminStore cipher backend).State} {c : Creation}
    {x : Returned ⊕ (adminStore cipher backend).Pending}
    (h : (adminStore cipher backend).first s (.create c) = some (t, x)) :
    x = .inl (.created c.subscription) := by
  cases backend with
  | pg =>
    obtain ⟨u, hu, hx⟩ := Option.map_eq_some_iff.mp h
    obtain ⟨v, -, rfl⟩ := Option.map_eq_some_iff.mp hu
    cases hx
    rfl
  | mongo =>
    obtain ⟨u, hu, hx⟩ := Option.map_eq_some_iff.mp h
    obtain ⟨v, -, rfl⟩ := Option.map_eq_some_iff.mp hu
    cases hx
    rfl
  | memory =>
    cases h
    rfl

/-! ## But for the secrets -/

def redactSub (s : Subscription) : Subscription := { s with secret := "" }

def redactMaterial (m : SecretMaterial) : SecretMaterial :=
  { m with current := "", previous := m.previous.map fun _ => "" }

def redactReturned : Returned → Returned
  | .created s => .created (redactSub s)
  | .rotated m => .rotated (redactMaterial m)
  | r => r

/-- Postgres takes the second secret if it takes the first one. -/
def FitsToo (cipher : Pg.SecretCipher) (secret secret' : String) : Prop :=
  fitsText (cipher.sealRaw secret) = true → fitsText (cipher.sealRaw secret') = true

/-- A secret that is given is the same under every token. -/
theorem FitsToo.orToken {cipher : Pg.SecretCipher} {token token' : Token}
    (h : FitsToo cipher token token') (secret : Option String) :
    FitsToo cipher (Subscriptions.orToken secret token)
      (Subscriptions.orToken secret token') := by
  unfold Subscriptions.orToken
  cases secret.filter (· ≠ "") with
  | none => exact h
  | some secret => exact id

/-- The same call, with other secrets that the databases take for texts too. -/
inductive SameCall (cipher : Pg.SecretCipher) : Call → Call → Prop where
  | create (c : Creation) (secret : Option String) (token : Token)
      (h : FitsToo cipher (orToken c.secret c.token) (orToken secret token)) :
      SameCall cipher (.create c) (.create { c with secret := secret, token := token })
  | pause (id : SubscriptionId) : SameCall cipher (.pause id) (.pause id)
  | resume (id : SubscriptionId) : SameCall cipher (.resume id) (.resume id)
  | rotateSecret (id : SubscriptionId) (graceS : Int) (secret secret' : Option String)
      (token token' : Token) (now : Datetime)
      (h : FitsToo cipher (orToken secret token) (orToken secret' token'))
      (hliteral : Mongo.Literal (orToken secret token) → Mongo.Literal (orToken secret' token')) :
      SameCall cipher (.rotateSecret id graceS secret token now)
        (.rotateSecret id graceS secret' token' now)
  | delete (id : SubscriptionId) : SameCall cipher (.delete id) (.delete id)

inductive SameReturned : Returned → Returned → Prop where
  | created {s s' : Subscription} (h : redactSub s = redactSub s') :
      SameReturned (.created s) (.created s')
  | changed {existed existed' : Bool} (h : existed = existed') :
      SameReturned (.changed existed) (.changed existed')
  | rotated {m m' : SecretMaterial} (h : redactMaterial m = redactMaterial m') :
      SameReturned (.rotated m) (.rotated m')
  | keyError : SameReturned .keyError .keyError
  | valueError : SameReturned .valueError .valueError

theorem SameReturned.redact {r r' : Returned} (h : SameReturned r r') :
    redactReturned r = redactReturned r' := by
  cases h with
  | created h => exact congrArg Returned.created h
  | changed h => rw [h]
  | rotated h => exact congrArg Returned.rotated h
  | keyError => rfl
  | valueError => rfl

/-- The states that differ in the secrets alone are kept apart by no answer. -/
structure Blind (cipher : Pg.SecretCipher) (A : AdminStore) where
  Same : A.State → A.State → Prop
  SamePending : A.Pending → A.Pending → Prop
  empty : Same A.empty A.empty
  first : ∀ s s' c c' t x, Same s s' → SameCall cipher c c' → A.first s c = some (t, x) →
    ∃ t' x', A.first s' c' = some (t', x') ∧ Same t t' ∧ Sum.LiftRel SameReturned SamePending x x'
  second : ∀ s s' p p', Same s s' → SamePending p p' →
    Same (A.second s p).1 (A.second s' p').1 ∧
      SameReturned (A.second s p).2 (A.second s' p').2
  get : ∀ s s' id, Same s s' →
    (A.get s id).map (Option.map redactSub) = (A.get s' id).map (Option.map redactSub)
  listForOwner : ∀ s s' ownerId order, Same s s' →
    (A.listForOwner s ownerId order).map (List.map redactSub) =
      (A.listForOwner s' ownerId order).map (List.map redactSub)

/-! ### Rows -/

def blankRow (row : Pg.Row) : Pg.Row :=
  { row with secret := "", previousSecret := row.previousSecret.map fun _ => "" }

/-- The same row but for the secrets. -/
def SameRow (row row' : Pg.Row) : Prop := blankRow row = blankRow row'

def SameRows (t t' : Table Pg.Row.key) : Prop := List.Forall₂ SameRow t.rows t'.rows

variable {t t' : Table Pg.Row.key}

theorem sameRow_key (row row' : Pg.Row) (h : SameRow row row') : row'.key = row.key :=
  congrArg (fun row => row.id) h.symm

theorem SameRow.owner {row row' : Pg.Row} (h : SameRow row row') : row.ownerId = row'.ownerId :=
  congrArg (fun row => row.ownerId) h

theorem SameRow.subscription {row row' : Pg.Row} (h : SameRow row row') :
    redactSub row.toSubscription = redactSub row'.toSubscription :=
  congrArg (fun row => redactSub row.toSubscription) h

theorem SameRow.status {row row' : Pg.Row} (h : SameRow row row') (status : SubscriptionStatus) :
    SameRow { row with status := status } { row' with status := status } :=
  congrArg (fun row : Pg.Row => ({ row with status := status } : Pg.Row)) h

/-- A rotation, with any two secrets. -/
theorem SameRow.rotated {row row' : Pg.Row} (h : SameRow row row') (new new' : String)
    (until_ : Datetime) : SameRow (Pg.rotated new until_ row) (Pg.rotated new' until_ row') :=
  congrArg (fun row : Pg.Row =>
    ({ row with previousSecret := some "", previousExpiresAt := some until_ } : Pg.Row)) h

theorem SameRow.material {row row' : Pg.Row} (h : SameRow row row') (cipher : Pg.SecretCipher) :
    redactMaterial (Pg.material cipher row) = redactMaterial (Pg.material cipher row') := by
  have hprevious := congrArg Pg.Row.previousSecret h
  have hexpires := congrArg Pg.Row.previousExpiresAt h
  simp only [blankRow] at hprevious hexpires
  simp only [redactMaterial, Pg.material, hexpires, Option.map_map, SecretMaterial.mk.injEq,
    true_and, and_true]
  exact hprevious

theorem SameRows.find? (h : SameRows t t') (id : SubscriptionId) :
    Option.Rel SameRow (t.find? id) (t'.find? id) := Table.rel_find? sameRow_key h id

theorem SameRows.isSome (h : SameRows t t') (id : SubscriptionId) :
    (t.find? id).isSome = (t'.find? id).isSome := by
  have hid := h.find? id
  generalize t.find? id = x, t'.find? id = x' at hid ⊢
  cases hid <;> rfl

theorem SameRows.modify (h : SameRows t t') (id : SubscriptionId) {f f' : Pg.Row → Pg.Row}
    (hff' : ∀ row row', SameRow row row' → SameRow (f row) (f' row'))
    (hf : ∀ row, (f row).key = row.key) (hf' : ∀ row, (f' row).key = row.key) :
    SameRows (t.modify id f hf) (t'.modify id f' hf') := by
  refine Table.rel_update h (fun row row' hrow => ?_) hf hf' fun row row' hrow _ =>
    hff' row row' hrow
  rw [sameRow_key row row' hrow]

theorem SameRows.erase (h : SameRows t t') (id : SubscriptionId) :
    SameRows (t.erase id) (t'.erase id) := by
  refine List.rel_filter (fun row row' hrow => ?_) h
  simp only [sameRow_key row row' hrow]

/-- What a query makes of the rows of an owner. -/
theorem SameRows.listForOwner (h : SameRows t t') (ownerId : OwnerId)
    {f : Pg.Row → Subscription}
    (hf : ∀ row row', SameRow row row' → redactSub (f row) = redactSub (f row')) :
    ((t.rows.filter fun row => row.ownerId = ownerId).map f).map redactSub =
      ((t'.rows.filter fun row => row.ownerId = ownerId).map f).map redactSub := by
  have hrows : List.Forall₂ SameRow (t.rows.filter fun row => row.ownerId = ownerId)
      (t'.rows.filter fun row => row.ownerId = ownerId) := by
    refine List.rel_filter (fun row row' hrow => ?_) h
    simp only [hrow.owner]
  rw [← List.forall₂_eq_eq_eq, List.map_map, List.map_map]
  exact List.rel_map hf hrows

/-- What the readers say of a time leaves the subscriptions the same. -/
theorem redact_aware {s s' : Subscription} (h : redactSub s = redactSub s') (aware : Bool) :
    redactSub { s with aware := aware } = redactSub { s' with aware := aware } :=
  congrArg (fun s : Subscription => ({ s with aware := aware } : Subscription)) h

theorem inOrder_redact (subs : List Subscription) (order : List SubscriptionId) :
    (inOrder subs order).map (List.map redactSub) = inOrder (subs.map redactSub) order := by
  have hids : (subs.map redactSub).map Subscription.id = subs.map Subscription.id := by
    rw [List.map_map]
    rfl
  unfold inOrder
  rw [hids]
  split
  · rw [Option.map_some, List.map_filterMap]
    simp only [List.find?_map]
    rfl
  · rfl

theorem SameRows.insert (h : SameRows t t') {row row' : Pg.Row} (hrow : SameRow row row') :
    SameRows (t.insert row) (t'.insert row') :=
  Table.rel_insert sameRow_key h (sameRow_key row row' hrow) fun _ => hrow

theorem SameRows.setStatus (h : SameRows t t') (id : SubscriptionId)
    (status : SubscriptionStatus) :
    SameRows (t.modify id (fun row => { row with status := status }) fun _ => rfl)
      (t'.modify id (fun row => { row with status := status }) fun _ => rfl) :=
  h.modify id (fun _ _ hrow => hrow.status status) (fun _ => rfl) fun _ => rfl

theorem SameRows.rotated (h : SameRows t t') (id : SubscriptionId) (new new' : String)
    (until_ : Datetime) : SameRows (t.modify id (Pg.rotated new until_) fun _ => rfl)
      (t'.modify id (Pg.rotated new' until_) fun _ => rfl) :=
  h.modify id (fun _ _ hrow => hrow.rotated new new' until_) (fun _ => rfl) fun _ => rfl

/-! ### The databases -/

/-- What a rotation returns of the row that it finds. -/
def rotatedRow (cipher : Pg.SecretCipher) (row : Option Pg.Row) : Returned :=
  row.elim .keyError fun row => .rotated (Pg.material cipher row)

theorem sameReturned_rotatedRow {x x' : Option Pg.Row} (h : Option.Rel SameRow x x')
    (cipher : Pg.SecretCipher) : SameReturned (rotatedRow cipher x) (rotatedRow cipher x') := by
  cases h with
  | none => exact .keyError
  | some hrow => exact .rotated (hrow.material cipher)

theorem pgRotate_eq (cipher : Pg.SecretCipher) (t : Pg.PgTable) (id : SubscriptionId) {graceS : Int}
    (secret : Option String) (token : Token) {now until_ : Datetime}
    (hgrace : graceUntil now graceS = some until_) :
    Pg.rotateSecret cipher t id graceS secret token now =
      let new := cipher.sealRaw (orToken secret token)
      if fitsText id && fitsText new then
        let u := t.modify id (Pg.rotated new until_) fun _ => rfl
        some (u, rotatedRow cipher (u.find? id))
      else none := by
  simp only [Pg.rotateSecret, hgrace]
  cases (t.modify id (Pg.rotated (cipher.sealRaw (orToken secret token)) until_)
    fun _ => rfl).find? id <;> rfl

theorem mongoRotate_eq (col : Mongo.Collection) (id : SubscriptionId) {graceS : Int}
    (secret : Option String) (token : Token) {now until_ : Datetime}
    (hgrace : graceUntil now graceS = some until_) :
    Mongo.rotateSecret col id graceS secret token now =
      if Mongo.Literal (orToken secret token) then
        let u := col.modify id (Mongo.rotated (orToken secret token) until_) fun _ => rfl
        some (u, rotatedRow Pg.identityCipher (u.find? id))
      else none := by
  simp only [Mongo.rotateSecret, hgrace]
  cases (col.modify id (Mongo.rotated (orToken secret token) until_) fun _ => rfl).find? id with
  | none => rfl
  | some doc =>
    have hopen : doc.previousSecret.map Pg.identityCipher.openSealed = doc.previousSecret :=
      Option.map_id' ..
    rw [rotatedRow, Option.elim_some, Pg.material, hopen]
    rfl

/-- The columns take the row of the same creation with a secret that fits too. -/
theorem rowFits_secret {cipher : Pg.SecretCipher} {c : Creation} {secret : Option String}
    {token : Token} (h : Pg.rowFits (Pg.newRow cipher c) = true)
    (hfits : FitsToo cipher (orToken c.secret c.token) (orToken secret token)) :
    Pg.rowFits (Pg.newRow cipher { c with secret := secret, token := token }) = true := by
  simp only [Pg.rowFits, Bool.and_eq_true] at h ⊢
  obtain ⟨⟨⟨htexts, hsecret⟩, hevents⟩, hip⟩ := h
  exact ⟨⟨⟨htexts, hfits hsecret⟩, hevents⟩, hip⟩

theorem pgCall_same {cipher : Pg.SecretCipher} (h : SameRows t t') {c c' : Call}
    (hc : SameCall cipher c c') {u : Pg.PgTable} {r : Returned}
    (hr : Backends.pgCall cipher t c = some (u, r)) :
    ∃ u' r', Backends.pgCall cipher t' c' = some (u', r') ∧ SameRows u u' ∧ SameReturned r r' := by
  have hfound := h.isSome
  have hstatus : ∀ {id status u r},
      ((Pg.setStatus t id status).map fun x => (x.1, Returned.changed x.2)) = some (u, r) →
      ∃ u' r', ((Pg.setStatus t' id status).map fun x => (x.1, Returned.changed x.2)) =
        some (u', r') ∧ SameRows u u' ∧ SameReturned r r' := by
    intro id status u r hr
    obtain ⟨x, hx, he⟩ := Option.map_eq_some_iff.mp hr
    obtain ⟨hid, hx⟩ := Option.ite_none_right_eq_some.mp hx
    cases hx
    cases he
    exact ⟨_, _, Option.map_eq_some_iff.mpr ⟨_, if_pos hid, rfl⟩, h.setStatus id status,
      .changed (hfound id)⟩
  cases hc with
  | create c secret token hfits =>
    obtain ⟨u, hu, hx⟩ := Option.map_eq_some_iff.mp hr
    cases hx
    obtain ⟨hnew, hu⟩ := Option.ite_none_left_eq_some.mp hu
    cases hu
    rw [hfound, not_or, Bool.not_eq_false] at hnew
    have hrow := rowFits_secret hnew.2 hfits
    exact ⟨_, _, Option.map_eq_some_iff.mpr ⟨_, if_neg (by simp [hnew.1, hrow]), rfl⟩,
      h.insert rfl, .created rfl⟩
  | pause id => exact hstatus hr
  | resume id => exact hstatus hr
  | rotateSecret id graceS secret secret' token token' now hfits hliteral =>
    change Pg.rotateSecret cipher t id graceS secret token now = some (u, r) at hr
    change ∃ u' r', Pg.rotateSecret cipher t' id graceS secret' token' now = some (u', r') ∧ _
    cases hgrace : graceUntil now graceS with
    | none =>
      simp only [Pg.rotateSecret, hgrace] at hr ⊢
      cases hr
      exact ⟨_, _, rfl, h, .valueError⟩
    | some until_ =>
      rw [pgRotate_eq cipher t id secret token hgrace] at hr
      rw [pgRotate_eq cipher t' id secret' token' hgrace]
      obtain ⟨htexts, hr⟩ := Option.ite_none_right_eq_some.mp hr
      cases hr
      obtain ⟨hid, hnew⟩ := Bool.and_eq_true_iff.mp htexts
      have hrows := h.rotated id (cipher.sealRaw (orToken secret token))
        (cipher.sealRaw (orToken secret' token')) until_
      exact ⟨_, _, if_pos (Bool.and_eq_true_iff.mpr ⟨hid, hfits hnew⟩), hrows,
        sameReturned_rotatedRow (hrows.find? id) cipher⟩
  | delete id =>
    obtain ⟨x, hx, he⟩ := Option.map_eq_some_iff.mp hr
    obtain ⟨hid, hx⟩ := Option.ite_none_right_eq_some.mp hx
    cases hx
    cases he
    exact ⟨_, _, Option.map_eq_some_iff.mpr ⟨_, if_pos hid, rfl⟩, h.erase id,
      .changed (hfound id)⟩

theorem mongoCall_same {cipher : Pg.SecretCipher} (h : SameRows t t') {c c' : Call}
    (hc : SameCall cipher c c') {u : Mongo.Collection} {r : Returned}
    (hr : Backends.mongoCall t c = some (u, r)) :
    ∃ u' r', Backends.mongoCall t' c' = some (u', r') ∧ SameRows u u' ∧ SameReturned r r' := by
  have hfound := h.isSome
  cases hc with
  | create c secret token _ =>
    obtain ⟨u, hu, hx⟩ := Option.map_eq_some_iff.mp hr
    cases hx
    obtain ⟨hnew, hu⟩ := Option.ite_none_left_eq_some.mp hu
    cases hu
    rw [hfound] at hnew
    exact ⟨_, _, Option.map_eq_some_iff.mpr ⟨_, if_neg hnew, rfl⟩, h.insert rfl, .created rfl⟩
  | pause id =>
    cases hr
    exact ⟨_, _, rfl, h.setStatus id .paused, SameReturned.changed (hfound id)⟩
  | resume id =>
    cases hr
    exact ⟨_, _, rfl, h.setStatus id .active, SameReturned.changed (hfound id)⟩
  | rotateSecret id graceS secret secret' token token' now _ hliteral =>
    change Mongo.rotateSecret t id graceS secret token now = some (u, r) at hr
    change ∃ u' r', Mongo.rotateSecret t' id graceS secret' token' now = some (u', r') ∧ _
    cases hgrace : graceUntil now graceS with
    | none =>
      simp only [Mongo.rotateSecret, hgrace] at hr ⊢
      cases hr
      exact ⟨_, _, rfl, h, .valueError⟩
    | some until_ =>
      rw [mongoRotate_eq t id secret token hgrace] at hr
      rw [mongoRotate_eq t' id secret' token' hgrace]
      obtain ⟨hnew, hr⟩ := Option.ite_none_right_eq_some.mp hr
      cases hr
      have hrows := h.rotated id (orToken secret token) (orToken secret' token')
        (Stores.Mongo.bsonDate until_)
      rw [if_pos (hliteral hnew)]
      exact ⟨_, _, rfl, hrows, sameReturned_rotatedRow (hrows.find? id) Pg.identityCipher⟩
  | delete id =>
    cases hr
    exact ⟨_, _, rfl, h.erase id, SameReturned.changed (hfound id)⟩

def pgBlind (cipher : Pg.SecretCipher) : Blind cipher (pgAdmin cipher) where
  Same := SameRows
  SamePending p _ := p.elim
  empty := .nil
  first t t' c c' u x h hc hr := by
    obtain ⟨⟨u, r⟩, hcall, hx⟩ := Option.map_eq_some_iff.mp hr
    cases hx
    obtain ⟨u', r', hr', hrows, hreturned⟩ := pgCall_same h hc hcall
    exact ⟨u', _, Option.map_eq_some_iff.mpr ⟨_, hr', rfl⟩, hrows, .inl hreturned⟩
  second _ _ p := p.elim
  get t t' id h := by
    have hid := h.find? id
    change (if fitsText id then some ((t.find? id).map (Pg.rowToSub cipher)) else none).map _ =
      (if fitsText id then some ((t'.find? id).map (Pg.rowToSub cipher)) else none).map _
    split
    · generalize t.find? id = x, t'.find? id = x' at hid ⊢
      cases hid with
      | none => rfl
      | some hrow => exact congrArg (fun s => some (some s)) (redact_aware hrow.subscription true)
    · rfl
  listForOwner t t' ownerId order h := by
    have hread : ∀ row row', SameRow row row' →
        redactSub (Pg.rowToSub cipher row) = redactSub (Pg.rowToSub cipher row') :=
      fun _ _ hrow => redact_aware hrow.subscription true
    have hrows := h.listForOwner ownerId hread
    change (if fitsText ownerId then inOrder (Pg.listForOwner cipher t ownerId) order
        else none).map _ =
      (if fitsText ownerId then inOrder (Pg.listForOwner cipher t' ownerId) order else none).map _
    split
    · exact (inOrder_redact _ order).trans
        ((congrArg (inOrder · order) hrows).trans (inOrder_redact _ order).symm)
    · rfl

def mongoBlind (cipher : Pg.SecretCipher) : Blind cipher mongoAdmin where
  Same := SameRows
  SamePending p _ := p.elim
  empty := .nil
  first t t' c c' u x h hc hr := by
    obtain ⟨⟨u, r⟩, hcall, hx⟩ := Option.map_eq_some_iff.mp hr
    cases hx
    obtain ⟨u', r', hr', hrows, hreturned⟩ := mongoCall_same h hc hcall
    exact ⟨u', _, Option.map_eq_some_iff.mpr ⟨_, hr', rfl⟩, hrows, .inl hreturned⟩
  second _ _ p := p.elim
  get t t' id h := by
    have hid := h.find? id
    change some (((t.find? id).map Mongo.docToSub).map redactSub) =
      some (((t'.find? id).map Mongo.docToSub).map redactSub)
    generalize t.find? id = x, t'.find? id = x' at hid ⊢
    cases hid with
    | none => rfl
    | some hrow => exact congrArg (fun s => some (some s)) (redact_aware hrow.subscription false)
  listForOwner t t' ownerId order h := by
    have hread : ∀ row row', SameRow row row' →
        redactSub (Mongo.docToSub row) = redactSub (Mongo.docToSub row') :=
      fun _ _ hrow => redact_aware hrow.subscription false
    have hrows := h.listForOwner ownerId hread
    exact (inOrder_redact _ order).trans
      ((congrArg (inOrder · order) hrows).trans (inOrder_redact _ order).symm)

/-! ### Redis -/

/-- The code asks of a secret only whether it is empty. -/
def blankSecret (secret : String) : String := if secret = "" then "" else "*"

def blankHash (h : Redis.Hash) : Redis.Hash :=
  { h with secret := h.secret.map blankSecret, previousSecret := h.previousSecret.map blankSecret }

structure SameKeys (k k' : Redis.Keyspace) : Prop where
  hashes : ∀ key, blankHash (k.hashes key) = blankHash (k'.hashes key)
  sets : k.sets = k'.sets

inductive SamePending : Redis.Pending → Redis.Pending → Prop where
  | setStatus (id : SubscriptionId) (status : SubscriptionStatus) :
      SamePending (.setStatus id status) (.setStatus id status)
  | rotateSecret (id : SubscriptionId) {new new' old old' : String} (until_ : Datetime)
      (hnew : blankSecret new = blankSecret new') (hold : blankSecret old = blankSecret old') :
      SamePending (.rotateSecret id new old until_) (.rotateSecret id new' old' until_)
  | delete (id : SubscriptionId) (ownerId : OwnerId) (events : List String) :
      SamePending (.delete id ownerId events) (.delete id ownerId events)

variable {k k' : Redis.Keyspace}

theorem blankSecret_orToken (secret secret' : Option String) (token token' : Token) :
    blankSecret (orToken secret token) = blankSecret (orToken secret' token') := by
  rw [blankSecret, if_neg (orToken_ne_empty secret token), blankSecret,
    if_neg (orToken_ne_empty secret' token')]

theorem blankHash_hset (h mapping : Redis.Hash) :
    blankHash (h.hset mapping) = (blankHash h).hset (blankHash mapping) := by
  simp [blankHash, Redis.Hash.hset, Option.map_or]

theorem blankHash_absent {h : Redis.Hash} : blankHash h = .absent ↔ h = .absent := by
  cases h
  simp [blankHash, Redis.Hash.absent]

theorem absent_iff {h h' : Redis.Hash} (hblank : blankHash h = blankHash h') :
    h = .absent ↔ h' = .absent := by
  rw [← blankHash_absent, hblank, blankHash_absent]

theorem SameKeys.hset (h : SameKeys k k') (key : String) {mapping mapping' : Redis.Hash}
    (hmapping : blankHash mapping = blankHash mapping') :
    SameKeys (k.hset key mapping) (k'.hset key mapping') where
  hashes j := by
    simp only [Redis.Keyspace.hset, Function.update_apply]
    split
    · rw [blankHash_hset, blankHash_hset, h.hashes, hmapping]
    · exact h.hashes j
  sets := h.sets

theorem SameKeys.sadd (h : SameKeys k k') (key : String) (id : SubscriptionId) :
    SameKeys (k.sadd key id) (k'.sadd key id) where
  hashes := h.hashes
  sets := by simp only [Redis.Keyspace.sadd, h.sets]

theorem SameKeys.srem (h : SameKeys k k') (key : String) (id : SubscriptionId) :
    SameKeys (k.srem key id) (k'.srem key id) where
  hashes := h.hashes
  sets := by simp only [Redis.Keyspace.srem, h.sets]

theorem SameKeys.del (h : SameKeys k k') (key : String) : SameKeys (k.del key) (k'.del key) where
  hashes j := by
    simp only [Redis.Keyspace.del, Function.update_apply]
    split
    · rfl
    · exact h.hashes j
  sets := h.sets

theorem SameKeys.foldl {f : Redis.Keyspace → String → Redis.Keyspace}
    (hf : ∀ k k' event, SameKeys k k' → SameKeys (f k event) (f k' event)) (events : List String)
    {k k' : Redis.Keyspace} (h : SameKeys k k') :
    SameKeys (events.foldl f k) (events.foldl f k') := by
  induction events generalizing k k' with
  | nil => exact h
  | cons event events ih => exact ih (hf _ _ event h)

theorem SameKeys.create (h : SameKeys k k') (c : Creation) (secret : Option String)
    (token : Token) :
    SameKeys (Redis.create k c) (Redis.create k' { c with secret := secret, token := token }) := by
  refine SameKeys.foldl (fun k k' event h => h.sadd (Redis.eventKey event) c.id) c.events ?_
  refine (h.hset (Redis.subKey c.id) ?_).sadd (Redis.ownerKey c.ownerId) c.id
  simp [blankHash, Redis.row, blankSecret_orToken c.secret secret c.token token]

theorem SameKeys.absent (h : SameKeys k k') (key : String) :
    k.hashes key = .absent ↔ k'.hashes key = .absent := absent_iff (h.hashes key)

theorem SameKeys.setStatus (h : SameKeys k k') (id : SubscriptionId) (status : SubscriptionStatus) :
    Sum.LiftRel SameReturned SamePending (Redis.setStatus k id status)
      (Redis.setStatus k' id status) := by
  unfold Redis.setStatus
  by_cases habsent : k.hashes (Redis.subKey id) = .absent
  · rw [if_pos habsent, if_pos ((h.absent _).mp habsent)]
    exact .inl (.changed rfl)
  · rw [if_neg habsent, if_neg fun h' => habsent ((h.absent _).mpr h')]
    exact .inr (.setStatus id status)

/-- Both secrets are empty, or neither is. -/
theorem filter_blankSecret {secret secret' : Option String}
    (h : secret.map blankSecret = secret'.map blankSecret) :
    Option.Rel (fun old old' => blankSecret old = blankSecret old') (secret.filter (· ≠ ""))
      (secret'.filter (· ≠ "")) := by
  cases secret with
  | none =>
    cases secret' with
    | none => exact .none
    | some old' => cases h
  | some old =>
    cases secret' with
    | none => cases h
    | some old' =>
      have hblank : blankSecret old = blankSecret old' := Option.some.inj h
      have hempty : old = "" ↔ old' = "" := by
        unfold blankSecret at hblank
        grind
      by_cases hold : old = ""
      · have hold' : old' = "" := hempty.mp hold
        rw [Option.filter_some_neg (by simp [hold]), Option.filter_some_neg (by simp [hold'])]
        exact .none
      · have hold' : ¬ old' = "" := fun h' => hold (hempty.mpr h')
        rw [Option.filter_some_pos (by simp [hold]), Option.filter_some_pos (by simp [hold'])]
        exact .some hblank

theorem SameKeys.rotateSecret (h : SameKeys k k') (id : SubscriptionId) (graceS : Int)
    (secret secret' : Option String) (token token' : Token) (now : Datetime) :
    Sum.LiftRel SameReturned SamePending (Redis.rotateSecret k id graceS secret token now)
      (Redis.rotateSecret k' id graceS secret' token' now) := by
  have hold := filter_blankSecret (congrArg Redis.Hash.secret (h.hashes (Redis.subKey id)))
  unfold Redis.rotateSecret
  generalize (k.hashes (Redis.subKey id)).secret.filter (· ≠ "") = old,
    (k'.hashes (Redis.subKey id)).secret.filter (· ≠ "") = old' at hold ⊢
  cases hold with
  | none => exact .inl .keyError
  | some hblank =>
    cases graceUntil now graceS with
    | none => exact .inl .valueError
    | some until_ =>
      exact .inr (.rotateSecret id until_ (blankSecret_orToken secret secret' token token') hblank)

theorem SameKeys.delete (h : SameKeys k k') (id : SubscriptionId) :
    Sum.LiftRel SameReturned SamePending (Redis.delete k id) (Redis.delete k' id) := by
  have howner : (k.hashes (Redis.subKey id)).ownerId = (k'.hashes (Redis.subKey id)).ownerId :=
    congrArg (fun h => h.ownerId) (h.hashes (Redis.subKey id))
  have hevents : (k.hashes (Redis.subKey id)).events = (k'.hashes (Redis.subKey id)).events :=
    congrArg (fun h => h.events) (h.hashes (Redis.subKey id))
  unfold Redis.delete
  by_cases habsent : k.hashes (Redis.subKey id) = .absent
  · rw [if_pos habsent, if_pos ((h.absent _).mp habsent)]
    exact .inl (.changed rfl)
  · rw [if_neg habsent, if_neg fun h' => habsent ((h.absent _).mpr h'), howner, hevents]
    split
    · exact .inr (.delete id _ _)
    · exact .inl .keyError

theorem redisFirst_same {cipher : Pg.SecretCipher} (h : SameKeys k k') {c c' : Call}
    (hc : SameCall cipher c c') :
    SameKeys (Redis.first k c).1 (Redis.first k' c').1 ∧
      Sum.LiftRel SameReturned SamePending (Redis.first k c).2 (Redis.first k' c').2 := by
  cases hc with
  | create c secret token _ => exact ⟨h.create c secret token, .inl (.created rfl)⟩
  | pause id => exact ⟨h, h.setStatus id .paused⟩
  | resume id => exact ⟨h, h.setStatus id .active⟩
  | rotateSecret id graceS secret secret' token token' now =>
    exact ⟨h, h.rotateSecret id graceS secret secret' token token' now⟩
  | delete id => exact ⟨h, h.delete id⟩

theorem redisSecond_same (h : SameKeys k k') {p p' : Redis.Pending} (hp : SamePending p p') :
    SameKeys (Redis.second k p).1 (Redis.second k' p').1 ∧
      SameReturned (Redis.second k p).2 (Redis.second k' p').2 := by
  cases hp with
  | setStatus id status => exact ⟨h.hset _ rfl, .changed rfl⟩
  | rotateSecret id until_ hnew hold =>
    refine ⟨h.hset _ ?_, .rotated rfl⟩
    simp [blankHash, hnew, hold]
  | delete id ownerId events =>
    refine ⟨SameKeys.foldl (fun k k' event h => h.srem (Redis.eventKey event) id) events ?_,
      .changed rfl⟩
    exact (h.del (Redis.subKey id)).srem (Redis.ownerKey ownerId) id

/-- A row is read but for its secret. -/
theorem rowToSub_same {hash hash' : Redis.Hash} (h : blankHash hash = blankHash hash') :
    (Redis.rowToSub hash).map redactSub = (Redis.rowToSub hash').map redactSub := by
  have hblank : ∀ hash, (Redis.rowToSub hash).map redactSub =
      (Redis.rowToSub (blankHash hash)).map redactSub := by
    intro hash
    cases hstatus : hash.status <;> cases hcreated : hash.createdAt <;>
      simp [Redis.rowToSub, blankHash, hstatus, hcreated, redactSub]
  rw [hblank, h, ← hblank]

theorem mapM_redact {hashes hashes' : List Redis.Hash}
    (h : List.Forall₂ (fun hash hash' => blankHash hash = blankHash hash') hashes hashes') :
    (hashes.mapM Redis.rowToSub).map (List.map redactSub) =
      (hashes'.mapM Redis.rowToSub).map (List.map redactSub) := by
  induction h with
  | nil => rfl
  | @cons hash hash' hashes hashes' hrow _ ih =>
    have hsub := rowToSub_same hrow
    rw [List.mapM_cons, List.mapM_cons]
    generalize Redis.rowToSub hash = x, Redis.rowToSub hash' = x',
      hashes.mapM Redis.rowToSub = y, hashes'.mapM Redis.rowToSub = y' at hsub ih ⊢
    cases x <;> cases x' <;> cases y <;> cases y' <;> simp_all

def redisBlind (cipher : Pg.SecretCipher) : Blind cipher redisAdmin where
  Same := SameKeys
  SamePending := SamePending
  empty := ⟨fun _ => rfl, rfl⟩
  first k k' c c' u x h hc hr := by
    obtain ⟨hkeys, hreturned⟩ := redisFirst_same h hc
    have hcall : Redis.first k c = (u, x) := Option.some.inj hr
    rw [hcall] at hkeys hreturned
    exact ⟨_, _, rfl, hkeys, hreturned⟩
  second k k' p p' h hp := redisSecond_same h hp
  get k k' id h := by
    change (Redis.get k id).map (Option.map redactSub) =
      (Redis.get k' id).map (Option.map redactSub)
    have hrow := rowToSub_same (h.hashes (Redis.subKey id))
    unfold Redis.get
    by_cases habsent : k.hashes (Redis.subKey id) = .absent
    · rw [if_pos habsent, if_pos ((h.absent _).mp habsent)]
    · rw [if_neg habsent, if_neg fun h' => habsent ((h.absent _).mpr h'), Option.map_map,
        Option.map_map]
      have hsome := congrArg (Option.map some) hrow
      rwa [Option.map_map, Option.map_map] at hsome
  listForOwner k k' ownerId ids h := by
    have hhashes : List.Forall₂ (fun hash hash' => blankHash hash = blankHash hash')
        (ids.map fun id => k.hashes (Redis.subKey id))
        (ids.map fun id => k'.hashes (Redis.subKey id)) := by
      rw [List.forall₂_map_left_iff, List.forall₂_map_right_iff, List.forall₂_same]
      exact fun id _ => h.hashes (Redis.subKey id)
    have hpresent := List.rel_filter (p := fun hash => decide (hash ≠ Redis.Hash.absent))
      (q := fun hash => decide (hash ≠ Redis.Hash.absent)) (fun hash hash' hhash => by
        simp only [decide_eq_true_eq, ne_eq, absent_iff hhash]) hhashes
    change (if _ then Redis.listForOwner k ids else none).map _ =
      (if _ then Redis.listForOwner k' ids else none).map _
    rw [h.sets]
    split
    · exact mapM_redact hpresent
    · rfl

def adminBlind (cipher : Pg.SecretCipher) : (backend : EventBackend) →
    Blind cipher (adminStore cipher backend)
  | .pg => pgBlind cipher
  | .mongo => mongoBlind cipher
  | .memory => redisBlind cipher

end WebhookEngine.Service
