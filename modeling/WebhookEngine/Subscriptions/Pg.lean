import WebhookEngine.Lib.Columns
import WebhookEngine.Subscriptions.Subscription

/-!
# The Postgres subscription store

`service/subscription_pg.py`. Each call is one statement in a transaction of its own; one that
brings a text with U+0000 is refused. The cipher is the host's; of it the code relies on `open`
undoing `seal`.
-/

namespace WebhookEngine.Subscriptions.Pg

open Lib Columns

/-- `SecretCipher` of `protocols.py`. -/
structure SecretCipher where
  sealRaw : String → String
  openSealed : String → String
  open_seal : ∀ raw, openSealed (sealRaw raw) = raw

/-- `IdentityCipher`, the default. -/
def identityCipher : SecretCipher := ⟨id, id, fun _ => rfl⟩

/-- A row of the table; `secret` and `previousSecret` are sealed. -/
structure Row extends Subscription where
  previousSecret : Option String
  previousExpiresAt : Option Datetime
  deriving DecidableEq, Repr

def Row.key (row : Row) : SubscriptionId := row.id

abbrev PgTable := Table Row.key

/-- The row of a new subscription. -/
def newRow (cipher : SecretCipher) (c : Creation) : Row :=
  let sub := c.subscription
  ⟨{ sub with secret := cipher.sealRaw sub.secret }, none, none⟩

/-- The columns take the texts of a row; `events` is a JSONB. -/
def rowFits (row : Row) : Bool :=
  fitsText row.id && fitsText row.ownerId && fitsText row.url && fitsText row.secret &&
    row.events.all fitsText && fitsText row.resolvedIp

/-- `INSERT`; `none`: the primary key is violated, or a text refused. -/
def create (cipher : SecretCipher) (t : PgTable) (c : Creation) : Option PgTable :=
  if (t.find? c.id).isSome = true ∨ rowFits (newRow cipher c) = false then none
  else some (t.insert (newRow cipher c))

/-- `UPDATE SET status`; the flag is `rowcount > 0`. -/
def setStatus (t : PgTable) (id : SubscriptionId) (status : SubscriptionStatus) :
    Option (PgTable × Bool) :=
  if fitsText id then
    some (t.modify id (fun row => { row with status := status }) fun _ => rfl,
      (t.find? id).isSome)
  else none

def pause (t : PgTable) (id : SubscriptionId) : Option (PgTable × Bool) := setStatus t id .paused

def resume (t : PgTable) (id : SubscriptionId) : Option (PgTable × Bool) := setStatus t id .active

/-- The `SELECT` of `for_event`, in the order of the table; without an `ORDER BY` any
other order may be answered too. -/
def forEvent (t : PgTable) (event : String) (tenant : Option String) :
    List SubscriptionSnapshot :=
  (t.rows.filter fun row => row.wanted event tenant).map fun row => row.snapshot

/-- `_material`. -/
def material (cipher : SecretCipher) (row : Row) : SecretMaterial where
  current := cipher.openSealed row.secret
  previous := row.previousSecret.map cipher.openSealed
  previousExpiresAt := row.previousExpiresAt

/-- `get_secret`; `none` is the `KeyError`. -/
def getSecret (cipher : SecretCipher) (t : PgTable) (id : SubscriptionId) :
    Option SecretMaterial :=
  (t.find? id).map (material cipher)

/-- `_sql_rotate`: the right-hand sides read the row of before. -/
def rotated (new : String) (until_ : Datetime) (row : Row) : Row :=
  { row with
    previousSecret := some row.secret
    previousExpiresAt := some until_
    secret := new }

def rotateSecret (cipher : SecretCipher) (t : PgTable) (id : SubscriptionId) (graceS : Int)
    (secret : Option String) (token : Token) (now : Datetime) : Option (PgTable × Returned) :=
  match graceUntil now graceS with
  | none => some (t, .valueError)
  | some until_ =>
    let new := cipher.sealRaw (orToken secret token)
    if fitsText id && fitsText new then
      let t' := t.modify id (rotated new until_) fun _ => rfl
      match t'.find? id with
      | none => some (t', .keyError)
      | some row => some (t', .rotated (material cipher row))
    else none

/-- `_row_to_sub`; a TIMESTAMPTZ is read as an aware time. -/
def rowToSub (cipher : SecretCipher) (row : Row) : Subscription :=
  { row.toSubscription with secret := cipher.openSealed row.secret, aware := true }

def get (cipher : SecretCipher) (t : PgTable) (id : SubscriptionId) : Option Subscription :=
  (t.find? id).map (rowToSub cipher)

/-- In the order of the table; without an `ORDER BY` any other order may be answered too. -/
def listForOwner (cipher : SecretCipher) (t : PgTable) (ownerId : OwnerId) : List Subscription :=
  (t.rows.filter fun row => row.ownerId = ownerId).map (rowToSub cipher)

/-- `DELETE`; the flag is `rowcount > 0`. -/
def delete (t : PgTable) (id : SubscriptionId) : Option (PgTable × Bool) :=
  if fitsText id then some (t.erase id, (t.find? id).isSome) else none

/-! ## Calls -/

theorem find?_create {cipher : SecretCipher} {t t' : PgTable} {c : Creation}
    (h : create cipher t c = some t') (id : SubscriptionId) : ∃ row : Row, row.status = .active ∧
      t'.find? id = (t.find? id).or (if c.id = id then some row else none) := by
  obtain ⟨-, h⟩ := Option.ite_none_left_eq_some.mp h
  cases h
  exact ⟨_, rfl, Table.find?_insert t _ id⟩

/-- A statement that is not refused. -/
theorem eq_of_setStatus {t : PgTable} {id : SubscriptionId} {status : SubscriptionStatus}
    {x : PgTable × Bool} (h : setStatus t id status = some x) :
    x = (t.modify id (fun row => { row with status := status }) fun _ => rfl,
      (t.find? id).isSome) := by
  obtain ⟨-, h⟩ := Option.ite_none_right_eq_some.mp h
  exact (Option.some.inj h).symm

theorem find?_setStatus {t : PgTable} {id : SubscriptionId} {status : SubscriptionStatus}
    {x : PgTable × Bool} (h : setStatus t id status = some x) (j : SubscriptionId) :
    x.1.find? j =
      if j = id then (t.find? j).map fun row => { row with status := status } else t.find? j := by
  rw [eq_of_setStatus h]
  exact Table.find?_modify t id j (fun row => { row with status := status }) fun _ => rfl

/-- The answer of `for_event`, in any order. -/
theorem forEvent_selected (t : PgTable) (event : String) (tenant : Option String)
    {subs : List SubscriptionSnapshot} (h : subs.Perm (forEvent t event tenant)) :
    Selected (t.rows.map Row.toSubscription) event tenant subs := by
  intro x
  rw [h.mem_iff, forEvent, List.mem_map]
  constructor
  · rintro ⟨row, hrow, rfl⟩
    obtain ⟨hrow, hwanted⟩ := List.mem_filter.mp hrow
    exact ⟨row.toSubscription, List.mem_map_of_mem hrow, hwanted, rfl⟩
  · rintro ⟨s, hs, hwanted, rfl⟩
    obtain ⟨row, hrow, rfl⟩ := List.mem_map.mp hs
    exact ⟨row, List.mem_filter.mpr ⟨hrow, hwanted⟩, rfl⟩

/-- A row that there is rotates, whatever the secret, if the grace is not negative. -/
theorem getSecret_rotateSecret {cipher : SecretCipher} {t t' : PgTable} {id : SubscriptionId}
    {graceS : Int} {secret : Option String} {token : Token} {now : Datetime} {m m' : SecretMaterial}
    (hm : getSecret cipher t id = some m)
    (h : rotateSecret cipher t id graceS secret token now = some (t', .rotated m')) :
    m' = ⟨orToken secret token, some m.current, some (now + graceS)⟩ ∧
      getSecret cipher t' id = some m' := by
  obtain ⟨row, hrow, rfl⟩ := Option.map_eq_some_iff.mp hm
  unfold rotateSecret at h
  cases hgrace : graceUntil now graceS with
  | none =>
    rw [hgrace] at h
    cases h
  | some until_ =>
    rw [hgrace] at h
    obtain ⟨-, huntil⟩ := Option.ite_none_left_eq_some.mp hgrace
    cases huntil
    obtain ⟨-, h⟩ := Option.ite_none_right_eq_some.mp h
    have hfound := Table.find?_modify t id id
      (rotated (cipher.sealRaw (orToken secret token)) (now + graceS)) fun _ => rfl
    rw [if_pos rfl, hrow, Option.map_some] at hfound
    simp only [hfound, Option.some.injEq, Prod.mk.injEq, Returned.rotated.injEq] at h
    obtain ⟨rfl, rfl⟩ := h
    constructor
    · simp [material, rotated, cipher.open_seal]
    · rw [getSecret, hfound, Option.map_some]

end WebhookEngine.Subscriptions.Pg
