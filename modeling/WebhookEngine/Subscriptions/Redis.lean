import Mathlib.Data.Finset.Basic
import WebhookEngine.Lib.Serial
import WebhookEngine.Subscriptions.Subscription

/-!
# The Redis subscription store

`service/subscription_store.py`. The commands are those of Redis on two kinds of
keys, hashes and sets; the calls are made of one or two atomic commands each, a
`pipeline()` being one `MULTI .. EXEC`.

A hash is kept by its fields, with the list that `events` is the JSON of and the
time that `created_at` is the ISO text of in place of these texts. A key without
fields, or without members, does not exist.
-/

namespace WebhookEngine.Subscriptions.Redis

open Lib

/-! ## Keys -/

/-- `whe:sub:{id}`. -/
def subKey (id : SubscriptionId) : String := "whe:sub:" ++ id

/-- `whe:subs:owner:{owner_id}`. -/
def ownerKey (ownerId : OwnerId) : String := "whe:subs:owner:" ++ ownerId

/-- `whe:event:{name}:subs`. -/
def eventKey (event : String) : String := "whe:event:" ++ event ++ ":subs"

theorem subKey_inj {id id' : SubscriptionId} : subKey id = subKey id' ↔ id = id' :=
  String.append_right_inj _

theorem eventKey_inj {e e' : String} : eventKey e = eventKey e' ↔ e = e' := by
  rw [eventKey, eventKey, String.append_left_inj, String.append_right_inj]

/-- Texts whose prefixes of one length differ. -/
theorem append_ne {p q : List Char} (hl : p.length = q.length) (h : p ≠ q) (x y : List Char) :
    p ++ x ≠ q ++ y :=
  fun e => h (List.append_inj e hl).1

theorem ownerKey_ne_eventKey (o : OwnerId) (e : String) : ownerKey o ≠ eventKey e := by
  intro h
  have hl := congrArg String.toList h
  simp only [ownerKey, eventKey, String.toList_append, List.append_assoc] at hl
  exact append_ne (p := "whe:s".toList) (q := "whe:e".toList) (by decide) (by decide) _ _ hl

/-! ## Commands -/

/-- The fields of `whe:sub:{id}`; a field is `none` until a command writes it. -/
structure Hash where
  id : Option SubscriptionId := none
  ownerId : Option OwnerId := none
  url : Option String := none
  secret : Option String := none
  events : Option (List String) := none
  status : Option SubscriptionStatus := none
  createdAt : Option Datetime := none
  resolvedIp : Option String := none
  previousSecret : Option String := none
  previousExpiresAt : Option Datetime := none
  deriving DecidableEq, Repr

/-- The key that has no fields: `EXISTS` is false and `HGETALL` empty. -/
def Hash.absent : Hash := {}

/-- `HSET` of a mapping: its fields are written, the others stay. -/
def Hash.hset (h mapping : Hash) : Hash where
  id := mapping.id.or h.id
  ownerId := mapping.ownerId.or h.ownerId
  url := mapping.url.or h.url
  secret := mapping.secret.or h.secret
  events := mapping.events.or h.events
  status := mapping.status.or h.status
  createdAt := mapping.createdAt.or h.createdAt
  resolvedIp := mapping.resolvedIp.or h.resolvedIp
  previousSecret := mapping.previousSecret.or h.previousSecret
  previousExpiresAt := mapping.previousExpiresAt.or h.previousExpiresAt

structure Keyspace where
  hashes : String → Hash
  sets : String → Finset SubscriptionId

def Keyspace.empty : Keyspace := ⟨fun _ => .absent, fun _ => ∅⟩

def Keyspace.hset (k : Keyspace) (key : String) (mapping : Hash) : Keyspace :=
  { k with hashes := Function.update k.hashes key ((k.hashes key).hset mapping) }

def Keyspace.del (k : Keyspace) (key : String) : Keyspace :=
  { k with hashes := Function.update k.hashes key .absent }

def Keyspace.sadd (k : Keyspace) (key : String) (id : SubscriptionId) : Keyspace :=
  { k with sets := Function.update k.sets key (insert id (k.sets key)) }

def Keyspace.srem (k : Keyspace) (key : String) (id : SubscriptionId) : Keyspace :=
  { k with sets := Function.update k.sets key ((k.sets key).erase id) }

/-! ## Calls -/

/-- The mapping that `create` writes. -/
def row (c : Creation) : Hash where
  id := some c.id
  ownerId := some c.ownerId
  url := some c.url
  secret := some (orToken c.secret c.token)
  events := some c.events
  status := some .active
  createdAt := some c.now
  resolvedIp := some c.resolvedIp

/-- The transaction of `create`. -/
def create (k : Keyspace) (c : Creation) : Keyspace :=
  c.events.foldl (fun k event => k.sadd (eventKey event) c.id)
    ((k.hset (subKey c.id) (row c)).sadd (ownerKey c.ownerId) c.id)

/-- The second command of a call, with what the call has read. -/
inductive Pending where
  | setStatus (id : SubscriptionId) (status : SubscriptionStatus)
  | rotateSecret (id : SubscriptionId) (new old : String) (until_ : Datetime)
  | delete (id : SubscriptionId) (ownerId : OwnerId) (events : List String)
  deriving DecidableEq

/-- `EXISTS`, the first command of `_set_status`. -/
def setStatus (k : Keyspace) (id : SubscriptionId) (status : SubscriptionStatus) :
    Returned ⊕ Pending :=
  if k.hashes (subKey id) = .absent then .inl (.changed false) else .inr (.setStatus id status)

/-- `HGET secret`, the first command of `rotate_secret`. -/
def rotateSecret (k : Keyspace) (id : SubscriptionId) (graceS : Int) (secret : Option String)
    (token : Token) (now : Datetime) : Returned ⊕ Pending :=
  match (k.hashes (subKey id)).secret.filter (· ≠ ""), graceUntil now graceS with
  | none, _ => .inl .keyError
  | some _, none => .inl .valueError
  | some old, some until_ => .inr (.rotateSecret id (orToken secret token) old until_)

/-- `HGETALL`, the first command of `delete`. -/
def delete (k : Keyspace) (id : SubscriptionId) : Returned ⊕ Pending :=
  if k.hashes (subKey id) = .absent then .inl (.changed false) else
    match (k.hashes (subKey id)).ownerId, (k.hashes (subKey id)).events with
    | some ownerId, some events => .inr (.delete id ownerId events)
    | _, _ => .inl .keyError

def first (k : Keyspace) : Call → Keyspace × (Returned ⊕ Pending)
  | .create c => (create k c, .inl (.created c.subscription))
  | .pause id => (k, setStatus k id .paused)
  | .resume id => (k, setStatus k id .active)
  | .rotateSecret id graceS secret token now => (k, rotateSecret k id graceS secret token now)
  | .delete id => (k, delete k id)

def second (k : Keyspace) : Pending → Keyspace × Returned
  | .setStatus id status => (k.hset (subKey id) { status := some status }, .changed true)
  | .rotateSecret id new old until_ =>
    (k.hset (subKey id)
      { secret := some new, previousSecret := some old, previousExpiresAt := some until_ },
      .rotated ⟨new, some old, some until_⟩)
  | .delete id ownerId events =>
    (events.foldl (fun k event => k.srem (eventKey event) id)
      ((k.del (subKey id)).srem (ownerKey ownerId) id), .changed true)

/-- The store: every call but `create` reads before it writes. -/
def store : Serial.System Keyspace Call Pending Returned where
  first := first
  second := second
  first_reads k c p h := by
    cases c with
    | create c => cases h
    | pause id => rfl
    | resume id => rfl
    | rotateSecret id graceS secret token now => rfl
    | delete id => rfl

/-! ### The hashes and the sets after a command -/

theorem hashes_hset (k : Keyspace) (id : SubscriptionId) (mapping : Hash) (j : SubscriptionId) :
    (k.hset (subKey id) mapping).hashes (subKey j) =
      if j = id then (k.hashes (subKey id)).hset mapping else k.hashes (subKey j) := by
  simp [Keyspace.hset, Function.update_apply, subKey_inj]

theorem mem_sadd {k : Keyspace} {key key' : String} {id id' : SubscriptionId} :
    id' ∈ (k.sadd key id).sets key' ↔ id' ∈ k.sets key' ∨ key' = key ∧ id' = id := by
  by_cases hkey : key' = key
  · subst hkey
    simp [Keyspace.sadd, or_comm]
  · simp [Keyspace.sadd, hkey]

theorem mem_srem {k : Keyspace} {key key' : String} {id id' : SubscriptionId} :
    id' ∈ (k.srem key id).sets key' ↔ id' ∈ k.sets key' ∧ (key' = key → id' ≠ id) := by
  by_cases hkey : key' = key
  · subst hkey
    simp [Keyspace.srem, and_comm]
  · simp [Keyspace.srem, hkey]

theorem hashes_sadd_all (k : Keyspace) (id : SubscriptionId) (events : List String) :
    (events.foldl (fun k event => k.sadd (eventKey event) id) k).hashes = k.hashes := by
  induction events generalizing k with
  | nil => rfl
  | cons event events ih => exact ih _

theorem hashes_srem_all (k : Keyspace) (id : SubscriptionId) (events : List String) :
    (events.foldl (fun k event => k.srem (eventKey event) id) k).hashes = k.hashes := by
  induction events generalizing k with
  | nil => rfl
  | cons event events ih => exact ih _

theorem mem_sadd_all {k : Keyspace} {key : String} {id id' : SubscriptionId}
    (events : List String) :
    id' ∈ (events.foldl (fun k event => k.sadd (eventKey event) id) k).sets key ↔
      id' ∈ k.sets key ∨ (∃ event ∈ events, key = eventKey event) ∧ id' = id := by
  induction events generalizing k with
  | nil => simp
  | cons event events ih =>
    rw [List.foldl_cons, ih, mem_sadd, List.exists_mem_cons_iff, or_and_right, or_assoc]

theorem mem_srem_all {k : Keyspace} {key : String} {id id' : SubscriptionId}
    (events : List String) :
    id' ∈ (events.foldl (fun k event => k.srem (eventKey event) id) k).sets key ↔
      id' ∈ k.sets key ∧ ((∃ event ∈ events, key = eventKey event) → id' ≠ id) := by
  induction events generalizing k with
  | nil => simp
  | cons event events ih =>
    rw [List.foldl_cons, ih, mem_srem, List.exists_mem_cons_iff, or_imp, and_assoc]

theorem hashes_create (k : Keyspace) (c : Creation) (j : SubscriptionId) :
    (create k c).hashes (subKey j) =
      if j = c.id then (k.hashes (subKey c.id)).hset (row c) else k.hashes (subKey j) := by
  rw [create, hashes_sadd_all]
  exact hashes_hset ..

theorem hashes_delete (k : Keyspace) (id : SubscriptionId) (ownerId : OwnerId)
    (events : List String) (j : SubscriptionId) :
    (second k (.delete id ownerId events)).1.hashes (subKey j) =
      if j = id then .absent else k.hashes (subKey j) := by
  rw [second, hashes_srem_all]
  simp [Keyspace.del, Keyspace.srem, Function.update_apply, subKey_inj]

/-- The keys of the index sets that list a subscription. -/
def Listed (ownerId : OwnerId) (events : List String) (key : String) : Prop :=
  key = ownerKey ownerId ∨ ∃ event ∈ events, key = eventKey event

theorem mem_create {k : Keyspace} {c : Creation} {key : String} {id : SubscriptionId} :
    id ∈ (create k c).sets key ↔
      id ∈ k.sets key ∨ Listed c.ownerId c.events key ∧ id = c.id := by
  rw [create, mem_sadd_all, mem_sadd, Listed, or_and_right, or_assoc]
  rfl

theorem mem_delete {k : Keyspace} {id id' : SubscriptionId} {ownerId : OwnerId}
    {events : List String} {key : String} :
    id' ∈ (second k (.delete id ownerId events)).1.sets key ↔
      id' ∈ k.sets key ∧ (Listed ownerId events key → id' ≠ id) := by
  rw [second, mem_srem_all, mem_srem, Listed, or_imp, and_assoc]
  rfl

/-! ## `for_event` -/

/-- What `for_event` does with one row; the outer `none` is the `KeyError` of a missing field. -/
def select (tenant : Option String) (row : Hash) : Option (Option SubscriptionSnapshot) :=
  if row = .absent then some none
  else if row.status ≠ some .active then some none
  else do
    let ownerId ← row.ownerId
    if tenant.all fun t => ownerId = t then
      some (some ⟨← row.id, ownerId, ← row.url, ← row.resolvedIp⟩)
    else some none

def collect (tenant : Option String) : List Hash → Option (List SubscriptionSnapshot)
  | [] => some []
  | row :: rows => do
    let picked ← select tenant row
    let rest ← collect tenant rows
    some (picked.toList ++ rest)

/-- `SMEMBERS` answers in any order. -/
def Lists (members : Finset SubscriptionId) (ids : List SubscriptionId) : Prop :=
  ids.Nodup ∧ ids.toFinset = members

/-- `for_event`, with `ids` the answer of `SMEMBERS` of the event's key. -/
def forEvent (k : Keyspace) (ids : List SubscriptionId) (tenant : Option String) :
    Option (List SubscriptionSnapshot) :=
  collect tenant (ids.map fun id => k.hashes (subKey id))

/-- `get_secret`; `none` is the `KeyError`. -/
def getSecret (k : Keyspace) (id : SubscriptionId) : Option SecretMaterial :=
  let row := k.hashes (subKey id)
  (row.secret.filter (· ≠ "")).map fun current =>
    ⟨current, row.previousSecret.filter (· ≠ ""), row.previousExpiresAt⟩

/-- `_row_to_sub`; `none` is the `ValueError` of a row without status or time. The text of a time
names its zone. -/
def rowToSub (row : Hash) : Option Subscription := do
  let status ← row.status
  let createdAt ← row.createdAt
  some
    { id := row.id.getD ""
      ownerId := row.ownerId.getD ""
      url := row.url.getD ""
      secret := row.secret.getD ""
      events := row.events.getD []
      status := status
      createdAt := createdAt
      aware := true
      resolvedIp := row.resolvedIp.getD "" }

/-- The inner `none` is the answer `None`. -/
def get (k : Keyspace) (id : SubscriptionId) : Option (Option Subscription) :=
  if k.hashes (subKey id) = .absent then some none
  else (rowToSub (k.hashes (subKey id))).map some

/-- `list_for_owner`, with `ids` the answer of `SMEMBERS` of the owner's key. -/
def listForOwner (k : Keyspace) (ids : List SubscriptionId) : Option (List Subscription) :=
  ((ids.map fun id => k.hashes (subKey id)).filter (· ≠ .absent)).mapM rowToSub

end WebhookEngine.Subscriptions.Redis
