import WebhookEngine.Stores.Mongo
import WebhookEngine.Subscriptions.Pg

/-!
# The MongoDB subscription store

`service/subscription_mongo.py`: one document per subscription, with the fields of a row of
the Postgres table and the secrets as they are. Each call is one command.

`rotate_secret` updates with a pipeline, in which a text that begins with `$` is an
expression and not a text; a rotation to such a secret is left out.
-/

namespace WebhookEngine.Subscriptions.Mongo

open Lib Stores.Mongo

abbrev Doc := Pg.Row

abbrev Collection := Table Pg.Row.key

/-- `insert_one`; `none` is the duplicate `_id`. -/
def create (col : Collection) (c : Creation) : Option Collection :=
  if (col.find? c.id).isSome then none
  else
    let sub := c.subscription
    some (col.insert ⟨{ sub with createdAt := bsonDate sub.createdAt }, none, none⟩)

theorem setStatus_key (status : SubscriptionStatus) (doc : Doc) :
    Pg.Row.key { doc with status := status } = doc.key := rfl

/-- `update_one` with `$set` of the status; the flag is `matched_count > 0`. -/
def setStatus (col : Collection) (id : SubscriptionId) (status : SubscriptionStatus) :
    Collection × Bool :=
  (col.modify id (fun doc => { doc with status := status }) (setStatus_key status),
    (col.find? id).isSome)

def pause (col : Collection) (id : SubscriptionId) : Collection × Bool := setStatus col id .paused

def resume (col : Collection) (id : SubscriptionId) : Collection × Bool := setStatus col id .active

/-- `find({"events": event_name, "status": "active", ..})`, in the order of the collection;
without a `sort` any other order may be answered too. -/
def forEvent (col : Collection) (event : String) (tenant : Option String) :
    List SubscriptionSnapshot :=
  (col.rows.filter fun doc => doc.wanted event tenant).map fun doc => doc.snapshot

/-- `_material`. -/
def material (doc : Doc) : SecretMaterial where
  current := doc.secret
  previous := doc.previousSecret
  previousExpiresAt := doc.previousExpiresAt

/-- `get_secret`; `none` is the `KeyError`. -/
def getSecret (col : Collection) (id : SubscriptionId) : Option SecretMaterial :=
  (col.find? id).map material

/-- A text that a pipeline takes as it is. -/
def Literal (text : String) : Prop := text.toList.head? ≠ some '$'

instance (text : String) : Decidable (Literal text) := inferInstanceAs (Decidable (_ ≠ _))

/-- `{"$set": {"previous_secret": "$secret", ..}}`: its expressions read the document of before. -/
def rotated (new : String) (until_ : Datetime) (doc : Doc) : Doc :=
  { doc with
    previousSecret := some doc.secret
    previousExpiresAt := some (bsonDate until_)
    secret := new }

def rotateSecret (col : Collection) (id : SubscriptionId) (graceS : Int) (secret : Option String)
    (token : Token) (now : Datetime) : Option (Collection × Returned) :=
  match graceUntil now graceS with
  | none => some (col, .valueError)
  | some until_ =>
    let new := orToken secret token
    if Literal new then
      let col' := col.modify id (rotated new until_) fun _ => rfl
      match col'.find? id with
      | none => some (col', .keyError)
      | some doc => some (col', .rotated (material doc))
    else none

/-- `_doc_to_sub`; the driver gives the time back without its zone. -/
def docToSub (doc : Doc) : Subscription := { doc.toSubscription with aware := false }

def get (col : Collection) (id : SubscriptionId) : Option Subscription :=
  (col.find? id).map docToSub

def listForOwner (col : Collection) (ownerId : OwnerId) : List Subscription :=
  (col.rows.filter fun doc => doc.ownerId = ownerId).map docToSub

/-- `delete_one`; the flag is `deleted_count > 0`. -/
def delete (col : Collection) (id : SubscriptionId) : Collection × Bool :=
  (col.erase id, (col.find? id).isSome)

/-! ## Calls -/

theorem find?_setStatus (col : Collection) (id : SubscriptionId) (status : SubscriptionStatus)
    (j : SubscriptionId) : (setStatus col id status).1.find? j =
      if j = id then (col.find? j).map fun doc => { doc with status := status }
      else col.find? j :=
  Table.find?_modify col id j (fun doc => { doc with status := status }) fun _ => rfl

theorem find?_create {col col' : Collection} {c : Creation} (h : create col c = some col') :
    col.find? c.id = none ∧ ∀ id, col'.find? id =
      if id = c.id then
        some ⟨{ c.subscription with createdAt := bsonDate c.subscription.createdAt }, none, none⟩
      else col.find? id := by
  obtain ⟨hnew, h⟩ := Option.ite_none_left_eq_some.mp h
  cases h
  have hnone := Option.not_isSome_iff_eq_none.mp hnew
  refine ⟨hnone, fun id => (Table.find?_insert col _ id).trans ?_⟩
  by_cases hid : id = c.id
  · subst hid
    rw [if_pos rfl, hnone, Option.none_or]
    exact if_pos rfl
  · rw [if_neg hid]
    exact (congrArg _ (if_neg (Ne.symm hid))).trans (Option.or_none ..)

end WebhookEngine.Subscriptions.Mongo
