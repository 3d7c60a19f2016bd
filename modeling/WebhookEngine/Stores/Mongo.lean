import Mathlib.Data.Rat.Floor
import WebhookEngine.Lib.Table
import WebhookEngine.Stores.Queue

/-!
# The MongoDB delivery store

`MongoWebhookDeliveryStore` of `stores/mongo.py`: one document per delivery.
BSON keeps a `datetime` to the millisecond, in documents and in queries. A claim
is a loop of `find_one_and_update`, each taking a claimable document with the
least `fire_at`; which of several is MongoDB's choice, so `claimLoop` is given
the ids and refuses a choice MongoDB cannot make.

* `mongoQueue`: the store is a `RowQueue`. The transitions set the counter to
  the reported attempt number, `append_attempt` does not touch it.
-/

namespace WebhookEngine.Stores.Mongo

open Lib WebhookEngine.Stores.Queue

/-- A `datetime` as BSON keeps it. -/
def bsonDate (t : Datetime) : Datetime := (⌊t * 1000⌋ : ℚ) / 1000

/-! ## Documents -/

/-- A document: the fields of a record under their names, the lease, the log. -/
structure Doc where
  fields : DeliveryRecord
  leaseExpiry : Option Datetime
  attemptLog : List AttemptRecord
  deriving DecidableEq, Repr

def Doc.deliveryId (doc : Doc) : DeliveryId := doc.fields.deliveryId

def recordToDoc (r : DeliveryRecord) : Doc where
  fields :=
    { r with
      emittedAt := bsonDate r.emittedAt
      fireAt := bsonDate r.fireAt
      createdAt := bsonDate r.createdAt }
  leaseExpiry := none
  attemptLog := []

/-- `profile=doc.get("profile") or DEFAULT_PROFILE`. -/
def docToRecord (doc : Doc) : DeliveryRecord :=
  { doc.fields with
    profile := if doc.fields.profile = "" then DEFAULT_PROFILE else doc.fields.profile }

def attemptToSubdoc (a : AttemptRecord) : AttemptRecord :=
  { a with attemptedAt := bsonDate a.attemptedAt, responseBody := [], responseTruncated := false }

/-- `$push` at position 0, then `$slice`. -/
def Doc.push (limit : Nat) (a : AttemptRecord) (doc : Doc) : Doc :=
  { doc with attemptLog := (attemptToSubdoc a :: doc.attemptLog).take limit }

/-- The filter of a claim. -/
def Doc.claimable (now : Datetime) (doc : Doc) : Bool :=
  doc.fields.status.claimable && decide (doc.fields.fireAt ≤ bsonDate now)

def Doc.claim (leaseExpiry : Datetime) (doc : Doc) : Doc :=
  { doc with
    fields := { doc.fields with status := .inFlight }, leaseExpiry := some (bsonDate leaseExpiry) }

/-- The filter of `reclaim_stale`. -/
def Doc.stale (now : Datetime) (doc : Doc) : Bool :=
  doc.fields.status = .inFlight && doc.leaseExpiry.any fun e => decide (e < bsonDate now)

def Doc.reclaim (doc : Doc) : Doc :=
  { doc with fields := { doc.fields with status := .pending }, leaseExpiry := none }

/-- The `$set` of a completion. -/
def Doc.set (c : Completion) (a : AttemptRecord) (doc : Doc) : Doc :=
  match c with
  | .sent =>
    { doc with
      fields := { doc.fields with status := .sent, attempts := a.attempt }, leaseExpiry := none }
  | .retry t =>
    { doc with
      fields :=
        { doc.fields with status := .failedRetry, fireAt := bsonDate t, attempts := a.attempt }
      leaseExpiry := none }
  | .dead =>
    { doc with
      fields := { doc.fields with status := .deadLettered, attempts := a.attempt }
      leaseExpiry := none }
  | .append => doc

theorem claim_deliveryId (e : Datetime) (doc : Doc) : (doc.claim e).deliveryId = doc.deliveryId :=
  rfl

theorem reclaim_deliveryId (doc : Doc) : doc.reclaim.deliveryId = doc.deliveryId := rfl

theorem push_set_deliveryId (limit : Nat) (c : Completion) (a : AttemptRecord) (doc : Doc) :
    ((doc.set c a).push limit a).deliveryId = doc.deliveryId := by
  cases c <;> rfl

/-! ## The store -/

/-- The collection. -/
abbrev Collection := Table Doc.deliveryId

def enqueueMany (col : Collection) (rs : List DeliveryRecord) : Collection :=
  col.insertMany (rs.map recordToDoc)

/-- The document `id` is claimable and none claimable is due before it. -/
def foundFirst (col : Collection) (now : Datetime) (doc : Doc) : Bool :=
  doc.claimable now && col.rows.all fun doc' =>
    !doc'.claimable now || decide (doc.fields.fireAt ≤ doc'.fields.fireAt)

/-- `for _ in range(batch_size)`: one `find_one_and_update` for each id, and one
more that finds nothing if the batch is not full. -/
def claimLoop (now leaseExpiry : Datetime) :
    Nat → List DeliveryId → Collection → Option (List DeliveryRecord × Collection)
  | 0, [], col => some ([], col)
  | 0, _ :: _, _ => none
  | _ + 1, [], col => if col.rows.any (Doc.claimable now) then none else some ([], col)
  | n + 1, id :: ids, col =>
    match col.find? id with
    | none => none
    | some doc =>
      if foundFirst col now doc then
        (claimLoop now leaseExpiry n ids
          (col.modify id (Doc.claim leaseExpiry) (claim_deliveryId _))).map
          fun x => (docToRecord (doc.claim leaseExpiry) :: x.1, x.2)
      else none

def claimBatch (col : Collection) (now : Datetime) (leaseTtlS batchSize : Nat)
    (ids : List DeliveryId) : Option (List DeliveryRecord × Collection) :=
  claimLoop now (now + leaseTtlS) batchSize ids col

def reclaimStale (col : Collection) (now : Datetime) : Nat × Collection :=
  ((col.rows.filter (Doc.stale now)).length,
    col.update (Doc.stale now) Doc.reclaim reclaim_deliveryId)

/-- `update_one({"_id": id}, {"$set": .., "$push": ..})`. -/
def complete (attemptsLimit : Nat) (col : Collection) (id : DeliveryId) (c : Completion)
    (a : AttemptRecord) : Collection :=
  col.modify id (fun doc => (doc.set c a).push attemptsLimit a)
    (push_set_deliveryId attemptsLimit c a)

def get (col : Collection) (id : DeliveryId) : Option DeliveryRecord :=
  (col.find? id).map docToRecord

/-! ## The abstract model -/

def mongoStore (attemptsLimit : Nat) : DeliveryStore where
  State := Collection
  empty := .empty
  enqueueMany s rs := some (enqueueMany s rs)
  claimBatch := claimBatch
  reclaimStale := reclaimStale
  complete col id c a := some (complete attemptsLimit col id c a)
  get := get

def counter : Counter
  | .append, old, _ => old
  | _, _, n => n

theorem counter_counts : Counter.Counts counter fun c => decide (c ≠ .append) where
  assigned c old n h := by cases c <;> simp_all [counter]
  kept c old n h := by cases c <;> simp_all [counter]

def toJob (doc : Doc) : Job :=
  ⟨doc.fields.status, doc.fields.attempts, doc.leaseExpiry, core (docToRecord doc)⟩

def view (col : Collection) (id : DeliveryId) : Option Job := (col.find? id).map toJob

theorem toJob_settle (limit : Nat) (c : Completion) (a : AttemptRecord) (doc : Doc) :
    toJob ((doc.set c a).push limit a) = c.settle counter a.attempt (toJob doc) := by
  cases c <;> rfl

theorem view_enqueue (col : Collection) (rs : List DeliveryRecord) (id : DeliveryId) :
    view (enqueueMany col rs) id = (view col id).or
      ((rs.find? fun r => r.deliveryId = id).map fun r => toJob (recordToDoc r)) := by
  have hkey : ((fun doc : Doc => decide (doc.deliveryId = id)) ∘ recordToDoc) =
      fun r => decide (r.deliveryId = id) := rfl
  rw [view, enqueueMany, Table.find?_insertMany, List.find?_map, hkey, Option.map_or,
    Option.map_map]
  rfl

/-- A claim takes claimable documents, each once: a claimed document is claimable
no longer, so the loop cannot come back to it. -/
theorem mem_claimLoop {now e : Datetime} {n : Nat} {ids : List DeliveryId} {col col' : Collection}
    {rs : List DeliveryRecord} (h : claimLoop now e n ids col = some (rs, col')) :
    (rs.map (·.deliveryId)).Nodup ∧
    (∀ r ∈ rs, ∃ doc, col.find? r.deliveryId = some doc ∧ doc.fields.status.claimable = true ∧
      r = docToRecord (doc.claim e) ∧ col'.find? r.deliveryId = some (doc.claim e)) ∧
    ∀ id, (∀ r ∈ rs, r.deliveryId ≠ id) → col'.find? id = col.find? id := by
  induction n generalizing ids col rs with
  | zero =>
    cases ids with
    | nil =>
      cases h
      exact ⟨List.nodup_nil, by simp, fun _ _ => rfl⟩
    | cons id ids => cases h
  | succ n ih =>
    cases ids with
    | nil =>
      obtain ⟨-, hs⟩ := Option.ite_none_left_eq_some.mp h
      cases hs
      exact ⟨List.nodup_nil, by simp, fun _ _ => rfl⟩
    | cons id ids =>
      rw [claimLoop] at h
      cases hdoc : col.find? id with
      | none => simp [hdoc] at h
      | some doc =>
        rw [hdoc] at h
        obtain ⟨hfound, hs⟩ := Option.ite_none_right_eq_some.mp h
        obtain ⟨⟨rest, colr⟩, hrest, hx⟩ := Option.map_eq_some_iff.mp hs
        cases hx
        obtain rfl : doc.deliveryId = id := Table.find?_key hdoc
        have hclaim : doc.fields.status.claimable = true := by
          simp only [foundFirst, Doc.claimable, Bool.and_eq_true] at hfound
          exact hfound.1.1
        obtain ⟨hnodup, hin, hout⟩ := ih hrest
        have hself : ∀ r ∈ rest, r.deliveryId ≠ doc.deliveryId := by
          intro r hr he
          obtain ⟨doc', hdoc', hclaim', -, -⟩ := hin r hr
          rw [he, Table.find?_modify, if_pos rfl, hdoc, Option.map_some] at hdoc'
          cases hdoc'
          cases hclaim'
        refine ⟨?_, ?_, ?_⟩
        · rw [List.map_cons, List.nodup_cons]
          refine ⟨?_, hnodup⟩
          intro hm
          obtain ⟨r, hr, he⟩ := List.mem_map.mp hm
          exact hself r hr he
        · intro r hr
          rcases List.mem_cons.mp hr with rfl | hr
          · refine ⟨doc, hdoc, hclaim, rfl, ?_⟩
            have hmod := hout doc.deliveryId hself
            rw [Table.find?_modify, if_pos rfl, hdoc, Option.map_some] at hmod
            exact hmod
          · obtain ⟨doc', hdoc', hclaim', hr', hcol'⟩ := hin r hr
            rw [Table.find?_modify, if_neg (hself r hr)] at hdoc'
            exact ⟨doc', hdoc', hclaim', hr', hcol'⟩
        · intro id hid
          have hmod := hout id fun r hr => hid r (List.mem_cons_of_mem _ hr)
          rw [Table.find?_modify, if_neg fun he => hid _ (List.mem_cons_self ..) he.symm] at hmod
          exact hmod

theorem view_reclaim (col : Collection) (now : Datetime) (id : DeliveryId) :
    view (reclaimStale col now).2 id = view col id ∨
    ∃ j e st, view col id = some j ∧ j.status = .inFlight ∧ j.lease = some e ∧
      e < bsonDate now ∧ st.claimable = true ∧
      view (reclaimStale col now).2 id = some { j with status := st, lease := none } := by
  simp only [view, reclaimStale, Table.find?_update]
  cases col.find? id with
  | none => exact Or.inl rfl
  | some doc =>
    by_cases hs : doc.stale now = true
    · have hstale := hs
      simp only [Doc.stale, Bool.and_eq_true, decide_eq_true_eq, Option.any_eq_true] at hstale
      obtain ⟨hfl, e, he, hlt⟩ := hstale
      refine Or.inr ⟨_, e, .pending, rfl, hfl, he, hlt, rfl, ?_⟩
      rw [Option.map_some, Option.map_some, if_pos hs]
      rfl
    · left
      rw [Option.map_some, if_neg hs]

theorem view_complete (limit : Nat) (col : Collection) (id id' : DeliveryId) (c : Completion)
    (a : AttemptRecord) : view (complete limit col id c a) id' =
      if id' = id then (view col id').map (c.settle counter a.attempt) else view col id' := by
  simp only [view, complete, Table.find?_modify]
  split
  · rw [Option.map_map, Option.map_map]
    congr 1
    exact funext fun doc => toJob_settle limit c a doc
  · rfl

/-- The MongoDB store obeys the laws of a queue with one row per delivery. -/
def mongoQueue (attemptsLimit : Nat) : RowQueue where
  toDeliveryStore := mongoStore attemptsLimit
  view := view
  expired e now := e < bsonDate now
  counter := counter
  counter_retry _ _ := rfl
  view_empty id := rfl
  view_enqueue_other s rs s' id he h := by
    cases he
    exact (view_enqueue s rs id).trans (or_find?_other _ _ h)
  view_enqueue_new s rs s' r he hn hr hp hv := by
    cases he
    exact ⟨core (docToRecord (recordToDoc r)), ⟨rfl, rfl, rfl, rfl, rfl, rfl, rfl⟩,
      ((view_enqueue s rs _).trans (or_find?_new _ hn hr hv)).trans (by rw [← hp]; rfl)⟩
  view_claim s now ttl n pick rs s' h := by
    obtain ⟨hnodup, hin, hout⟩ := mem_claimLoop h
    refine ⟨hnodup, ?_, fun id hid => congrArg (Option.map toJob) (hout id hid)⟩
    intro r hr
    obtain ⟨doc, hdoc, hclaim, rfl, hdoc'⟩ := hin r hr
    exact ⟨toJob doc, bsonDate (now + ttl), congrArg (Option.map toJob) hdoc, hclaim, rfl, rfl,
      congrArg (Option.map toJob) hdoc'⟩
  view_reclaim := view_reclaim
  view_complete s id c a j s' h hs' := by
    cases hs'
    exact (view_complete attemptsLimit s id id c a).trans (by rw [if_pos rfl, h, Option.map_some])
  view_complete_other s id c a s' id' h hne := by
    cases h
    exact (view_complete attemptsLimit s id id' c a).trans (if_neg hne)
  ofRecord r := toJob (recordToDoc r)
  view_enqueue s rs s' id he := by
    cases he
    exact view_enqueue s rs id
  assigns := fun c => decide (c ≠ .append)
  counts := counter_counts
  get_view s id := by
    change ((s.find? id).map _).map _ = ((s.find? id).map _).map _
    rw [Option.map_map, Option.map_map]
    rfl

end WebhookEngine.Stores.Mongo
