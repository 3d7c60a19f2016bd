import WebhookEngine.Lib.Documents
import WebhookEngine.Stores.Mongo

/-!
# Concurrent clients of the MongoDB store

The calls of `MongoWebhookDeliveryStore` cut into the commands that MongoDB executes atomically:
`insert_many` and `update_many` document by document, `claim_batch` one `find_one_and_update`
after the other. Which claimable document a `find_one_and_update` takes, and which stale ones an
`update_many` comes by, is left open.

* `claimLoop_alone`, `reclaimStale_alone`, `complete_alone`, `enqueueMany_alone`: the calls of
  the store are the calls whose commands run alone;
* `takes_separated`: between two takes of a delivery its lease has ended.
-/

namespace WebhookEngine.Stores.MongoClients

open Lib Lib.Run Lib.Documents Queue Mongo

/-- A call and how far it has got. -/
inductive Prog where
  | enqueueMany (left : List DeliveryRecord)
  | claimBatch (now : Datetime) (leaseTtlS left : Nat) (claimed : List DeliveryRecord)
  | reclaimStale (now : Datetime) (modified : Nat)
  | complete (id : DeliveryId) (c : Completion) (attempt : AttemptRecord)
  | completed

inductive Command where
  | insertOne (i : Nat)
  | findOneAndUpdate (id : DeliveryId)
  | updateOf (id : DeliveryId)
  | updateOne
  deriving DecidableEq

def command (attemptsLimit : Nat) :
    Prog → Command → (DeliveryId → Option Doc) → Option (Effect DeliveryId Doc Prog)
  | .enqueueMany left, .insertOne i, docs =>
    left[i]?.map fun r =>
      -- a duplicate `_id` is a write error of this document alone
      let write := if (docs r.deliveryId).isNone then some (r.deliveryId, recordToDoc r) else none
      { write := write, next := .enqueueMany (left.eraseIdx i) }
  | .claimBatch now ttl (n + 1) claimed, .findOneAndUpdate id, docs =>
    ((docs id).filter (Doc.claimable now)).map fun doc =>
      let doc := doc.claim (now + ttl)
      { write := some (id, doc)
        next := .claimBatch now ttl n (claimed ++ [docToRecord doc]) }
  | .reclaimStale now k, .updateOf id, docs =>
    ((docs id).filter (Doc.stale now)).map fun doc =>
      { write := some (id, doc.reclaim), next := .reclaimStale now (k + 1) }
  | .complete id c a, .updateOne, docs =>
    some
      { write := (docs id).map fun doc => (id, (doc.set c a).push attemptsLimit a)
        next := .completed }
  | _, _, _ => none

def Prog.isNew : Prog → Bool
  | .claimBatch _ _ _ claimed => claimed.isEmpty
  | .reclaimStale _ modified => modified = 0
  | .completed => false
  | _ => true

def mongoProgram (attemptsLimit : Nat) : Program DeliveryId Doc Prog Command where
  initial := Prog.isNew
  command := command attemptsLimit

abbrev MongoState (τ : Type) := Documents.State τ DeliveryId Doc Prog

abbrev MongoLabel (τ : Type) := Documents.Label τ Prog Command

/-! ## What a command can do -/

inductive Executes (limit : Nat) (docs : DeliveryId → Option Doc) :
    Prog → Command → Effect DeliveryId Doc Prog → Prop where
  | insert (left : List DeliveryRecord) (i : Nat) (r : DeliveryRecord)
      (write : Option (DeliveryId × Doc)) (hr : left[i]? = some r)
      (hwrite : ∀ id doc, write = some (id, doc) → docs id = none) :
      Executes limit docs (.enqueueMany left) (.insertOne i)
        { write := write, next := .enqueueMany (left.eraseIdx i) }
  | take (now : Datetime) (ttl n : Nat) (claimed : List DeliveryRecord) (id : DeliveryId)
      (doc : Doc) (hdoc : docs id = some doc) (hclaimable : doc.claimable now = true) :
      Executes limit docs (.claimBatch now ttl (n + 1) claimed) (.findOneAndUpdate id)
        { write := some (id, doc.claim (now + ttl))
          next := .claimBatch now ttl n (claimed ++ [docToRecord (doc.claim (now + ttl))]) }
  | reclaim (now : Datetime) (k : Nat) (id : DeliveryId) (doc : Doc) (hdoc : docs id = some doc)
      (hstale : doc.stale now = true) :
      Executes limit docs (.reclaimStale now k) (.updateOf id)
        { write := some (id, doc.reclaim), next := .reclaimStale now (k + 1) }
  | complete (id : DeliveryId) (c : Completion) (a : AttemptRecord) :
      Executes limit docs (.complete id c a) .updateOne
        { write := (docs id).map fun doc => (id, (doc.set c a).push limit a)
          next := .completed }

theorem executes {limit : Nat} {docs : DeliveryId → Option Doc} {prog : Prog} {c : Command}
    {e : Effect DeliveryId Doc Prog} (h : command limit prog c docs = some e) :
    Executes limit docs prog c e := by
  rw [command.eq_def] at h
  split at h
  · obtain ⟨r, hr, rfl⟩ := Option.map_eq_some_iff.mp h
    refine .insert _ _ r _ hr fun id doc hwrite => ?_
    obtain ⟨hnone, hwrite⟩ := Option.ite_none_right_eq_some.mp hwrite
    cases hwrite
    exact Option.isNone_iff_eq_none.mp hnone
  · obtain ⟨doc, hdoc, rfl⟩ := Option.map_eq_some_iff.mp h
    obtain ⟨hdoc, hclaimable⟩ := Option.filter_eq_some_iff.mp hdoc
    exact .take _ _ _ _ _ doc hdoc hclaimable
  · obtain ⟨doc, hdoc, rfl⟩ := Option.map_eq_some_iff.mp h
    obtain ⟨hdoc, hstale⟩ := Option.filter_eq_some_iff.mp hdoc
    exact .reclaim _ _ _ doc hdoc hstale
  · cases h
    exact .complete _ _ _
  · cases h

/-! ## Calls that run alone -/

theorem claimLoop_alone {limit : Nat} {now : Datetime} {ttl n : Nat} {ids : List DeliveryId}
    {col col' : Collection} {rs : List DeliveryRecord}
    (h : claimLoop now (now + ttl) n ids col = some (rs, col')) (claimed : List DeliveryRecord) :
    alone (mongoProgram limit) (.claimBatch now ttl n claimed) col.find?
        (ids.map .findOneAndUpdate) =
      some (.claimBatch now ttl (n - ids.length) (claimed ++ rs), col'.find?) := by
  induction n generalizing ids col claimed rs with
  | zero =>
    cases ids with
    | nil =>
      cases h
      rw [List.append_nil]
      rfl
    | cons id ids => cases h
  | succ n ih =>
    cases ids with
    | nil =>
      obtain ⟨-, h⟩ := Option.ite_none_left_eq_some.mp h
      cases h
      rw [List.append_nil]
      rfl
    | cons id ids =>
      rw [claimLoop] at h
      cases hdoc : col.find? id with
      | none =>
        rw [hdoc] at h
        cases h
      | some doc =>
        rw [hdoc] at h
        obtain ⟨hfirst, h⟩ := Option.ite_none_right_eq_some.mp h
        obtain ⟨⟨rs', col''⟩, hrest, h⟩ := Option.map_eq_some_iff.mp h
        cases h
        have hclaimable : doc.claimable now = true := (Bool.and_eq_true_iff.mp hfirst).1
        have hput := put_modify col id (Doc.claim (now + ttl)) (claim_deliveryId _)
        rw [hdoc, Option.map_some] at hput
        have hcommand : (mongoProgram limit).command (.claimBatch now ttl (n + 1) claimed)
            (.findOneAndUpdate id) col.find? = some
              { write := some (id, doc.claim (now + ttl))
                next :=
                  .claimBatch now ttl n (claimed ++ [docToRecord (doc.claim (now + ttl))]) } := by
          change ((col.find? id).filter (Doc.claimable now)).map _ = _
          rw [hdoc, Option.filter_some_pos hclaimable]
          rfl
        rw [List.map_cons, alone, hcommand, Option.bind_some, hput, ih hrest, List.length_cons,
          Nat.succ_sub_succ, List.append_assoc, List.singleton_append]

theorem reclaimStale_alone (limit : Nat) (col : Collection) (now : Datetime) :
    alone (mongoProgram limit) (.reclaimStale now 0) col.find?
        ((col.rows.filter (Doc.stale now)).map fun doc => .updateOf doc.deliveryId) =
      some (.reclaimStale now (reclaimStale col now).1, (reclaimStale col now).2.find?) := by
  refine alone_update col reclaim_deliveryId fun docs k doc hdoc hstale => ?_
  change ((docs doc.deliveryId).filter (Doc.stale now)).map _ = _
  rw [hdoc, Option.filter_some_pos hstale]
  rfl

theorem complete_alone (limit : Nat) (col : Collection) (id : DeliveryId) (c : Completion)
    (a : AttemptRecord) :
    alone (mongoProgram limit) (.complete id c a) col.find? [.updateOne] =
      some (.completed, (complete limit col id c a).find?) :=
  congrArg (fun docs => some (Prog.completed, docs))
    (put_modify col id (fun doc => (doc.set c a).push limit a) (push_set_deliveryId limit c a))

theorem enqueueMany_alone (limit : Nat) (col : Collection) (rs : List DeliveryRecord) :
    alone (mongoProgram limit) (.enqueueMany rs) col.find? (rs.map fun _ => .insertOne 0) =
      some (.enqueueMany [], (enqueueMany col rs).find?) := by
  induction rs generalizing col with
  | nil => rfl
  | cons r rs ih =>
    have hput := put_insert col (recordToDoc r)
    rw [List.map_cons, alone]
    change (some _).bind _ = _
    rw [Option.bind_some]
    change alone _ _ (put col.find? (if (col.find? (recordToDoc r).deliveryId).isNone then
      some ((recordToDoc r).deliveryId, recordToDoc r) else none)) _ = _
    rw [hput]
    exact ih (col.insert (recordToDoc r))

/-! ## Takes are separated -/

/-- Not claimable, and leased until `lease` if it is in flight. -/
def Held (lease : Datetime) (doc : Doc) : Prop :=
  doc.fields.status.claimable = false ∧
    (doc.fields.status = .inFlight → doc.leaseExpiry = some (bsonDate lease))

/-- The commands that make a held delivery claimable: a `reclaim_stale` past its lease, and a
`schedule_retry`. -/
inductive Frees (lease : Datetime) (id : DeliveryId) : Prog → Command → Prop where
  | reclaim (now : Datetime) (k : Nat) (hlate : bsonDate lease < bsonDate now) :
      Frees lease id (.reclaimStale now k) (.updateOf id)
  | retry (fireAt : Datetime) (a : AttemptRecord) :
      Frees lease id (.complete id (.retry fireAt) a) .updateOne

theorem held_claim (lease : Datetime) (doc : Doc) : Held lease (doc.claim lease) :=
  ⟨rfl, fun _ => rfl⟩

/-- A command keeps a delivery held, or it is one of these. -/
theorem frees_of_executes {limit : Nat} {docs : DeliveryId → Option Doc} {prog : Prog}
    {c : Command} {e : Effect DeliveryId Doc Prog} (h : Executes limit docs prog c e)
    {lease : Datetime} {id : DeliveryId} {doc doc' : Doc} (hdoc : docs id = some doc)
    (hheld : Held lease doc) (hwrite : e.write = some (id, doc')) (hfree : ¬ Held lease doc') :
    Frees lease id prog c := by
  obtain ⟨hclosed, hlease⟩ := hheld
  cases h with
  | insert left i r write hr hnew =>
    have hnone := hnew id doc' hwrite
    rw [hdoc] at hnone
    cases hnone
  | take now ttl n claimed id' doc₀ hdoc₀ hclaimable =>
    cases hwrite
    cases hdoc.symm.trans hdoc₀
    rw [Doc.claimable, hclosed] at hclaimable
    cases hclaimable
  | reclaim now k id' doc₀ hdoc₀ hstale =>
    cases hwrite
    cases hdoc.symm.trans hdoc₀
    rw [Doc.stale, Bool.and_eq_true, decide_eq_true_eq] at hstale
    rw [hlease hstale.1] at hstale
    exact .reclaim now k (of_decide_eq_true hstale.2)
  | complete id' c a =>
    obtain ⟨doc₀, hdoc₀, hwrite⟩ := Option.map_eq_some_iff.mp hwrite
    cases hwrite
    cases hdoc.symm.trans hdoc₀
    cases c with
    | sent => exact absurd ⟨rfl, fun hflight => by cases hflight⟩ hfree
    | dead => exact absurd ⟨rfl, fun hflight => by cases hflight⟩ hfree
    | append => exact absurd ⟨hclosed, hlease⟩ hfree
    | retry fireAt => exact .retry fireAt a

variable {τ : Type} [DecidableEq τ] {limit : Nat}

/-- What a take does. -/
theorem take_step {s s' : MongoState τ} {t : τ} {id : DeliveryId}
    (h : step (mongoProgram limit) s (.exec t (.findOneAndUpdate id)) = some s') :
    ∃ now ttl n claimed doc, s.clients t = some (.claimBatch now ttl (n + 1) claimed) ∧
      s.docs id = some doc ∧ doc.fields.status.claimable = true ∧
      s'.docs id = some (doc.claim (now + ttl)) := by
  cases step_moves h with
  | exec t c prog e hprog he =>
    cases executes he with
    | take now ttl n claimed id doc hdoc hclaimable =>
      rw [Doc.claimable, Bool.and_eq_true] at hclaimable
      exact ⟨now, ttl, n, claimed, doc, hprog, hdoc, hclaimable.1, Function.update_self ..⟩

/-- **Takes are separated.** In every interleaving of any number of clients, whatever was in the
collection at the start and whoever left in the middle of a call: between two takes of a delivery
there is a `schedule_retry` of it, or a `reclaim_stale(now)` comes by it with `now` past the lease
that the first take wrote. -/
theorem takes_separated (limit : Nat) (docs : DeliveryId → Option Doc)
    (bs cs ds : List (MongoLabel τ)) (t t' : τ) (id : DeliveryId) (w : MongoState τ)
    (hrun : run (step (mongoProgram limit)) (start docs)
      (bs ++ .exec t (.findOneAndUpdate id) :: (cs ++ .exec t' (.findOneAndUpdate id) :: ds)) =
        some w) :
    ∃ x now ttl n claimed, run (step (mongoProgram limit)) (start docs) bs = some x ∧
      x.clients t = some (.claimBatch now ttl (n + 1) claimed) ∧
      ∃ cs₁ r c cs₂ u prog, cs = cs₁ ++ .exec r c :: cs₂ ∧
        run (step (mongoProgram limit)) (start docs)
          (bs ++ .exec t (.findOneAndUpdate id) :: cs₁) = some u ∧
        u.clients r = some prog ∧ Frees (now + ttl) id prog c := by
  obtain ⟨x, hx, hrun⟩ := run_append_some.mp hrun
  obtain ⟨y, hy, hrun⟩ := run_cons_some.mp hrun
  obtain ⟨z, hz, hrun⟩ := run_append_some.mp hrun
  obtain ⟨z', hz', -⟩ := run_cons_some.mp hrun
  obtain ⟨now, ttl, n, claimed, doc, hclient, -, -, hdoc⟩ := take_step hy
  obtain ⟨-, -, -, -, doc', -, hdoc', hclaimable, -⟩ := take_step hz'
  have hheld : At (Held (now + ttl)) id y := ⟨_, hdoc, held_claim _ doc⟩
  have hfree : ¬ At (Held (now + ttl)) id z := by
    rintro ⟨v, hv, hclosed, -⟩
    cases hdoc'.symm.trans hv
    rw [hclaimable] at hclosed
    cases hclosed
  obtain ⟨cs₁, r, c, cs₂, u, prog, e, v, v', rfl, hu, hprog, hv, hheldv, he, hwrite, hfreev⟩ :=
    freed_between hheld hfree hz
  refine ⟨x, now, ttl, n, claimed, hx, hclient, cs₁, r, c, cs₂, u, prog, rfl, ?_, hprog,
    frees_of_executes (executes he) hv hheldv hwrite hfreev⟩
  exact run_append_some.mpr ⟨x, hx, run_cons_some.mpr ⟨y, hy, hu⟩⟩

/-- A worker claims with a lease of 30 seconds and leaves. -/
def enqueueAndLeave : List (MongoLabel Bool) :=
  [.begin true (.enqueueMany [exampleRecord "d" "https://example.com/hook"]),
    .exec true (.insertOne 0), .leave true, .begin true (.claimBatch 0 30 50 [])]

theorem takes_separated_left : ∃ x now ttl n claimed,
    run (step (mongoProgram 20)) (start fun _ => none) enqueueAndLeave = some x ∧
      x.clients true = some (.claimBatch now ttl (n + 1) claimed) ∧
      ∃ cs₁ r c cs₂ u prog, [.leave true, .begin false (.reclaimStale 31 0),
          .exec false (.updateOf "d"), .leave false, .begin false (.claimBatch 31 30 50 [])] =
          cs₁ ++ .exec r c :: cs₂ ∧
        run (step (mongoProgram 20)) (start fun _ => none)
          (enqueueAndLeave ++ .exec true (.findOneAndUpdate "d") :: cs₁) = some u ∧
        u.clients r = some prog ∧ Frees (now + ttl) "d" prog c := by
  obtain ⟨w, hw⟩ := Option.isSome_iff_exists.mp (by decide +kernel :
    (run (step (mongoProgram 20)) (start fun _ => none)
      (enqueueAndLeave ++ .exec true (.findOneAndUpdate "d") ::
        ([.leave true, .begin false (.reclaimStale 31 0), .exec false (.updateOf "d"),
          .leave false, .begin false (.claimBatch 31 30 50 [])] ++
          [.exec false (.findOneAndUpdate "d")]))).isSome = true)
  exact takes_separated 20 _ enqueueAndLeave _ [] true false "d" w hw

end WebhookEngine.Stores.MongoClients
