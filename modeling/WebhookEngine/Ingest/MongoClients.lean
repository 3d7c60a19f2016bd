import WebhookEngine.Ingest.Mongo
import WebhookEngine.Lib.Documents

/-!
# Concurrent clients of the MongoDB event store

The calls of `MongoEventStore` cut into the commands that MongoDB executes atomically, each on
one document. Producers append, ingestors claim, ack and fail, and any of them reclaims; a
client may leave in the middle of a call.

* `ack_alone`, `reclaimStale_alone`, `claimEvents_alone`, `appendMany_alone`: the calls of the
  store are the calls whose commands run alone;
* `locks_separated`: between two takes of an event its lock has ended;
* `closed_for_good`: an acked or failed event is not taken again;
* `taken_as_inserted`: what is taken is the event that was inserted first.
-/

namespace WebhookEngine.Ingest.MongoClients

open Lib Lib.Run Lib.Documents Events Stores.Mongo Mongo
open Pg (Row claim_eventId ack_eventId fail_eventId reclaim_eventId)

variable {δ : Type}

/-- A call and how far it has got. -/
inductive Prog (δ : Type) where
  | appendMany (left : List (Datetime × IncomingEvent δ))
  | claimEvents (now : Datetime) (left : Nat) (claimed : List (IncomingEvent δ))
  | ack (ids : List EventId)
  | markFailed (id : EventId) (error : String)
  | reclaimStale (now : Datetime) (modified : Nat)
  | completed

inductive Command where
  | insertOne (i : Nat)
  | findOneAndUpdate (id : EventId)
  | updateOf (id : EventId)
  | updateOne
  deriving DecidableEq

def command (bson : δ → Option δ) (lockTtlS : Nat) :
    Prog δ → Command → (EventId → Option (Doc δ)) → Option (Effect EventId (Doc δ) (Prog δ))
  | .appendMany left, .insertOne i, docs =>
    left[i]?.bind fun x => (eventDoc bson x.1 x.2).map fun doc =>
      -- a duplicate `_id` is a write error of this document alone
      let write := if (docs doc.eventId).isNone then some (doc.eventId, doc) else none
      { write := write, next := .appendMany (left.eraseIdx i) }
  | .claimEvents now (n + 1) claimed, .findOneAndUpdate id, docs =>
    ((docs id).filter fun doc => doc.status = .pending).map fun doc =>
      { write := some (id, doc.claim (bsonDate now))
        next := .claimEvents now n (claimed ++ [doc.toEvent]) }
  | .ack ids, .updateOf id, docs =>
    ((docs id).filter fun _ => id ∈ ids).map fun doc =>
      { write := some (id, doc.ack), next := .ack ids }
  | .markFailed id error, .updateOne, docs =>
    some { write := (docs id).map fun doc => (id, doc.fail error), next := .completed }
  | .reclaimStale now k, .updateOf id, docs =>
    ((docs id).filter (Row.stale (bsonDate (now - lockTtlS)))).map fun doc =>
      { write := some (id, doc.reclaim), next := .reclaimStale now (k + 1) }
  | _, _, _ => none

/-- A batch with a payload that has no encoding is not sent. -/
def Prog.isNew (bson : δ → Option δ) : Prog δ → Bool
  | .appendMany left => (eventDocs bson left).isSome
  | .claimEvents _ _ claimed => claimed.isEmpty
  | .reclaimStale _ modified => modified = 0
  | .completed => false
  | _ => true

def mongoProgram (bson : δ → Option δ) (lockTtlS : Nat) :
    Program EventId (Doc δ) (Prog δ) Command where
  initial := Prog.isNew bson
  command := command bson lockTtlS

abbrev MongoState (δ τ : Type) := Documents.State τ EventId (Doc δ) (Prog δ)

abbrev MongoLabel (δ τ : Type) := Documents.Label τ (Prog δ) Command

/-! ## What a command can do -/

inductive Executes (bson : δ → Option δ) (lockTtlS : Nat) (docs : EventId → Option (Doc δ)) :
    Prog δ → Command → Effect EventId (Doc δ) (Prog δ) → Prop where
  | insert (left : List (Datetime × IncomingEvent δ)) (i : Nat) (clock : Datetime)
      (e : IncomingEvent δ) (doc : Doc δ) (write : Option (EventId × Doc δ))
      (he : left[i]? = some (clock, e)) (hdoc : eventDoc bson clock e = some doc)
      (hwrite : ∀ x, write = some x → docs doc.eventId = none ∧ x = (doc.eventId, doc)) :
      Executes bson lockTtlS docs (.appendMany left) (.insertOne i)
        { write := write, next := .appendMany (left.eraseIdx i) }
  | take (now : Datetime) (n : Nat) (claimed : List (IncomingEvent δ)) (id : EventId)
      (doc : Doc δ) (hdoc : docs id = some doc) (hpending : doc.status = .pending) :
      Executes bson lockTtlS docs (.claimEvents now (n + 1) claimed) (.findOneAndUpdate id)
        { write := some (id, doc.claim (bsonDate now))
          next := .claimEvents now n (claimed ++ [doc.toEvent]) }
  | ack (ids : List EventId) (id : EventId) (doc : Doc δ) (hdoc : docs id = some doc)
      (hid : id ∈ ids) :
      Executes bson lockTtlS docs (.ack ids) (.updateOf id)
        { write := some (id, doc.ack), next := .ack ids }
  | fail (id : EventId) (error : String) :
      Executes bson lockTtlS docs (.markFailed id error) .updateOne
        { write := (docs id).map fun doc => (id, doc.fail error), next := .completed }
  | reclaim (now : Datetime) (k : Nat) (id : EventId) (doc : Doc δ) (hdoc : docs id = some doc)
      (hstale : doc.stale (bsonDate (now - lockTtlS)) = true) :
      Executes bson lockTtlS docs (.reclaimStale now k) (.updateOf id)
        { write := some (id, doc.reclaim), next := .reclaimStale now (k + 1) }

theorem executes {bson : δ → Option δ} {lockTtlS : Nat} {docs : EventId → Option (Doc δ)}
    {prog : Prog δ} {c : Command} {e : Effect EventId (Doc δ) (Prog δ)}
    (h : command bson lockTtlS prog c docs = some e) : Executes bson lockTtlS docs prog c e := by
  rw [command.eq_def] at h
  split at h
  · obtain ⟨⟨clock, e⟩, he, h⟩ := Option.bind_eq_some_iff.mp h
    obtain ⟨doc, hdoc, rfl⟩ := Option.map_eq_some_iff.mp h
    refine .insert _ _ clock e doc _ he hdoc fun x hx => ?_
    obtain ⟨hnone, hx⟩ := Option.ite_none_right_eq_some.mp hx
    exact ⟨Option.isNone_iff_eq_none.mp hnone, (Option.some.inj hx).symm⟩
  · obtain ⟨doc, hdoc, rfl⟩ := Option.map_eq_some_iff.mp h
    obtain ⟨hdoc, hpending⟩ := Option.filter_eq_some_iff.mp hdoc
    exact .take _ _ _ _ doc hdoc (of_decide_eq_true hpending)
  · obtain ⟨doc, hdoc, rfl⟩ := Option.map_eq_some_iff.mp h
    obtain ⟨hdoc, hid⟩ := Option.filter_eq_some_iff.mp hdoc
    exact .ack _ _ doc hdoc (of_decide_eq_true hid)
  · cases h
    exact .fail _ _
  · obtain ⟨doc, hdoc, rfl⟩ := Option.map_eq_some_iff.mp h
    obtain ⟨hdoc, hstale⟩ := Option.filter_eq_some_iff.mp hdoc
    exact .reclaim _ _ _ doc hdoc hstale
  · cases h

/-! ## Calls that run alone -/

section Alone

variable (bson : δ → Option δ) (lockTtlS : Nat)

theorem appendMany_alone {es : List (Datetime × IncomingEvent δ)} {s s' : MongoEventStore δ}
    (h : appendMany bson s es = some s') :
    alone (mongoProgram bson lockTtlS) (.appendMany es) s.find? (es.map fun _ => .insertOne 0) =
      some (.appendMany [], s'.find?) := by
  obtain ⟨docs, hdocs, rfl⟩ := Option.map_eq_some_iff.mp h
  clear h
  induction es generalizing s docs with
  | nil =>
    cases hdocs
    rfl
  | cons x es ih =>
    obtain ⟨clock, e⟩ := x
    obtain ⟨doc, hdoc, hdocs⟩ := Option.bind_eq_some_iff.mp hdocs
    obtain ⟨docs, hrest, rfl⟩ := Option.map_eq_some_iff.mp hdocs
    have hcommand : (mongoProgram bson lockTtlS).command (.appendMany ((clock, e) :: es))
        (.insertOne 0) s.find? = some
          { write := if (s.find? doc.eventId).isNone then some (doc.eventId, doc) else none
            next := .appendMany es } := by
      change (eventDoc bson clock e).map _ = _
      rw [hdoc]
      rfl
    rw [List.map_cons, alone, hcommand, Option.bind_some, put_insert]
    exact ih docs hrest

theorem claimEvents_alone {now : Datetime} {ttl n : Nat} {id : EventId} {s s' : MongoEventStore δ}
    {es : List (IncomingEvent δ)} {last : Bool}
    (h : claimEvents s now ttl (n + 1) [id] = some (es, last, s'))
    (claimed : List (IncomingEvent δ)) :
    alone (mongoProgram bson lockTtlS) (.claimEvents now (n + 1) claimed) s.find?
        [.findOneAndUpdate id] = some (.claimEvents now n (claimed ++ es), s'.find?) := by
  obtain ⟨doc, hdoc, h⟩ := Option.map_eq_some_iff.mp h
  obtain ⟨hdoc, hfirst⟩ := Option.filter_eq_some_iff.mp hdoc
  cases h
  have hput := put_modify s id (Row.claim (bsonDate now)) (claim_eventId _)
  have hcommand : (mongoProgram bson lockTtlS).command (.claimEvents now (n + 1) claimed)
      (.findOneAndUpdate id) s.find? = some
        { write := some (id, doc.claim (bsonDate now))
          next := .claimEvents now n (claimed ++ [doc.toEvent]) } := by
    change ((s.find? id).filter _).map _ = _
    have hpending : doc.status = .pending := of_decide_eq_true (Bool.and_eq_true_iff.mp hfirst).1
    rw [hdoc]
    simp [hpending]
  rw [hdoc, Option.map_some] at hput
  rw [alone, hcommand, Option.bind_some, hput]
  rfl

theorem ack_alone (s : MongoEventStore δ) (ids : List EventId) :
    alone (mongoProgram bson lockTtlS) (.ack ids) s.find?
        ((s.rows.filter fun doc => decide (doc.eventId ∈ ids)).map fun doc =>
          .updateOf doc.eventId) = some (.ack ids, (ack s ids).find?) := by
  have hcommand : ∀ (docs : EventId → Option (Doc δ)) (_ : Nat) (doc : Doc δ),
      docs doc.eventId = some doc → decide (doc.eventId ∈ ids) = true →
      (mongoProgram bson lockTtlS).command (.ack ids) (.updateOf doc.eventId) docs =
        some { write := some (doc.eventId, doc.ack), next := .ack ids } := by
    intro docs _ doc hdoc hid
    change ((docs doc.eventId).filter fun _ => decide (doc.eventId ∈ ids)).map _ = _
    rw [hdoc, hid]
    rfl
  have hupdate := alone_update s ack_eventId hcommand
  exact hupdate

theorem markFailed_alone (s : MongoEventStore δ) (id : EventId) (error : String) :
    alone (mongoProgram bson lockTtlS) (.markFailed id error) s.find? [.updateOne] =
      some (.completed, (markFailed s id error).find?) :=
  congrArg (fun docs => some (Prog.completed, docs))
    (put_modify s id (Row.fail error) (fail_eventId error))

theorem reclaimStale_alone (s : MongoEventStore δ) (now : Datetime) :
    alone (mongoProgram bson lockTtlS) (.reclaimStale now 0) s.find?
        ((s.rows.filter (Row.stale (bsonDate (now - lockTtlS)))).map fun doc =>
          .updateOf doc.eventId) =
      some (.reclaimStale now (reclaimStale lockTtlS s now).1,
        (reclaimStale lockTtlS s now).2.find?) := by
  refine alone_update s reclaim_eventId fun docs k doc hdoc hstale => ?_
  change ((docs doc.eventId).filter _).map _ = _
  rw [hdoc, Option.filter_some_pos hstale]
  rfl

end Alone

/-! ## Takes are separated -/

/-- Not pending, and locked at `lock` if it is claimed. -/
def Held (lock : Datetime) (doc : Doc δ) : Prop :=
  doc.status ≠ .pending ∧ (doc.status = .claimed → doc.lockedAt = some (bsonDate lock))

def Closed (doc : Doc δ) : Prop := doc.status.closed = true

variable {bson : δ → Option δ} {lockTtlS : Nat}

/-- What a command does to a document that exists. -/
theorem executes_write {docs : EventId → Option (Doc δ)} {prog : Prog δ} {c : Command}
    {e : Effect EventId (Doc δ) (Prog δ)} (h : Executes bson lockTtlS docs prog c e)
    {id : EventId} {doc doc' : Doc δ} (hdoc : docs id = some doc)
    (hwrite : e.write = some (id, doc')) :
    (∃ now, doc.status = .pending ∧ doc' = doc.claim (bsonDate now)) ∨ doc' = doc.ack ∨
      (∃ error, doc' = doc.fail error) ∨
      ∃ now k, prog = .reclaimStale now k ∧ c = .updateOf id ∧
        doc.stale (bsonDate (now - lockTtlS)) = true ∧ doc' = doc.reclaim := by
  cases h with
  | insert left i clock e doc₀ write he hdoc₀ hnew =>
    obtain ⟨hnone, hx⟩ := hnew _ hwrite
    cases hx
    rw [hdoc] at hnone
    cases hnone
  | take now n claimed id' doc₀ hdoc₀ hpending =>
    cases hwrite
    cases hdoc.symm.trans hdoc₀
    exact Or.inl ⟨now, hpending, rfl⟩
  | ack ids id' doc₀ hdoc₀ hid =>
    cases hwrite
    cases hdoc.symm.trans hdoc₀
    exact Or.inr (Or.inl rfl)
  | fail id' error =>
    obtain ⟨doc₀, hdoc₀, hwrite⟩ := Option.map_eq_some_iff.mp hwrite
    cases hwrite
    cases hdoc.symm.trans hdoc₀
    exact Or.inr (Or.inr (Or.inl ⟨error, rfl⟩))
  | reclaim now k id' doc₀ hdoc₀ hstale =>
    cases hwrite
    cases hdoc.symm.trans hdoc₀
    exact Or.inr (Or.inr (Or.inr ⟨now, k, rfl, rfl, hstale, rfl⟩))

/-- A held document becomes claimable by a `reclaim_stale` past its lock. -/
theorem held_of_executes {docs : EventId → Option (Doc δ)} {prog : Prog δ} {c : Command}
    {e : Effect EventId (Doc δ) (Prog δ)} (h : Executes bson lockTtlS docs prog c e)
    {lock : Datetime} {id : EventId} {doc doc' : Doc δ} (hdoc : docs id = some doc)
    (hheld : Held lock doc) (hwrite : e.write = some (id, doc')) (hfree : ¬ Held lock doc') :
    ∃ now k, prog = .reclaimStale now k ∧ c = .updateOf id ∧
      bsonDate lock < bsonDate (now - lockTtlS) := by
  rcases executes_write h hdoc hwrite with
    ⟨now, hpending, -⟩ | rfl | ⟨error, rfl⟩ | ⟨now, k, hprog, hc, hstale, -⟩
  · exact absurd hpending hheld.1
  · exact absurd ⟨fun hp => (by cases hp), fun hc => (by cases hc)⟩ hfree
  · exact absurd ⟨fun hp => (by cases hp), fun hc => (by cases hc)⟩ hfree
  · rw [Row.stale, Bool.and_eq_true, decide_eq_true_eq] at hstale
    rw [hheld.2 hstale.1] at hstale
    exact ⟨now, k, hprog, hc, of_decide_eq_true hstale.2⟩

/-- No command opens a closed document. -/
theorem closed_of_executes {docs : EventId → Option (Doc δ)} {prog : Prog δ} {c : Command}
    {e : Effect EventId (Doc δ) (Prog δ)} (h : Executes bson lockTtlS docs prog c e)
    {id : EventId} {doc doc' : Doc δ} (hdoc : docs id = some doc) (hclosed : Closed doc)
    (hwrite : e.write = some (id, doc')) : Closed doc' := by
  rcases executes_write h hdoc hwrite with
    ⟨now, hpending, -⟩ | rfl | ⟨error, rfl⟩ | ⟨now, k, -, -, hstale, -⟩
  · rw [Closed, hpending] at hclosed
    cases hclosed
  · rfl
  · rfl
  · have hclaimed := (Bool.and_eq_true_iff.mp hstale).1
    rw [Closed, of_decide_eq_true hclaimed] at hclosed
    cases hclosed

/-- No command changes the event of a document. -/
theorem toEvent_of_executes {docs : EventId → Option (Doc δ)} {prog : Prog δ} {c : Command}
    {e : Effect EventId (Doc δ) (Prog δ)} (h : Executes bson lockTtlS docs prog c e)
    {id : EventId} {doc doc' : Doc δ} (hdoc : docs id = some doc)
    (hwrite : e.write = some (id, doc')) : doc'.toEvent = doc.toEvent := by
  rcases executes_write h hdoc hwrite with
    ⟨now, -, rfl⟩ | rfl | ⟨error, rfl⟩ | ⟨now, k, -, -, -, rfl⟩
  all_goals rfl

variable {τ : Type} [DecidableEq τ]

/-- What a take does. -/
theorem take_step {s s' : MongoState δ τ} {t : τ} {id : EventId}
    (h : step (mongoProgram bson lockTtlS) s (.exec t (.findOneAndUpdate id)) = some s') :
    ∃ now n claimed doc, s.clients t = some (.claimEvents now (n + 1) claimed) ∧
      s.docs id = some doc ∧ doc.status = .pending ∧
      s'.docs id = some (doc.claim (bsonDate now)) ∧
      s'.clients t = some (.claimEvents now n (claimed ++ [doc.toEvent])) := by
  cases step_moves h with
  | exec t c prog e hprog he =>
    cases executes he with
    | take now n claimed id doc hdoc hpending =>
      exact ⟨now, n, claimed, doc, hprog, hdoc, hpending, Function.update_self ..,
        Function.update_self ..⟩

/-- **Takes are separated.** In every interleaving of any number of clients, whatever was in the
collection at the start: between two takes of an event a `reclaim_stale(now)` comes by it with
`now` more than `lock_ttl_s` after the first take. -/
theorem locks_separated (bson : δ → Option δ) (lockTtlS : Nat) (docs : EventId → Option (Doc δ))
    (bs cs ds : List (MongoLabel δ τ)) (t t' : τ) (id : EventId) (w : MongoState δ τ)
    (hrun : run (step (mongoProgram bson lockTtlS)) (start docs)
      (bs ++ .exec t (.findOneAndUpdate id) :: (cs ++ .exec t' (.findOneAndUpdate id) :: ds)) =
        some w) :
    ∃ x lock n claimed, run (step (mongoProgram bson lockTtlS)) (start docs) bs = some x ∧
      x.clients t = some (.claimEvents lock (n + 1) claimed) ∧
      ∃ cs₁ r cs₂ u now k, cs = cs₁ ++ .exec r (.updateOf id) :: cs₂ ∧
        run (step (mongoProgram bson lockTtlS)) (start docs)
          (bs ++ .exec t (.findOneAndUpdate id) :: cs₁) = some u ∧
        u.clients r = some (.reclaimStale now k) ∧
        bsonDate lock < bsonDate (now - lockTtlS) := by
  obtain ⟨x, hx, hrun⟩ := run_append_some.mp hrun
  obtain ⟨y, hy, hrun⟩ := run_cons_some.mp hrun
  obtain ⟨z, hz, hrun⟩ := run_append_some.mp hrun
  obtain ⟨z', hz', -⟩ := run_cons_some.mp hrun
  obtain ⟨lock, n, claimed, doc, hclient, -, -, hdoc, -⟩ := take_step hy
  obtain ⟨-, -, -, doc', -, hdoc', hpending, -, -⟩ := take_step hz'
  have hheld : At (Held lock) id y := ⟨_, hdoc, fun hp => (by cases hp), fun _ => rfl⟩
  have hfree : ¬ At (Held lock) id z := by
    rintro ⟨v, hv, hnot, -⟩
    cases hdoc'.symm.trans hv
    exact hnot hpending
  obtain ⟨cs₁, r, c, cs₂, u, prog, e, v, v', rfl, hu, hprog, hv, hheldv, he, hwrite, hfreev⟩ :=
    freed_between hheld hfree hz
  obtain ⟨now, k, rfl, rfl, hlate⟩ := held_of_executes (executes he) hv hheldv hwrite hfreev
  refine ⟨x, lock, n, claimed, hx, hclient, cs₁, r, cs₂, u, now, k, rfl, ?_, hprog, hlate⟩
  exact run_append_some.mpr ⟨x, hx, run_cons_some.mpr ⟨y, hy, hu⟩⟩

def exampleEvent : IncomingEvent Unit where
  eventId := "e"
  event := "task.created"
  data := ()
  createdAt := some (1 / 3)

/-- An event is appended and an ingestor begins to claim. -/
def appendAndClaim : List (MongoLabel Unit Bool) :=
  [.begin true (.appendMany [(1, exampleEvent)]), .exec true (.insertOne 0), .leave true,
    .begin true (.claimEvents 1 10 [])]

/-- Another ingestor reclaims after the lock and begins to claim. -/
def reclaimAndClaim : List (MongoLabel Unit Bool) :=
  [.begin false (.reclaimStale 32 0), .exec false (.updateOf "e"), .leave false,
    .begin false (.claimEvents 32 10 [])]

abbrev exampleStep : MongoState Unit Bool → MongoLabel Unit Bool → Option (MongoState Unit Bool) :=
  step (mongoProgram some 30)

theorem locks_separated_stalled : ∃ x lock n claimed,
    run exampleStep (start fun _ => none) appendAndClaim = some x ∧
      x.clients true = some (.claimEvents lock (n + 1) claimed) ∧
      ∃ cs₁ r cs₂ u now k, reclaimAndClaim = cs₁ ++ .exec r (.updateOf "e") :: cs₂ ∧
        run exampleStep (start fun _ => none)
          (appendAndClaim ++ .exec true (.findOneAndUpdate "e") :: cs₁) = some u ∧
        u.clients r = some (.reclaimStale now k) ∧ bsonDate lock < bsonDate (now - (30 : Nat)) := by
  obtain ⟨w, hw⟩ := Option.isSome_iff_exists.mp (by decide +kernel :
    (run exampleStep (start fun _ => none) (appendAndClaim ++ .exec true (.findOneAndUpdate "e") ::
      (reclaimAndClaim ++ [.exec false (.findOneAndUpdate "e")]))).isSome = true)
  exact locks_separated some 30 _ appendAndClaim reclaimAndClaim [] true false "e" w hw

/-! ## Closed for good -/

/-- The commands that close an event: an `ack` comes by it, or a `mark_failed` of it. -/
inductive Closes (id : EventId) : Prog δ → Command → Prop where
  | ack (ids : List EventId) : Closes id (.ack ids) (.updateOf id)
  | fail (error : String) : Closes id (.markFailed id error) .updateOne

theorem closed_kept {s s' : MongoState δ τ} {as : List (MongoLabel δ τ)} {id : EventId}
    (hs : At Closed id s) (h : run (step (mongoProgram bson lockTtlS)) s as = some s') :
    At Closed id s' := by
  by_contra hopen
  obtain ⟨_, _, _, _, u, prog, e, v, v', -, -, -, hv, hclosed, he, hwrite, hopen⟩ :=
    freed_between hs hopen h
  exact hopen (closed_of_executes (executes he) hv hclosed hwrite)

theorem closes_step {s s' : MongoState δ τ} {t : τ} {prog : Prog δ} {c : Command} {id : EventId}
    (hprog : s.clients t = some prog) (hcloses : Closes id prog c)
    (hdoc : (s.docs id).isSome = true)
    (h : step (mongoProgram bson lockTtlS) s (.exec t c) = some s') : At Closed id s' := by
  obtain ⟨doc, hdoc⟩ := Option.isSome_iff_exists.mp hdoc
  cases step_moves h with
  | exec t c prog' e hprog' he =>
    cases hprog.symm.trans hprog'
    have hexec : Executes bson lockTtlS s.docs prog c e := executes he
    cases hcloses with
    | ack ids =>
      cases hexec with
      | ack ids id doc₀ hdoc₀ hid =>
        exact ⟨doc₀.ack, Function.update_self .., rfl⟩
    | fail error =>
      cases hexec with
      | fail id error =>
        refine ⟨doc.fail error, ?_, rfl⟩
        change put s.docs ((s.docs id).map fun doc => (id, doc.fail error)) id = _
        rw [hdoc]
        exact Function.update_self ..

/-- **Closed for good.** Once an `ack` or a `mark_failed` of any client has come by an event of
the collection, whoever holds its lease, no client takes it again in any continuation, whatever
the other clients are in the middle of and whatever calls follow. -/
theorem closed_for_good (bson : δ → Option δ) (lockTtlS : Nat) (u w : MongoState δ τ)
    (cs : List (MongoLabel δ τ)) (t : τ) (c : Command) (prog : Prog δ) (id : EventId)
    (hprog : u.clients t = some prog) (hcloses : Closes id prog c)
    (hdoc : (u.docs id).isSome = true)
    (hrun : run (step (mongoProgram bson lockTtlS)) u (.exec t c :: cs) = some w) (t' : τ) :
    .exec t' (.findOneAndUpdate id) ∉ cs := by
  obtain ⟨v, hv, hrun⟩ := run_cons_some.mp hrun
  have hclosed := closes_step hprog hcloses hdoc hv
  intro hmem
  obtain ⟨cs₁, cs₂, rfl⟩ := List.append_of_mem hmem
  obtain ⟨x, hx, hrun⟩ := run_append_some.mp hrun
  obtain ⟨y, hy, -⟩ := run_cons_some.mp hrun
  obtain ⟨-, -, -, doc, -, hdoc, hpending, -, -⟩ := take_step hy
  obtain ⟨doc', hdoc', hclosed'⟩ := closed_kept hclosed hx
  cases hdoc.symm.trans hdoc'
  rw [Closed, hpending] at hclosed'
  cases hclosed'

/-- The stalled ingestor acks after the event went to the other; the other fails it. -/
def lateAck : List (MongoLabel Unit Bool) :=
  appendAndClaim ++ .exec true (.findOneAndUpdate "e") ::
    (reclaimAndClaim ++ [.exec false (.findOneAndUpdate "e"), .leave true,
      .begin true (.ack ["e"])])

def failAndClaim : List (MongoLabel Unit Bool) :=
  [.leave false, .begin false (.markFailed "e" "late"), .exec false .updateOne, .leave false,
    .begin false (.claimEvents 33 10 [])]

theorem closed_for_good_late : ∃ u w,
    run exampleStep (start fun _ => none) lateAck = some u ∧
      run exampleStep u (.exec true (.updateOf "e") :: failAndClaim) = some w ∧
      .exec false (.findOneAndUpdate "e") ∉ failAndClaim := by
  obtain ⟨u, hu, hnext⟩ := (Option.any_eq_true ..).mp (by decide +kernel :
    (run exampleStep (start fun _ => none) lateAck).any (fun u => (u.docs "e").isSome &&
      (u.clients true).any (fun prog => match prog with | .ack ids => ids = ["e"] | _ => false) &&
      (run exampleStep u (.exec true (.updateOf "e") :: failAndClaim)).isSome) = true)
  simp only [Bool.and_eq_true] at hnext
  obtain ⟨⟨hdoc, hclient⟩, hrun⟩ := hnext
  obtain ⟨w, hw⟩ := Option.isSome_iff_exists.mp hrun
  obtain ⟨prog, hprog, hack⟩ := (Option.any_eq_true ..).mp hclient
  split at hack
  · exact ⟨u, w, hu, hw,
      closed_for_good some 30 u w failAndClaim true _ _ "e" hprog (.ack _) hdoc hw false⟩
  · cases hack

/-! ## What is taken -/

theorem toEvent_kept {s s' : MongoState δ τ} {as : List (MongoLabel δ τ)} {id : EventId}
    {event : IncomingEvent δ} (hs : At (fun doc : Doc δ => doc.toEvent = event) id s)
    (h : run (step (mongoProgram bson lockTtlS)) s as = some s') :
    At (fun doc : Doc δ => doc.toEvent = event) id s' := by
  by_contra hlost
  obtain ⟨_, _, _, _, u, prog, e, v, v', -, -, -, hv, hevent, he, hwrite, hlost⟩ :=
    freed_between hs hlost h
  exact hlost ((toEvent_of_executes (executes he) hv hwrite).trans hevent)

/-- **What is taken is what was inserted.** In every run from an empty collection, an event that a
client is given is the one of the insert that brought its id, with the time of then: no append,
claim or reclaim since has changed it. -/
theorem taken_as_inserted (bson : δ → Option δ) (lockTtlS : Nat) (bs : List (MongoLabel δ τ))
    (t : τ) (id : EventId) (w : MongoState δ τ)
    (hrun : run (step (mongoProgram bson lockTtlS)) (start fun _ => none)
      (bs ++ [.exec t (.findOneAndUpdate id)]) = some w) :
    ∃ bs₁ r i bs₂ u left clock e doc, bs = bs₁ ++ .exec r (.insertOne i) :: bs₂ ∧
      run (step (mongoProgram bson lockTtlS)) (start fun _ => none) bs₁ = some u ∧
      u.docs id = none ∧ u.clients r = some (.appendMany left) ∧ left[i]? = some (clock, e) ∧
      eventDoc bson clock e = some doc ∧ doc.eventId = id ∧
      ∃ now n claimed, w.clients t = some (.claimEvents now n (claimed ++ [doc.toEvent])) := by
  obtain ⟨x, hx, hrun⟩ := run_append_some.mp hrun
  obtain ⟨y, hy, hnil⟩ := run_cons_some.mp hrun
  cases hnil
  obtain ⟨now, n, claimed, doc', -, hdoc', -, -, hclient⟩ := take_step hy
  obtain ⟨bs₁, a, bs₂, u, v, rfl, hu, hv, hrest, hnone, hsome⟩ :=
    run_flip (Q := fun s : MongoState δ τ => (s.docs id).isSome = true)
      (by rw [start]; exact Bool.false_ne_true) (by rw [hdoc']; rfl) hx
  have hnone : u.docs id = none := Option.not_isSome_iff_eq_none.mp hnone
  have hne : v.docs id ≠ u.docs id := by
    rw [hnone]
    exact Option.isSome_iff_ne_none.mp hsome
  obtain ⟨r, c, prog, e, doc, rfl, hprog, he, hwrite, hdoc⟩ := doc_of_step hv hne
  cases executes he with
  | insert left i clock event doc₀ write hevent hdoc₀ hnew =>
    obtain ⟨-, hx⟩ := hnew _ hwrite
    cases hx
    have hkept : At (fun doc' : Doc δ => doc'.toEvent = doc.toEvent) doc.eventId x :=
      toEvent_kept ⟨doc, hdoc, rfl⟩ hrest
    obtain ⟨v', hv', htoEvent⟩ := hkept
    cases hdoc'.symm.trans hv'
    rw [htoEvent] at hclient
    exact ⟨bs₁, r, i, bs₂, u, left, clock, event, doc, rfl, hu, hnone, hprog, hevent, hdoc₀, rfl,
      now, n, claimed, hclient⟩
  | take now n claimed id' doc₀ hdoc₀ hpending =>
    cases hwrite
    rw [hnone] at hdoc₀
    cases hdoc₀
  | ack ids id' doc₀ hdoc₀ hid =>
    cases hwrite
    rw [hnone] at hdoc₀
    cases hdoc₀
  | fail id' error =>
    obtain ⟨doc₀, hdoc₀, hwrite⟩ := Option.map_eq_some_iff.mp hwrite
    cases hwrite
    rw [hnone] at hdoc₀
    cases hdoc₀
  | reclaim now k id' doc₀ hdoc₀ hstale =>
    cases hwrite
    rw [hnone] at hdoc₀
    cases hdoc₀

/-- The event is leased, appended again with another name and another time, and returned to
PENDING; another ingestor begins to claim. -/
def takenAgain : List (MongoLabel Unit Bool) :=
  appendAndClaim ++ [.exec true (.findOneAndUpdate "e"),
    .begin false
      (.appendMany [(5, { exampleEvent with event := "task.closed", createdAt := none })]),
    .exec false (.insertOne 0), .leave false] ++ reclaimAndClaim

theorem taken_as_inserted_again : ∃ w, run exampleStep (start fun _ => none)
      (takenAgain ++ [.exec false (.findOneAndUpdate "e")]) = some w ∧
    ∃ bs₁ r i bs₂ u left clock e doc, takenAgain = bs₁ ++ .exec r (.insertOne i) :: bs₂ ∧
      run exampleStep (start fun _ => none) bs₁ = some u ∧ u.docs "e" = none ∧
      u.clients r = some (.appendMany left) ∧ left[i]? = some (clock, e) ∧
      eventDoc some clock e = some doc ∧ doc.eventId = "e" ∧
      ∃ now n claimed, w.clients false = some (.claimEvents now n (claimed ++ [doc.toEvent])) := by
  obtain ⟨w, hw⟩ := Option.isSome_iff_exists.mp (by decide +kernel :
    (run exampleStep (start fun _ => none)
      (takenAgain ++ [.exec false (.findOneAndUpdate "e")])).isSome = true)
  exact ⟨w, hw, taken_as_inserted some 30 takenAgain false "e" w hw⟩

end WebhookEngine.Ingest.MongoClients
