import Mathlib.Data.Set.Basic
import WebhookEngine.Stores.Shipped

/-!
# The URLs of a delivery store

`urls` is the set of target URLs that a store shows. `KeepsUrls` says that no call makes a
URL: an enqueue adds those of its records, everything else hands out or keeps what is there.

* `Shipped.keepsUrls`: the shipped stores are so.
-/

namespace WebhookEngine.Stores.Queue

/-- The target URLs of the records that `get` shows. -/
def urls (q : DeliveryStore) (s : q.State) : Set String :=
  {u | ∃ id r, q.get s id = some r ∧ r.targetUrl = u}

def urlsOf (rs : List DeliveryRecord) : Set String := {u | ∃ r ∈ rs, r.targetUrl = u}

structure KeepsUrls (q : DeliveryStore) : Prop where
  empty : urls q q.empty = ∅
  enqueue : ∀ s rs s', q.enqueueMany s rs = some s' → urls q s' ⊆ urls q s ∪ urlsOf rs
  claim : ∀ s now ttl n pick rs s', q.claimBatch s now ttl n pick = some (rs, s') →
    urlsOf rs ⊆ urls q s ∧ urls q s' ⊆ urls q s
  reclaim : ∀ s now, urls q (q.reclaimStale s now).2 ⊆ urls q s
  complete : ∀ s id c a s', q.complete s id c a = some s' → urls q s' ⊆ urls q s

/-- A record shown after the call has the URL of one shown before. -/
theorem urls_subset {q : DeliveryStore} {s s' : q.State}
    (h : ∀ id r', q.get s' id = some r' →
      ∃ id₀ r, q.get s id₀ = some r ∧ r.targetUrl = r'.targetUrl) : urls q s' ⊆ urls q s := by
  rintro u ⟨id, r', hr', rfl⟩
  exact h id r' hr'

end WebhookEngine.Stores.Queue

namespace WebhookEngine.Stores

open Lib Queue

/-! ## Stores with a table -/

section Rows

variable {ρ : Type} {key : ρ → DeliveryId} {record : ρ → DeliveryRecord}

/-- The URLs of a table of rows, each read as a record. -/
def rowUrls (record : ρ → DeliveryRecord) (t : Table key) : Set String :=
  {u | ∃ row ∈ t.rows, (record row).targetUrl = u}

theorem rowUrls_update (t : Table key) (p : ρ → Bool) (f : ρ → ρ) (hf : ∀ r, key (f r) = key r)
    (hurl : ∀ r, (record (f r)).targetUrl = (record r).targetUrl) :
    rowUrls record (t.update p f hf) ⊆ rowUrls record t := by
  rintro u ⟨row', hrow', rfl⟩
  obtain ⟨row, hrow, rfl⟩ := List.mem_map.mp hrow'
  refine ⟨row, hrow, ?_⟩
  by_cases hp : p row = true
  · rw [if_pos hp, hurl]
  · rw [if_neg hp]

theorem rowUrls_modify (t : Table key) (k : DeliveryId) (f : ρ → ρ) (hf : ∀ r, key (f r) = key r)
    (hurl : ∀ r, (record (f r)).targetUrl = (record r).targetUrl) :
    rowUrls record (t.modify k f hf) ⊆ rowUrls record t :=
  rowUrls_update t _ f hf hurl

theorem rowUrls_insertMany (t : Table key) (rs : List ρ) :
    rowUrls record (t.insertMany rs) ⊆
      rowUrls record t ∪ {u | ∃ row ∈ rs, (record row).targetUrl = u} := by
  rintro u ⟨row, hrow, rfl⟩
  have hfind := Table.find?_of_mem hrow
  rw [Table.find?_insertMany] at hfind
  rcases Option.or_eq_some_iff.mp hfind with h | ⟨-, h⟩
  · exact .inl ⟨row, (Table.find?_eq_some.mp h).1, rfl⟩
  · exact .inr ⟨row, List.mem_of_find?_eq_some h, rfl⟩

/-- A store whose `get` reads the row of an id. -/
theorem urls_eq_rowUrls {q : DeliveryStore} {s : q.State} {t : Table key}
    (hget : ∀ id, q.get s id = (t.find? id).map record) : urls q s = rowUrls record t := by
  ext u
  constructor
  · rintro ⟨id, r, hr, rfl⟩
    rw [hget] at hr
    obtain ⟨row, hrow, rfl⟩ := Option.map_eq_some_iff.mp hr
    exact ⟨row, (Table.find?_eq_some.mp hrow).1, rfl⟩
  · rintro ⟨row, hrow, rfl⟩
    exact ⟨key row, record row, by rw [hget, Table.find?_of_mem hrow, Option.map_some], rfl⟩

/-- The same law for a store whose `get` reads the row of an id. -/
theorem keepsUrls_of_rows (q : DeliveryStore) (record : ρ → DeliveryRecord)
    (table : q.State → Table key)
    (hget : ∀ s id, q.get s id = ((table s).find? id).map record)
    (hempty : (table q.empty).rows = [])
    (henqueue : ∀ s rs s', q.enqueueMany s rs = some s' →
      rowUrls record (table s') ⊆ rowUrls record (table s) ∪ urlsOf rs)
    (hclaim : ∀ s now ttl n pick rs s', q.claimBatch s now ttl n pick = some (rs, s') →
      urlsOf rs ⊆ rowUrls record (table s) ∧
        rowUrls record (table s') ⊆ rowUrls record (table s))
    (hreclaim : ∀ s now,
      rowUrls record (table (q.reclaimStale s now).2) ⊆ rowUrls record (table s))
    (hcomplete : ∀ s id c a s', q.complete s id c a = some s' →
      rowUrls record (table s') ⊆ rowUrls record (table s)) : KeepsUrls q := by
  have hurls : ∀ s, urls q s = rowUrls record (table s) := fun s => urls_eq_rowUrls (hget s)
  constructor
  · rw [hurls]
    refine Set.eq_empty_of_forall_notMem ?_
    rintro u ⟨row, hrow, -⟩
    rw [hempty] at hrow
    cases hrow
  · simpa only [hurls] using henqueue
  · simpa only [hurls] using hclaim
  · simpa only [hurls] using hreclaim
  · simpa only [hurls] using hcomplete

/-- What an enqueue of rows made of records adds. -/
theorem rowUrls_enqueue (t : Table key) (rs : List DeliveryRecord) (f : DeliveryRecord → ρ)
    (hurl : ∀ r, (record (f r)).targetUrl = r.targetUrl) :
    rowUrls record (t.insertMany (rs.map f)) ⊆ rowUrls record t ∪ urlsOf rs := by
  refine (rowUrls_insertMany t _).trans (Set.union_subset_union_right _ ?_)
  rintro u ⟨row, hrow, rfl⟩
  obtain ⟨r, hr, rfl⟩ := List.mem_map.mp hrow
  exact ⟨r, hr, (hurl r).symm⟩

end Rows

theorem memory_complete {s s' : Memory.MemoryWebhookDeliveryStore} {id : DeliveryId}
    {a : AttemptRecord} (f : DeliveryRecord → DeliveryRecord)
    (hf : ∀ r, (f r).deliveryId = r.deliveryId) (hurl : ∀ r, (f r).targetUrl = r.targetUrl)
    (h : Memory.complete s id a f hf = some s') :
    rowUrls (fun r => r) s'.records ⊆ rowUrls (fun r => r) s.records := by
  obtain ⟨-, h⟩ := Option.ite_none_right_eq_some.mp h
  cases h
  exact rowUrls_modify s.records id f hf hurl

theorem keepsUrls_memory : KeepsUrls Memory.memoryStore := by
  refine keepsUrls_of_rows Memory.memoryStore (fun r => r)
    Memory.MemoryWebhookDeliveryStore.records ?_ rfl ?_ ?_ ?_ ?_
  · exact fun s id => Option.map_id'.symm
  · intro s rs s' h
    cases h
    exact rowUrls_insertMany s.records rs
  · intro s now ttl n pick rs s' h
    cases h
    refine ⟨?_, rowUrls_update s.records _ _ (Memory.setStatus_deliveryId _) fun _ => rfl⟩
    rintro u ⟨r, hr, rfl⟩
    exact ⟨r, (Memory.mem_records_of_mem_ready hr).1, rfl⟩
  · exact fun s now =>
      rowUrls_update s.records _ _ (Memory.setStatus_deliveryId _) fun _ => rfl
  · intro s id c a s' h
    cases c with
    | sent => exact memory_complete _ (Memory.setStatus_deliveryId .sent) (fun _ => rfl) h
    | retry t => exact memory_complete _ (by intro r; rfl) (by intro r; rfl) h
    | dead => exact memory_complete _ (Memory.setStatus_deliveryId .deadLettered) (fun _ => rfl) h
    | append =>
      cases h
      exact subset_refl _

theorem keepsUrls_pg : KeepsUrls Pg.pgStore := by
  refine keepsUrls_of_rows Pg.pgStore Pg.Row.record Pg.PgWebhookDeliveryStore.deliveries
    (fun _ _ => rfl) rfl ?_ ?_ ?_ ?_
  · intro s rs s' h
    rw [Pg.eq_of_enqueueMany h]
    exact rowUrls_enqueue _ rs Pg.Row.ofRecord fun _ => rfl
  · intro s now ttl n pick rs s' h
    obtain ⟨-, -, hin, -⟩ := Pg.mem_claimBatch h
    obtain ⟨-, h⟩ := Option.ite_none_right_eq_some.mp h
    cases h
    refine ⟨?_, rowUrls_update s.deliveries _ _ (Pg.claim_deliveryId _) fun _ => rfl⟩
    rintro u ⟨r, hr, rfl⟩
    obtain ⟨row, hrow, -, he, -⟩ := hin r hr
    exact ⟨row, (Table.find?_eq_some.mp hrow).1, by rw [he]; rfl⟩
  · exact fun s now => rowUrls_update s.deliveries _ _ Pg.reclaim_deliveryId fun _ => rfl
  · intro s id c a s' h
    rw [Pg.eq_of_complete h]
    refine rowUrls_modify s.deliveries id _ (Pg.settle_deliveryId c a) fun row => ?_
    cases c <;> rfl

theorem mongo_claim {now e : Datetime} {n : Nat} {ids : List DeliveryId}
    {col col' : Mongo.Collection} {rs : List DeliveryRecord}
    (h : Mongo.claimLoop now e n ids col = some (rs, col')) :
    urlsOf rs ⊆ rowUrls Mongo.docToRecord col ∧
      rowUrls Mongo.docToRecord col' ⊆ rowUrls Mongo.docToRecord col := by
  obtain ⟨-, hin, hout⟩ := Mongo.mem_claimLoop h
  constructor
  · rintro u ⟨r, hr, rfl⟩
    obtain ⟨doc, hdoc, -, he, -⟩ := hin r hr
    exact ⟨doc, (Table.find?_eq_some.mp hdoc).1, by rw [he]; rfl⟩
  · rintro u ⟨doc', hdoc', rfl⟩
    have hfind := Table.find?_of_mem hdoc'
    by_cases hid : ∃ r ∈ rs, r.deliveryId = doc'.deliveryId
    · obtain ⟨r, hr, he⟩ := hid
      obtain ⟨doc, hdoc, -, -, hclaimed⟩ := hin r hr
      rw [he, hfind, Option.some_inj] at hclaimed
      exact ⟨doc, (Table.find?_eq_some.mp hdoc).1, by rw [hclaimed]; rfl⟩
    · rw [hout doc'.deliveryId fun r hr he => hid ⟨r, hr, he⟩] at hfind
      exact ⟨doc', (Table.find?_eq_some.mp hfind).1, rfl⟩

theorem keepsUrls_mongo (limit : Nat) : KeepsUrls (Mongo.mongoStore limit) := by
  refine keepsUrls_of_rows (Mongo.mongoStore limit) Mongo.docToRecord
    (fun col : Mongo.Collection => col) (fun _ _ => rfl) rfl ?_ ?_ ?_ ?_
  · intro s rs s' h
    cases h
    exact rowUrls_enqueue _ rs Mongo.recordToDoc fun _ => rfl
  · exact fun s now ttl n pick rs s' h => mongo_claim h
  · exact fun (s : Mongo.Collection) now =>
      rowUrls_update s _ _ Mongo.reclaim_deliveryId fun _ => rfl
  · intro (s : Mongo.Collection) id c a s' h
    cases h
    refine rowUrls_modify s id _ (Mongo.push_set_deliveryId limit c a) fun doc => ?_
    cases c <;> rfl

/-! ## Redis -/

theorem redis_get_congr {s s' : Redis.RedisState} {id : DeliveryId}
    (h : Redis.at_ s' id = Redis.at_ s id) : Redis.get s' id = Redis.get s id :=
  (Redis.get_of_at h).trans (Redis.get_of_at rfl).symm

/-- What a pipeline of `enqueue_many` shows at an id. -/
theorem redis_enqueue {rs : List DeliveryRecord} {cs : List Redis.Command}
    (h : Redis.enqueuePipeline rs = some cs) {s : Redis.RedisState} {id : DeliveryId}
    {r' : DeliveryRecord} (hr' : Redis.get (Redis.execAll s cs) id = some r') :
    Redis.get s id = some r' ∨ ∃ r ∈ rs, r.targetUrl = r'.targetUrl := by
  induction rs generalizing cs s with
  | nil =>
    cases h
    exact .inl hr'
  | cons r rs ih =>
    obtain ⟨ds, hds, h⟩ := Option.bind_eq_some_iff.mp h
    obtain ⟨es, hes, rfl⟩ := Option.map_eq_some_iff.mp h
    rw [Redis.execAll_append] at hr'
    rcases ih hes hr' with hbefore | ⟨r₀, hr₀, he⟩
    · by_cases hid : r.deliveryId = id
      · subst hid
        obtain ⟨data, -, hat⟩ := Redis.at_enqueueOne hds s
        rw [Redis.get_of_hash hat (Redis.hashToRecord_recordFields ..), Option.some_inj] at hbefore
        subst hbefore
        exact .inr ⟨r, List.mem_cons_self .., rfl⟩
      · left
        rw [← hbefore]
        have hother := Redis.at_execAll s ds fun c hc he =>
          hid ((Redis.enqueueOne_id hds c hc).symm.trans he)
        exact (redis_get_congr hother).symm
    · exact .inr ⟨r₀, List.mem_cons_of_mem _ hr₀, he⟩

/-- What a claim shows at an id. -/
theorem redis_claim {s : Redis.RedisState} (hs : Redis.Readable s) {now : Datetime} {ttl n : Nat}
    {id : DeliveryId} {r' : DeliveryRecord}
    (hr' : Redis.get (Redis.claimBatch s now ttl n).2 id = some r') :
    ∃ r, Redis.get s id = some r ∧ r.targetUrl = r'.targetUrl := by
  by_cases hid : ∃ r ∈ (Redis.claimScript s (Redis.toMs now)
      (Redis.toMs now + ttl * 1000) n).1.filterMap (Redis.get s), r.deliveryId = id
  · obtain ⟨r, hr, rfl⟩ := hid
    obtain ⟨h, hh, hrec, -, hat⟩ := Redis.at_claimed hs hr
    rw [Redis.get_of_hash hat (Redis.hashToRecord_status hrec .inFlight), Option.some_inj] at hr'
    subst hr'
    exact ⟨r, by rw [Redis.get, hh, Option.bind_some, hrec], rfl⟩
  · rcases Redis.at_unclaimed hs fun r hr he => hid ⟨r, hr, he⟩ with hat | ⟨-, -, hnone⟩
    · exact ⟨r', by rw [← redis_get_congr hat, hr'], rfl⟩
    · rw [Redis.get, hnone] at hr'
      cases hr'

/-- What a completion shows at an id. -/
theorem redis_complete {s : Redis.RedisState} (hs : Redis.Readable s) {limit : Nat}
    {id id' : DeliveryId} {c : Completion} {a : AttemptRecord} (hid : (s.hashOf id).isSome = true)
    {r' : DeliveryRecord}
    (hr' : Redis.get (Redis.execAll s (Redis.complete limit id a c)) id' = some r') :
    ∃ r, Redis.get s id' = some r ∧ r.targetUrl = r'.targetUrl := by
  by_cases he : id = id'
  · subst he
    obtain ⟨h, hh⟩ := Option.isSome_iff_exists.mp hid
    obtain ⟨r, hr, -⟩ := hs id h hh
    obtain ⟨h', r'', ready, inflight, hat, hr'', -, hjob⟩ := Redis.at_complete hh hr limit a c
    rw [Redis.get_of_hash hat hr'', Option.some_inj] at hr'
    subst hr'
    have hcore := congrArg Job.core hjob
    rw [settle_core] at hcore
    have hurl : (core r'').targetUrl = (core r).targetUrl :=
      congrArg DeliveryRecord.targetUrl hcore
    exact ⟨r, by rw [Redis.get, hh, Option.bind_some, hr], hurl.symm⟩
  · have hother := Redis.at_execAll s (Redis.complete limit id a c) fun cmd hcmd h =>
      he ((Redis.complete_id limit id a c cmd hcmd).symm.trans h)
    exact ⟨r', by rw [← redis_get_congr hother, hr'], rfl⟩

theorem keepsUrls_redis (limit : Nat) : KeepsUrls (Redis.redisStore limit) where
  empty := by
    refine Set.eq_empty_of_forall_notMem ?_
    rintro u ⟨id, r, hr, -⟩
    cases hr
  enqueue s rs s' h := by
    obtain ⟨cs, hcs, hs'⟩ := Redis.enqueueMany_some h
    rintro u ⟨id, r', hr', rfl⟩
    have hget : Redis.get (Redis.execAll s.1 cs) id = some r' := hs' ▸ hr'
    rcases redis_enqueue hcs hget with hbefore | ⟨r, hr, he⟩
    · exact .inl ⟨id, r', hbefore, rfl⟩
    · exact .inr ⟨r, hr, he⟩
  claim s now ttl n pick rs s' h := by
    obtain ⟨rs', hrs', h⟩ := Option.map_eq_some_iff.mp h
    cases h
    constructor
    · rw [Redis.claimBatch_eq s.2, Option.some_inj] at hrs'
      rintro u ⟨r, hr, rfl⟩
      obtain ⟨r₀, hr₀, rfl⟩ := List.mem_map.mp (hrs' ▸ hr)
      obtain ⟨id, -, hget⟩ := List.mem_filterMap.mp hr₀
      exact ⟨id, r₀, hget, rfl⟩
    · exact urls_subset fun id r' hr' => ⟨id, redis_claim s.2 hr'⟩
  reclaim s now := urls_subset fun id r' hr' => ⟨id, r', hr', rfl⟩
  complete s id c a s' h := by
    obtain ⟨hid, h⟩ := Option.dite_none_right_eq_some.mp h
    cases h
    exact urls_subset fun id' r' hr' => ⟨id', redis_complete s.2 hid hr'⟩

theorem Shipped.keepsUrls (b : Shipped) : KeepsUrls b.queue.toDeliveryStore := by
  cases b with
  | memory => exact keepsUrls_memory
  | redis limit => exact keepsUrls_redis limit
  | mongo limit => exact keepsUrls_mongo limit
  | postgres => exact keepsUrls_pg

end WebhookEngine.Stores
