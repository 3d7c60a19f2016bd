import WebhookEngine.Body
import WebhookEngine.Subscriptions.Pausing

/-!
# Replaying a delivery

`DeliveryAdminService.redeliver` builds the record of a replay field by field. The profile
of the original and its secret version are not among the fields, so they get their defaults.

* `encode_core`, `encode_clone`: what an encoder reads of a record;
* `replay_same_iff`: when a replay is sent as its original was.
-/

namespace WebhookEngine.Subscriptions.Redelivery

open Lib Stores.Queue Dispatcher Body Pausing

variable {py : Python} {δ : Type}

/-- The columns that the dispatcher selects the profile and the secret by. -/
structure SameKeys (original replay : DeliveryRecord) : Prop where
  profile : replay.profile = original.profile
  secretVersion : replay.secretVersion = original.secretVersion

/-- The original under the delivery id of the replay, to which it is linked. -/
def relabelled (original replay : DeliveryRecord) : DeliveryRecord :=
  { original with
    deliveryId := replay.deliveryId
    redeliveryOf := some original.deliveryId }

/-- The replay is sent as the original: with the same profile, hence the same encoder, signer,
retry config and response cap, and with its body at every attempt. -/
structure SameSend (json : Serialiser) (d : WebhookDispatcher py)
    (original replay : DeliveryRecord) : Prop extends SameKeys original replay where
  picked : d.profiles.of replay = d.profiles.of original
  body : ∀ profile (enc : Encoder),
    d.profiles.of original = some profile → profile.encode = enc.encode json →
    ∃ profile', d.profiles.of replay = some profile' ∧
      ∀ attempt, profile'.encode replay attempt =
        enc.encode json (relabelled original replay) attempt

/-- What a shipped encoder reads is not rewritten while a record is queued. -/
theorem encode_core (json : Serialiser) (enc : Encoder) (r : DeliveryRecord) (attempt : Nat) :
    enc.encode json (core r) attempt = enc.encode json r attempt := by
  cases enc <;> rfl

/-- Of what it reads, the clone has all but the delivery id from the original. -/
theorem encode_clone (json : Serialiser) (enc : Encoder) (original : DeliveryRecord)
    (now : Datetime) (id : DeliveryId) (attempt : Nat) :
    enc.encode json (cloneRecord original now id) attempt =
      enc.encode json (relabelled original (cloneRecord original now id)) attempt := by
  cases enc <;> rfl

theorem redeliver_eq {svc : Service py δ} {q : LeaseQueue} {s : q.State} {id : DeliveryId}
    {now : Datetime} {uuid : DeliveryId} {original clone : DeliveryRecord}
    (horiginal : q.get s id = some original)
    (hclone : redeliver svc q s id now uuid = some clone) :
    clone = cloneRecord original now uuid := by
  rw [redeliver, horiginal, Option.bind_some] at hclone
  split at hclone
  · exact (Option.some_inj.mp hclone).symm
  · cases hclone

/-- **When a replay is sent as its original was**: for the record that `redeliver` queues, as
any claim hands it out, exactly when the original has the default profile and no secret
version. The two bodies are compared for the encoders that the package ships. -/
theorem replay_same_iff (json : Serialiser) (d : WebhookDispatcher py) (svc : Service py δ)
    (q : LeaseQueue) (s : q.State) (id : DeliveryId) (now : Datetime) (uuid : DeliveryId)
    (original clone replay : DeliveryRecord) (horiginal : q.get s id = some original)
    (hclone : redeliver svc q s id now uuid = some clone) (hreplay : core replay = core clone) :
    SameSend json d original replay ↔
      original.profile = DEFAULT_PROFILE ∧ original.secretVersion = none := by
  obtain rfl := redeliver_eq horiginal hclone
  have hprofile : replay.profile = DEFAULT_PROFILE := congrArg DeliveryRecord.profile hreplay
  have hversion : replay.secretVersion = none := congrArg DeliveryRecord.secretVersion hreplay
  have hid : replay.deliveryId = uuid := congrArg DeliveryRecord.deliveryId hreplay
  constructor
  · intro h
    exact ⟨h.profile.symm.trans hprofile, h.secretVersion.symm.trans hversion⟩
  · rintro ⟨hdefault, hnone⟩
    have hsame : replay.profile = original.profile := hprofile.trans hdefault.symm
    have hpicked : d.profiles.of replay = d.profiles.of original := by
      rw [ProfileRegistry.of, hsame, ← ProfileRegistry.of]
    refine ⟨⟨hsame, hversion.trans hnone.symm⟩, hpicked, fun profile enc hfound hencode => ?_⟩
    refine ⟨profile, hpicked.trans hfound, fun attempt => ?_⟩
    calc profile.encode replay attempt = enc.encode json (core replay) attempt := by
          rw [hencode, encode_core]
      _ = enc.encode json (cloneRecord original now uuid) attempt := by
          rw [hreplay, encode_core]
      _ = enc.encode json (relabelled original replay) attempt := by
          rw [encode_clone, relabelled, relabelled, hid]
          rfl

/-! ## A push that is replayed -/

/-- Pushes are sent raw, everything else in an envelope. -/
def pushDispatcher : WebhookDispatcher examplePython :=
  { envelopeDispatcher 1024 with
    profiles := (envelopeDispatcher 1024).profiles.insert ("push", { encode := rawEncode }) }

/-- A delivery of the named profile. -/
def profiled (profile : String) : DeliveryRecord :=
  { exampleRecord "d_1" "https://x.dev/a" with profile := profile }

/-- It is stored. -/
def storing (profile : String) : Stores.Pg.PgWebhookDeliveryStore :=
  Stores.Pg.insertRows Stores.Pg.empty [profiled profile]

theorem replay_same_default :
    SameSend exampleSerialiser pushDispatcher (profiled DEFAULT_PROFILE)
      (cloneRecord (profiled DEFAULT_PROFILE) 1 "d_2") :=
  (replay_same_iff exampleSerialiser pushDispatcher exampleService
    Stores.Pg.pgQueue.toLeaseQueue (storing DEFAULT_PROFILE) "d_1" 1 "d_2"
    (profiled DEFAULT_PROFILE) (cloneRecord (profiled DEFAULT_PROFILE) 1 "d_2") _
    (by decide +kernel) (by decide +kernel) rfl).mpr ⟨rfl, rfl⟩

/-- A push is posted raw, its replay in an envelope. -/
theorem replayed_push_in_envelope :
    redeliver exampleService Stores.Pg.pgQueue.toLeaseQueue (storing "push") "d_1" 1 "d_2" =
        some (cloneRecord (profiled "push") 1 "d_2") ∧
      ((send pushDispatcher (profiled "push") (exampleAnswers 1 none)).post.map
          fun call => call.body.length) = some 2 ∧
      ((send pushDispatcher (cloneRecord (profiled "push") 1 "d_2")
          (exampleAnswers 1 none)).post.map fun call => call.body.length) = some 202 ∧
      ¬ SameSend exampleSerialiser pushDispatcher (profiled "push")
        (cloneRecord (profiled "push") 1 "d_2") := by
  refine ⟨by decide +kernel, by decide +kernel, by decide +kernel, fun h => ?_⟩
  exact absurd h.profile (by decide)

end WebhookEngine.Subscriptions.Redelivery
