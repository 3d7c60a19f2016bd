import Mathlib.Data.List.Perm.Basic
import WebhookEngine.Lib.Table
import WebhookEngine.Types

/-!
# Subscriptions

The `Subscription` of `service/subscription_store.py` and what both stores do
outside their commands: `secret or secrets.token_hex(32)`, `grace_until`, and the
rows that `for_event` asks for.
-/

namespace WebhookEngine.Subscriptions

open Lib

/-- `aware`: whether `created_at` carries a time zone. -/
structure Subscription where
  id : SubscriptionId
  ownerId : OwnerId
  url : String
  secret : String
  events : List String
  status : SubscriptionStatus
  createdAt : Datetime
  aware : Bool
  resolvedIp : String
  deriving DecidableEq, Repr

def Subscription.snapshot (s : Subscription) : SubscriptionSnapshot where
  id := s.id
  ownerId := s.ownerId
  url := s.url
  resolvedIp := s.resolvedIp

/-- Active, and of the tenant if one is given. -/
def Subscription.admitted (tenant : Option String) (s : Subscription) : Bool :=
  s.status = .active && tenant.all fun t => s.ownerId = t

/-- What `for_event` asks for. -/
def Subscription.wanted (event : String) (tenant : Option String) (s : Subscription) : Bool :=
  s.events.contains event && s.admitted tenant

theorem Subscription.wanted_iff {event : String} {tenant : Option String} {s : Subscription} :
    s.wanted event tenant = true ↔
      event ∈ s.events ∧ s.status = .active ∧ ∀ t, tenant = some t → s.ownerId = t := by
  unfold wanted admitted
  cases tenant <;> simp

/-- What a shipped reader answers: the rows that are wanted, in any order. -/
def Selected (rows : List Subscription) (event : String) (tenant : Option String)
    (subs : List SubscriptionSnapshot) : Prop :=
  ∀ x, x ∈ subs ↔ ∃ s ∈ rows, s.wanted event tenant = true ∧ x = s.snapshot

/-- What `secrets.token_hex(32)` returns; of it the code relies only on its not being empty. -/
abbrev Token := { s : String // s ≠ "" }

/-- `secret or secrets.token_hex(32)`. -/
def orToken (secret : Option String) (token : Token) : String :=
  (secret.filter (· ≠ "")).getD token.val

theorem orToken_ne_empty (secret : Option String) (token : Token) : orToken secret token ≠ "" := by
  unfold orToken
  cases h : secret.filter (· ≠ "") with
  | none => exact token.property
  | some s => simpa using (Option.filter_eq_some_iff.mp h).2

/-- `grace_until`; `none` is the `ValueError` of a negative grace. -/
def graceUntil (now : Datetime) (graceS : Int) : Option Datetime :=
  if graceS < 0 then none else some (now + graceS)

/-- The arguments of `create`, the id it mints, the address and the time it reads. -/
structure Creation where
  id : SubscriptionId
  ownerId : OwnerId
  url : String
  events : List String
  secret : Option String
  token : Token
  resolvedIp : String
  now : Datetime

/-- The subscription that `create` writes and returns. -/
def Creation.subscription (c : Creation) : Subscription where
  id := c.id
  ownerId := c.ownerId
  url := c.url
  secret := orToken c.secret c.token
  events := c.events
  status := .active
  createdAt := c.now
  aware := true
  resolvedIp := c.resolvedIp

/-- A subscription to `order.paid`, for the runs on fixed inputs. -/
def exampleCreation (id : SubscriptionId) (ownerId : OwnerId) : Creation where
  id := id
  ownerId := ownerId
  url := "https://example.com/hook"
  events := ["order.paid", "order.paid"]
  secret := some "s0"
  token := ⟨"t0", by decide⟩
  resolvedIp := "8.8.8.8"
  now := 0

/-- The calls that change a store, with what they read from the clock and the token source. -/
inductive Call where
  | create (c : Creation)
  | pause (id : SubscriptionId)
  | resume (id : SubscriptionId)
  | rotateSecret (id : SubscriptionId) (graceS : Int) (secret : Option String) (token : Token)
      (now : Datetime)
  | delete (id : SubscriptionId)

/-- The id that a call mints. -/
def Call.mints : Call → Option SubscriptionId
  | .create c => some c.id
  | _ => none

/-- What a call returns; the last two are the exceptions. -/
inductive Returned where
  | created (s : Subscription)
  | changed (existed : Bool)
  | rotated (secret : SecretMaterial)
  | keyError
  | valueError
  deriving DecidableEq, Repr

end WebhookEngine.Subscriptions
