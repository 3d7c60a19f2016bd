import Mathlib.Algebra.Order.Ring.Rat

/-!
# Records, enumerations and configuration

The data types of `types.py`, `enums.py`, `config.py` and of `SecretMaterial`
in `protocols.py`. A `datetime` is its POSIX time in seconds, an exact rational;
`timedelta(seconds=n)` is then `n` itself. `str` is `String`, `bytes` a list of
bytes; counters and limits are natural numbers.
-/

namespace WebhookEngine

/-- An aware `datetime`, as POSIX seconds. -/
abbrev Datetime := ℚ

abbrev Bytes := List UInt8

abbrev DeliveryId := String
abbrev SubscriptionId := String
abbrev OwnerId := String

/-- `int(x)` of a float: truncation toward zero. -/
def truncate (x : ℚ) : Int := x.num.tdiv x.den

theorem truncate_intCast (n : Int) : truncate (n : ℚ) = n := by
  rw [truncate, Rat.num_intCast, Rat.den_intCast, Nat.cast_one, Int.tdiv_one]

/-! ## Enumerations -/

inductive DeliveryStatus where
  | pending
  | inFlight
  | sent
  | failedRetry
  | deadLettered
  | cancelled
  deriving DecidableEq, Repr

def DeliveryStatus.value : DeliveryStatus → String
  | .pending => "pending"
  | .inFlight => "in_flight"
  | .sent => "sent"
  | .failedRetry => "failed_retry"
  | .deadLettered => "dead_lettered"
  | .cancelled => "cancelled"

/-- `DeliveryStatus(value)`; `none` is the `ValueError`. -/
def DeliveryStatus.ofValue (s : String) : Option DeliveryStatus :=
  [.pending, .inFlight, .sent, .failedRetry, .deadLettered, .cancelled].find? fun d => d.value = s

theorem DeliveryStatus.ofValue_value (d : DeliveryStatus) : ofValue d.value = some d := by
  cases d <;> rfl

/-- `status IN ('pending', 'failed_retry')`. -/
def DeliveryStatus.claimable (d : DeliveryStatus) : Bool := d = .pending || d = .failedRetry

/-- The two states the code calls terminal. -/
def DeliveryStatus.terminal (d : DeliveryStatus) : Bool := d = .sent || d = .deadLettered

theorem DeliveryStatus.not_claimable_of_terminal {d : DeliveryStatus} (h : d.terminal = true) :
    d.claimable = false := by
  cases d <;> simp_all [terminal, claimable]

inductive SubscriptionStatus where
  | active
  | paused
  | deleted
  deriving DecidableEq, Repr

inductive RetryReason where
  | http5xx
  | http408
  | http429
  | networkError
  | timeout
  | nonRetryable4xx
  | payloadTooLarge
  | blockedIpAtSend
  deriving DecidableEq, Repr

inductive InvalidTargetReason where
  | badScheme
  | notHttps
  | unresolvable
  | privateIp
  | loopback
  | linkLocal
  | cgnat
  | ula
  | multicast
  | reserved
  | nat64
  | sixToFour
  | blockedHost
  | hasCredentials
  | preflightFailed
  deriving DecidableEq, Repr

def InvalidTargetReason.value : InvalidTargetReason → String
  | .badScheme => "bad_scheme"
  | .notHttps => "not_https"
  | .unresolvable => "unresolvable"
  | .privateIp => "private_ip"
  | .loopback => "loopback"
  | .linkLocal => "link_local"
  | .cgnat => "cgnat"
  | .ula => "ula"
  | .multicast => "multicast"
  | .reserved => "reserved"
  | .nat64 => "nat64"
  | .sixToFour => "six_to_four"
  | .blockedHost => "blocked_host"
  | .hasCredentials => "has_credentials"
  | .preflightFailed => "preflight_failed"

inductive SignatureVersion where
  | v1
  deriving DecidableEq, Repr

def SignatureVersion.value : SignatureVersion → String
  | .v1 => "v1"

/-! ## Records -/

structure AttemptRecord where
  attempt : Nat
  attemptedAt : Datetime
  httpCode : Option Int
  durationMs : Int
  error : Option String
  responseSnippet : String
  responseBody : Bytes := []
  responseTruncated : Bool := false
  deriving DecidableEq, Repr

def DEFAULT_PROFILE : String := "default"

/-- One queue row: everything needed to sign and POST one delivery. -/
structure DeliveryRecord where
  deliveryId : DeliveryId
  subscriptionId : SubscriptionId
  ownerId : OwnerId
  eventName : String
  eventId : String
  schemaVersion : String
  tenantId : Option String
  dataJson : Bytes
  emittedAt : Datetime
  targetUrl : String
  resolvedIp : String
  redeliveryOf : Option String
  attempts : Nat
  fireAt : Datetime
  createdAt : Datetime
  status : DeliveryStatus
  profile : String := DEFAULT_PROFILE
  secretVersion : Option String := none
  deriving DecidableEq, Repr

/-- A pending delivery to `url`, for the runs on fixed inputs. -/
def exampleRecord (id url : String) : DeliveryRecord where
  deliveryId := id
  subscriptionId := "sub_1"
  ownerId := "tenant_a"
  eventName := "task.created"
  eventId := "evt_1"
  schemaVersion := "v1"
  tenantId := some "tenant_a"
  dataJson := [0x7b, 0x7d]
  emittedAt := 0
  targetUrl := url
  resolvedIp := "8.8.8.8"
  redeliveryOf := none
  attempts := 0
  fireAt := 0
  createdAt := 0
  status := .pending

structure HttpSendResult where
  status : Int
  headers : List (String × String)
  bodySnippet : String
  durationMs : Int
  body : Bytes := []
  bodyTruncated : Bool := false
  deriving DecidableEq, Repr

structure SubscriptionSnapshot where
  id : SubscriptionId
  ownerId : OwnerId
  url : String
  resolvedIp : String
  deriving DecidableEq, Repr

/-- Plaintext secret material resolved at dispatch time. -/
structure SecretMaterial where
  current : String
  previous : Option String
  previousExpiresAt : Option Datetime
  deriving DecidableEq, Repr

/-- The old secret while its grace window is open at `now`. -/
def SecretMaterial.previousAt (m : SecretMaterial) (now : Datetime) : Option String :=
  match m.previous, m.previousExpiresAt with
  | some p, some e => if e ≤ now then none else some p
  | _, _ => none

/-! ## Configuration -/

structure WebhookRetryConfig where
  maxAttempts : Nat := 8
  baseDelayS : ℚ := 5
  backoffFactor : ℚ := 2
  maxDelayS : ℚ := 3600
  jitterPct : ℚ := 1 / 5
  deriving DecidableEq, Repr

structure WebhookSecurityConfig where
  requireHttpsInProd : Bool := true
  allowHttpInDev : Bool := true
  blockedCidrs : List String := [
    "0.0.0.0/8", "::/128", "127.0.0.0/8", "10.0.0.0/8", "172.16.0.0/12", "192.168.0.0/16",
    "169.254.0.0/16", "100.64.0.0/10", "198.18.0.0/15", "224.0.0.0/4", "240.0.0.0/4",
    "255.255.255.255/32", "::1/128", "fc00::/7", "fe80::/10", "ff00::/8", "64:ff9b::/96",
    "2002::/16", "::ffff:0:0/96"]
  allowedHosts : Option (List String) := none
  trustedPrivateHosts : List String := []
  maxResponseBytes : Nat := 8 * 1024
  deriving DecidableEq, Repr

structure WebhookLimitsConfig where
  perHostConcurrency : Nat := 3
  httpConnectTimeoutS : ℚ := 5
  httpReadTimeoutS : ℚ := 10
  httpTotalTimeoutS : ℚ := 15
  maxBodyBytes : Nat := 64 * 1024
  deriving DecidableEq, Repr

structure WebhookDispatchConfig where
  batchSize : Nat := 50
  workerConcurrency : Nat := 20
  leaseTtlS : Nat := 30
  maxUnhandledAttempts : Nat := 5
  deriving DecidableEq, Repr

structure WebhookPolicyConfig where
  retry : WebhookRetryConfig := {}
  security : WebhookSecurityConfig := {}
  limits : WebhookLimitsConfig := {}
  dispatch : WebhookDispatchConfig := {}
  deriving DecidableEq, Repr

end WebhookEngine
