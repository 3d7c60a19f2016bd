import WebhookEngine.Policy
import WebhookEngine.Signer
import WebhookEngine.SsrfGuard
import WebhookEngine.Stores.Queue

/-!
# The dispatcher

`WebhookDispatcher.send` of `dispatcher.py` with the profiles of `profiles.py`, as
a function of the record and of what the outside answers: the clock, the
resolver, the secret reader, the receiver, the jitter draw. Its result is a
`Plan`: the call it makes to `sender.post`, if it gets so far, and the transition
it asks of the store, or none when it raises.

* `send_post`: what is known of a call once it is made;
* `send_transition`: a transition reports the attempt after the record's, and is a
  retry only below the attempt limit.
-/

namespace WebhookEngine.Dispatcher

open Lib Lib.Url HttpSender Policy Signer SsrfGuard Stores.Queue

/-! ## Profiles -/

/-- `DeliveryProfile`; the body encoder may raise. -/
structure DeliveryProfile where
  retry : Option WebhookRetryConfig := none
  encode : DeliveryRecord → Nat → Option Bytes
  signer : Option SignerProtocol := none
  maxResponseBytes : Option Nat := none
  honourRetryAfter : Bool := true

/-- `RawEncoder.encode`. -/
def rawEncode (r : DeliveryRecord) (_attempt : Nat) : Option Bytes := some r.dataJson

/-- `ProfileRegistry`. -/
abbrev ProfileRegistry := Dict String DeliveryProfile

/-- `ProfileRegistry.of`; `none` is `UnknownProfile`. -/
def ProfileRegistry.of (profiles : ProfileRegistry) (r : DeliveryRecord) : Option DeliveryProfile :=
  (profiles.find? r.profile).map (·.2)

/-- `x or default` for an optional number: zero counts as absent. -/
def orDefault (x : Option Nat) (default : Nat) : Nat := (x.filter (· ≠ 0)).getD default

/-! ## The dispatcher -/

structure WebhookDispatcher (py : Python) where
  signer : SignerProtocol
  config : WebhookPolicyConfig
  ssrf : UrlSafetyValidator py
  hasResolver : Bool
  profiles : ProfileRegistry

/-- How `sender.post` ends: a response, an `httpx.RequestError`, another exception. -/
inductive PostAnswer where
  | response (r : HttpSendResult)
  | requestError (timeout : Bool) (text : String)
  | raises

/-- What the outside answers during one `send`. A resolver that raises answers
nothing; a secret reader that raises, `none`. -/
structure Answers where
  now : Datetime
  resolved : Option String
  secret : Option SecretMaterial
  post : PostAnswer
  uniform : ℚ

/-- What one `send` does. -/
structure Plan where
  post : Option PostCall
  transition : Option (Completion × AttemptRecord)

variable {py : Python}

/-- `_current_ip`. -/
def currentIp (d : WebhookDispatcher py) (r : DeliveryRecord) (host : List Char)
    (resolved : Option String) : String :=
  if ¬ d.hasResolver ∨ host = [] then r.resolvedIp
  else match resolved with
    | none => r.resolvedIp
    | some fresh => if fresh = "" then r.resolvedIp else fresh

/-- The call of `sign` for one secret. -/
def signCall (r : DeliveryRecord) (body : Bytes) (now : Datetime) (secret : String) : SignCall where
  deliveryId := r.deliveryId
  eventName := r.eventName
  eventId := r.eventId
  body := body
  secret := secret
  now := now

/-- `_build_signed`: body and headers. -/
def buildSigned (d : WebhookDispatcher py) (r : DeliveryRecord) (profile : DeliveryProfile)
    (secret : String) (attemptNo : Nat) (now : Datetime) (previous : Option String) :
    Option (Bytes × Headers) :=
  (profile.encode r attemptNo).bind fun body =>
    let signer := profile.signer.getD d.signer
    (signer (signCall r body now secret)).bind fun signed =>
      match previous with
      | none => some (body, signed.asDict)
      | some previous =>
        (signer (signCall r body now previous)).bind fun old =>
          match signed, old with
          | .shipped h, .shipped h' =>
            let both := h.webhookSignature ++ " " ++ h'.webhookSignature
            some (body, { h with webhookSignature := both : SignatureHeaders }.asDict)
          | signed, _ => some (body, signed.asDict)

/-- `parsed.port or (443 if parsed.scheme == "https" else 80)`. -/
def targetPort (parsed : SplitResult) (port : Option Nat) : Nat :=
  orDefault port (if parsed.scheme = "https".toList then 443 else 80)

/-- How far `send` gets before it would post. -/
inductive Prepared where
  | raises
  | deadLetter (error : String)
  | post (call : PostCall)

def prepare (d : WebhookDispatcher py) (r : DeliveryRecord) (profile : DeliveryProfile)
    (parsed : SplitResult) (port : Option Nat) (ans : Answers) : Prepared :=
  let host := parsed.hostname py
  let limits := d.config.limits
  if limits.maxBodyBytes < r.dataJson.length then .deadLetter "payload_too_large"
  else
    let ip := currentIp d r host ans.resolved
    match checkIp d.ssrf ip.toList (some host) (some (targetPort parsed port)) with
    | .error e => .deadLetter ("blocked_ip_at_send:" ++ e.reason.value)
    | .ok () =>
      match ans.secret with
      | none => .deadLetter "secret_unresolved"
      | some secret =>
        match buildSigned d r profile secret.current (r.attempts + 1) ans.now
            (secret.previousAt ans.now) with
        | none => .raises
        | some (body, headers) =>
          .post
            { url := r.targetUrl
              body := body
              headers := headers
              resolvedIp := ip
              connectTimeoutS := limits.httpConnectTimeoutS
              readTimeoutS := limits.httpReadTimeoutS
              totalTimeoutS := limits.httpTotalTimeoutS
              maxResponseBytes := orDefault profile.maxResponseBytes
                d.config.security.maxResponseBytes }

/-- `_dead_letter`: a dead-letter without a network call. -/
def deadLetter (r : DeliveryRecord) (now : Datetime) (error : String) :
    Completion × AttemptRecord :=
  (.dead,
    { attempt := r.attempts + 1, attemptedAt := now, httpCode := none, durationMs := 0,
      error := some error, responseSnippet := "" })

/-- `_header(send_result.headers, "retry-after")`: the first such key in any casing. -/
def retryAfterHeader (py : Python) (headers : List (String × String)) : Option String :=
  (headers.find? fun kv => py.lower kv.1.toList = "retry-after".toList).map (·.2)

/-- `profile.retry or self._config.retry`. -/
def retryConfig (d : WebhookDispatcher py) (profile : DeliveryProfile) : WebhookRetryConfig :=
  profile.retry.getD d.config.retry

/-- The seconds `Retry-After` asks for, when the profile honours it. -/
def waited (py : Python) (profile : DeliveryProfile) (now : Datetime)
    (headers : Option (List (String × String))) : Option (Option ℚ) :=
  match headers with
  | some headers =>
    if profile.honourRetryAfter then parseRetryAfter py (retryAfterHeader py headers) now
    else some none
  | none => some none

/-- From the classified answer to the transition; `none`: `send` raises. -/
def transitionFor (d : WebhookDispatcher py) (r : DeliveryRecord) (profile : DeliveryProfile)
    (ans : Answers) (reason : Option RetryReason) (attempt : AttemptRecord)
    (headers : Option (List (String × String))) : Option (Completion × AttemptRecord) :=
  let attemptNo := r.attempts + 1
  let retryCfg := retryConfig d profile
  match outcomeStatus reason (reason.any fun x => retryOn x attemptNo retryCfg) with
  | .sent => some (.sent, attempt)
  | .failedRetry =>
    (waited py profile ans.now headers).bind fun w =>
      (retryAt ans.now attemptNo retryCfg ans.uniform w).map fun t => (.retry t, attempt)
  | _ => some (.dead, attempt)

/-- From the answer of `sender.post` to the transition; `none`: `send` raises. -/
def settle (d : WebhookDispatcher py) (r : DeliveryRecord) (profile : DeliveryProfile)
    (ans : Answers) : Option (Completion × AttemptRecord) :=
  match ans.post with
  | .raises => none
  | .requestError timeout text =>
    transitionFor d r profile ans (some (classifyException timeout))
      { attempt := r.attempts + 1, attemptedAt := ans.now, httpCode := none, durationMs := 0,
        error := some text, responseSnippet := "" } none
  | .response res =>
    let reason := classifyStatus res.status
    transitionFor d r profile ans reason
      { attempt := r.attempts + 1, attemptedAt := ans.now, httpCode := some res.status,
        durationMs := res.durationMs, error := none, responseSnippet := res.bodySnippet,
        responseBody := if reason = none then res.body else [],
        responseTruncated := res.bodyTruncated } (some res.headers)

/-- `WebhookDispatcher.send`. -/
def send (d : WebhookDispatcher py) (r : DeliveryRecord) (ans : Answers) : Plan :=
  match d.profiles.of r, urlsplit py r.targetUrl.toList with
  | some profile, some parsed =>
    match parsed.port with
    | none => ⟨none, none⟩
    | some port =>
      match prepare d r profile parsed port ans with
      | .raises => ⟨none, none⟩
      | .deadLetter error => ⟨none, some (deadLetter r ans.now error)⟩
      | .post call => ⟨some call, settle d r profile ans⟩
  | _, _ => ⟨none, none⟩

/-! ## A call that is made -/

/-- What `send` has established when it calls `sender.post`. -/
structure Posted (d : WebhookDispatcher py) (r : DeliveryRecord) (ans : Answers) (call : PostCall)
    (profile : DeliveryProfile) (parsed : SplitResult) (port : Option Nat)
    (secret : SecretMaterial) : Prop where
  found : d.profiles.of r = some profile
  split : urlsplit py r.targetUrl.toList = some parsed
  read : parsed.port = some port
  size : r.dataJson.length ≤ d.config.limits.maxBodyBytes
  url : call.url = r.targetUrl
  ip : call.resolvedIp = currentIp d r (parsed.hostname py) ans.resolved
  checked : checkIp d.ssrf call.resolvedIp.toList (some (parsed.hostname py))
    (some (targetPort parsed port)) = .ok ()
  resolved : ans.secret = some secret
  signed : buildSigned d r profile secret.current (r.attempts + 1) ans.now
    (secret.previousAt ans.now) = some (call.body, call.headers)

theorem prepare_post {d : WebhookDispatcher py} {r : DeliveryRecord} {profile : DeliveryProfile}
    {parsed : SplitResult} {port : Option Nat} {ans : Answers} {call : PostCall}
    (h : prepare d r profile parsed port ans = .post call)
    (hprofile : d.profiles.of r = some profile)
    (hparsed : urlsplit py r.targetUrl.toList = some parsed) (hport : parsed.port = some port) :
    ∃ secret, Posted d r ans call profile parsed port secret := by
  rw [prepare] at h
  split at h
  · cases h
  next hsize =>
    simp only at h
    split at h
    · cases h
    next hcheck =>
      split at h
      · cases h
      next secret hsecret =>
        split at h
        · cases h
        next body headers hsigned =>
          cases h
          exact ⟨secret, hprofile, hparsed, hport, not_lt.mp hsize, rfl, rfl, hcheck, hsecret,
            hsigned⟩

theorem send_post {d : WebhookDispatcher py} {r : DeliveryRecord} {ans : Answers} {call : PostCall}
    (h : (send d r ans).post = some call) :
    ∃ profile parsed port secret, Posted d r ans call profile parsed port secret := by
  rw [send] at h
  split at h
  next profile parsed hprofile hparsed =>
    split at h
    · cases h
    next port hport =>
      split at h
      · cases h
      · cases h
      next call' hprep =>
        cases h
        obtain ⟨secret, hposted⟩ := prepare_post hprep hprofile hparsed hport
        exact ⟨profile, parsed, port, secret, hposted⟩
  · cases h

/-! ## A transition that is made -/

/-- What a transition of `send` reports: the attempt after the record's, never a
mere attempt, and a retry only below the limit. -/
structure Reports (d : WebhookDispatcher py) (r : DeliveryRecord) (c : Completion)
    (a : AttemptRecord) : Prop where
  attempt : a.attempt = r.attempts + 1
  status : c ≠ .append
  retry : ∀ t, c = .retry t → ∃ profile, d.profiles.of r = some profile ∧
    r.attempts + 1 < (retryConfig d profile).maxAttempts

theorem reports_transitionFor {d : WebhookDispatcher py} {r : DeliveryRecord}
    {profile : DeliveryProfile} {ans : Answers} {reason : Option RetryReason}
    {attempt : AttemptRecord} {headers : Option (List (String × String))} {c : Completion}
    {a : AttemptRecord} (hprofile : d.profiles.of r = some profile)
    (hattempt : attempt.attempt = r.attempts + 1)
    (h : transitionFor d r profile ans reason attempt headers = some (c, a)) : Reports d r c a := by
  rw [transitionFor] at h
  split at h
  · cases h
    exact ⟨hattempt, by simp, by simp⟩
  next hstatus =>
    obtain ⟨w, -, hw⟩ := Option.bind_eq_some_iff.mp h
    obtain ⟨t, -, ht⟩ := Option.map_eq_some_iff.mp hw
    cases ht
    refine ⟨hattempt, by simp, fun t _ => ⟨profile, hprofile, ?_⟩⟩
    obtain ⟨x, -, hx⟩ := (Option.any_eq_true _ _).mp (outcomeStatus_failedRetry hstatus)
    exact retryOn_lt hx
  · cases h
    exact ⟨hattempt, by simp, by simp⟩

theorem send_transition {d : WebhookDispatcher py} {r : DeliveryRecord} {ans : Answers}
    {c : Completion} {a : AttemptRecord} (h : (send d r ans).transition = some (c, a)) :
    Reports d r c a := by
  rw [send] at h
  split at h
  next profile parsed hprofile hparsed =>
    split at h
    · cases h
    split at h
    · cases h
    · cases h
      exact ⟨rfl, by simp, by simp⟩
    · rw [settle] at h
      simp only at h
      split at h
      · cases h
      · exact reports_transitionFor hprofile rfl h
      · exact reports_transitionFor hprofile rfl h
  · cases h

/-! ## A concrete outside -/

/-- Given functions that answer as Python does on the texts of the runs on fixed
inputs: the default configuration, a few addresses, one signed message. -/
def exampleAddresses : List (String × IpAddress) := [
  ("8.8.8.8", .v4 0x08080808#32), ("10.0.0.1", .v4 0x0a000001#32),
  ("2606:4700::2", .v6 0x26064700000000000000000000000002#128),
  ("2606:4700::1%x]", .v6 0x26064700000000000000000000000001#128),
  ("2606:4700::1%x]@10.0.0.1?", .v6 0x26064700000000000000000000000001#128)]

def exampleNetsV4 : List (String × Network 32) := [
  ("0.0.0.0/8", ⟨0x0#32, 8⟩), ("127.0.0.0/8", ⟨0x7f000000#32, 8⟩),
  ("10.0.0.0/8", ⟨0x0a000000#32, 8⟩), ("172.16.0.0/12", ⟨0xac100000#32, 12⟩),
  ("192.168.0.0/16", ⟨0xc0a80000#32, 16⟩), ("169.254.0.0/16", ⟨0xa9fe0000#32, 16⟩),
  ("100.64.0.0/10", ⟨0x64400000#32, 10⟩), ("198.18.0.0/15", ⟨0xc6120000#32, 15⟩),
  ("224.0.0.0/4", ⟨0xe0000000#32, 4⟩), ("240.0.0.0/4", ⟨0xf0000000#32, 4⟩),
  ("255.255.255.255/32", ⟨0xffffffff#32, 32⟩)]

def exampleNetsV6 : List (String × Network 128) := [
  ("::/128", ⟨0#128, 128⟩), ("::1/128", ⟨1#128, 128⟩),
  ("fc00::/7", ⟨0xfc000000000000000000000000000000#128, 7⟩),
  ("fe80::/10", ⟨0xfe800000000000000000000000000000#128, 10⟩),
  ("ff00::/8", ⟨0xff000000000000000000000000000000#128, 8⟩),
  ("64:ff9b::/96", ⟨0x64ff9b000000000000000000000000#128, 96⟩),
  ("2002::/16", ⟨0x20020000000000000000000000000000#128, 16⟩),
  ("::ffff:0:0/96", ⟨0xffff00000000#128, 96⟩)]

def lookupText {α : Type} (table : List (String × α)) (s : List Char) : Option α :=
  (table.find? fun kv => kv.1.toList = s).map (·.2)

def exampleDigest (hex : String) (h : hex.toList.length = 64)
    (h' : hex.toList.all isHexDigit = true) : Digest :=
  ⟨hex.toList, h, List.all_eq_true.mp h'⟩

def examplePython : Python where
  lower s := s.map Char.toLower
  nfkc s := s
  idna s := some s
  ipAddress := lookupText exampleAddresses
  ipv4Network := lookupText exampleNetsV4
  ipv6Network := lookupText exampleNetsV6
  sha256Hex _ := exampleDigest "44136fa355b3678a1146ad16f7e8649e94fb4fc21fe77e8310c060f61caaff8a"
    (by decide) (by decide)
  hmacSha256Hex secret _ :=
    if secret = "current" then
      exampleDigest "98838821126920cc3480cc703bd3b6cd7f5a41eab08b20f2c69d115eab874024"
        (by decide) (by decide)
    else if secret = "previous" then
      exampleDigest "6c55d66afba1ccf3a8d8892984a1e45dd01324130b2ebe843ca334637ac2a6a3"
        (by decide) (by decide)
    else
      exampleDigest "77a1a548df090aa89b269dfc2d006ea3162ec282eba57ff923108ee45fc8e8b1"
        (by decide) (by decide)
  isDigit s := s.all Char.isDigit
  float s := some (Nat.ofDigitChars 10 s 0 : ℚ)
  parseDate _ := none
  lower_ascii _ _ := rfl
  ipAddress_nil := by decide
  ipAddress_dotted s a h hcolon := by
    obtain ⟨kv, hkv, -⟩ := Option.map_eq_some_iff.mp h
    have hall : ∀ kv ∈ exampleAddresses, ':' ∉ kv.1.toList →
        kv.1.toList.all (fun c => c.isDigit || c = '.') = true := by decide
    have hs : kv.1.toList = s := by simpa using List.find?_some hkv
    rw [← hs] at hcolon ⊢
    have hdotted := hall kv (List.mem_of_find?_eq_some hkv) hcolon
    simpa only [List.all_eq_true, Bool.or_eq_true, decide_eq_true_eq] using hdotted

/-- The default configuration, the shipped signer, raw bodies, a resolver. -/
def exampleValidator : UrlSafetyValidator examplePython where
  security := {}
  blocked := ((BlockedCidrSet.fromStrings examplePython
    ({} : WebhookSecurityConfig).blockedCidrs).getD ⟨[], []⟩)
  built := by decide +kernel

def exampleDispatcher : WebhookDispatcher examplePython where
  signer := hmacSigner examplePython .v1
  config := {}
  ssrf := exampleValidator
  hasResolver := true
  profiles := Table.empty.insert (DEFAULT_PROFILE, { encode := rawEncode })

/-- Everything answers and the receiver accepts. -/
def exampleAnswers (now : Datetime) (resolved : Option String) : Answers where
  now := now
  resolved := resolved
  secret := some ⟨"current", some "previous", some (now + 3600)⟩
  post := .response { status := 200, headers := [], bodySnippet := "", durationMs := 1 }
  uniform := 0

end WebhookEngine.Dispatcher
