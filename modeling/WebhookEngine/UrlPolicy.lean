import WebhookEngine.Dispatcher

/-!
# The URL policy

`UrlSafetyValidator.validate` of `ssrf_guard.py`: scheme, credentials, allow-list, then the
addresses. `Allowed` is the part of it that is about the text of the URL alone and not about
its scheme: what the allow-list and the credentials check accept.

* `validate_ok_iff`: what `validate` accepts;
* `allowed_of_validate`: a validated URL is allowed.
-/

namespace WebhookEngine.SsrfGuard

open Lib Lib.Text Lib.Url

variable {py : Python}

/-! ## The checks -/

/-- One entry of `allowed_hosts` against a normalised host. -/
def matchedBy (py : Python) (h : List Char) (pattern : String) : Bool :=
  match py.lower pattern.toList with
  | '*' :: '.' :: rest => decide ('.' :: rest <:+ h)
  | pat => decide (h = pat)

/-- `_host_matches`. -/
def hostMatches (py : Python) (host : List Char) (patterns : List String) : Bool :=
  patterns.any (matchedBy py (normaliseHost py host))

/-- `_check_scheme`. -/
def checkScheme (v : UrlSafetyValidator py) (p : SplitResult) (env : String) :
    Except InvalidWebhookTarget Unit :=
  let isProd := decide (env ∉ ["dev", "test", "local", "testnet"])
  if p.scheme ≠ "http".toList ∧ p.scheme ≠ "https".toList then
    .error ⟨.badScheme, "bad scheme: " ++ String.ofList p.scheme⟩
  else if p.scheme = "http".toList ∧ isProd ∧ v.security.requireHttpsInProd then
    .error ⟨.notHttps, "https required in prod"⟩
  else if p.scheme = "http".toList ∧ ¬isProd ∧ ¬v.security.allowHttpInDev then
    .error ⟨.notHttps, "http disabled"⟩
  else .ok ()

/-- `_check_credentials`. -/
def checkCredentials (p : SplitResult) : Except InvalidWebhookTarget Unit :=
  if (userinfo p.netloc).1.getD [] ≠ [] ∨ (userinfo p.netloc).2.getD [] ≠ [] then
    .error ⟨.hasCredentials, "URL must not embed credentials"⟩
  else .ok ()

/-- `_check_host_allowlist`. -/
def checkHostAllowlist (v : UrlSafetyValidator py) (p : SplitResult) :
    Except InvalidWebhookTarget Unit :=
  match v.security.allowedHosts with
  | none => .ok ()
  | some allowed =>
    let host := p.hostname py
    if host = [] then .error ⟨.blockedHost, "missing host"⟩
    else if hostMatches py host allowed then .ok ()
    else .error ⟨.blockedHost, "host not in allow-list: " ++ String.ofList (py.lower host)⟩

/-- The loop of `_check_ips`. -/
def checkEach (v : UrlSafetyValidator py) (host : Option (List Char)) (port : Option Nat) :
    List String → Except InvalidWebhookTarget Unit
  | [] => .ok ()
  | ip :: ips =>
    match checkIp v ip.toList host port with
    | .error e => .error e
    | .ok () => checkEach v host port ips

/-- `_check_ips`. -/
def checkIps (v : UrlSafetyValidator py) (ips : List String) (host : Option (List Char))
    (port : Option Nat) : Except InvalidWebhookTarget Unit :=
  if ips = [] then .error ⟨.unresolvable, "no resolved IPs"⟩ else checkEach v host port ips

/-! ## `validate` -/

structure ResolvedTarget where
  host : List Char
  port : Nat
  scheme : List Char
  ips : List String
  deriving DecidableEq, Repr

/-- What `validate` raises. -/
inductive Refusal where
  | invalid (e : InvalidWebhookTarget)
  | valueError

def refused (x : Except InvalidWebhookTarget Unit) : Except Refusal Unit := x.mapError .invalid

def validate (v : UrlSafetyValidator py) (url : String) (resolvedIps : List String)
    (env : String) : Except Refusal ResolvedTarget :=
  match urlsplit py url.toList with
  | none => .error .valueError
  | some parsed => do
    refused (checkScheme v parsed env)
    refused (checkCredentials parsed)
    refused (checkHostAllowlist v parsed)
    match parsed.port with
    | none => .error .valueError
    | some port =>
      let host := parsed.hostname py
      let port := Dispatcher.targetPort parsed port
      refused (checkIps v resolvedIps (if host = [] then none else some host) (some port))
      return ⟨host, port, parsed.scheme, resolvedIps⟩

theorem refused_bind_ok {α : Type} {x : Except InvalidWebhookTarget Unit}
    {k : Unit → Except Refusal α} {a : α} :
    (refused x >>= k) = .ok a ↔ x = .ok () ∧ k () = .ok a := by
  cases x with
  | error e => exact iff_of_false nofun fun h => nomatch h.1
  | ok u => exact (and_iff_right rfl).symm

/-- **What `validate` accepts.** -/
theorem validate_ok_iff (v : UrlSafetyValidator py) (url : String) (ips : List String)
    (env : String) (target : ResolvedTarget) : validate v url ips env = .ok target ↔
      ∃ parsed port, urlsplit py url.toList = some parsed ∧ parsed.port = some port ∧
        checkScheme v parsed env = .ok () ∧ checkCredentials parsed = .ok () ∧
        checkHostAllowlist v parsed = .ok () ∧
        target = ⟨parsed.hostname py, Dispatcher.targetPort parsed port, parsed.scheme, ips⟩ ∧
        checkIps v ips (if target.host = [] then none else some target.host) (some target.port) =
          .ok () := by
  rw [validate]
  cases hsplit : urlsplit py url.toList with
  | none => exact iff_of_false nofun (by rintro ⟨_, _, h, -⟩; cases h)
  | some parsed =>
    simp only [refused_bind_ok]
    cases hport : parsed.port with
    | none =>
      refine iff_of_false (fun h => nomatch h.2.2.2) ?_
      rintro ⟨_, _, h, hp, -⟩
      cases h
      rw [hport] at hp
      cases hp
    | some port =>
      simp only [refused_bind_ok]
      constructor
      · rintro ⟨hscheme, hcredentials, hhost, hips, h⟩
        cases h
        exact ⟨parsed, port, rfl, hport, hscheme, hcredentials, hhost, rfl, hips⟩
      · rintro ⟨_, _, h, hp, hscheme, hcredentials, hhost, rfl, hips⟩
        cases h
        rw [hport, Option.some_inj] at hp
        subst hp
        exact ⟨hscheme, hcredentials, hhost, hips, rfl⟩

/-! ## The part about the URL -/

/-- The URL embeds no credentials, and the allow-list accepts its host. -/
def Allowed (v : UrlSafetyValidator py) (url : String) : Prop :=
  ∃ parsed, urlsplit py url.toList = some parsed ∧ checkCredentials parsed = .ok () ∧
    checkHostAllowlist v parsed = .ok ()

theorem allowed_of_validate {v : UrlSafetyValidator py} {url : String} {ips : List String}
    {env : String} {target : ResolvedTarget} (h : validate v url ips env = .ok target) :
    Allowed v url := by
  obtain ⟨parsed, port, hsplit, -, -, hcredentials, hhost, -⟩ :=
    (validate_ok_iff v url ips env target).mp h
  exact ⟨parsed, hsplit, hcredentials, hhost⟩

instance (v : UrlSafetyValidator py) (url : String) : Decidable (Allowed v url) :=
  decidable_of_iff ((urlsplit py url.toList).any fun parsed =>
    (checkCredentials parsed).isOk && (checkHostAllowlist v parsed).isOk) <| by
    have hok : ∀ x : Except InvalidWebhookTarget Unit, x.isOk = true ↔ x = .ok () := by
      intro x
      cases x with
      | error e => exact iff_of_false nofun nofun
      | ok u => exact iff_of_true rfl rfl
    simp only [Option.any_eq_true, Bool.and_eq_true, hok, Allowed]

end WebhookEngine.SsrfGuard
