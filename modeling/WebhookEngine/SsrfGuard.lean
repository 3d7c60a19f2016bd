import WebhookEngine.Lib.Url
import WebhookEngine.Types

/-!
# The SSRF guard

`BlockedCidrSet` and `UrlSafetyValidator.check_ip` of `ssrf_guard.py`. Parsing of
addresses, networks and IDNA are given (`Lib.Python`).

* `checkIp_ok_iff`: an address passes if and only if it parses and, unwrapped, is
  in no blocked network of its family or its host is trusted;
* `isTrustedPrivate_iff`: a host is trusted only through an entry that is exactly
  the host, or the host, a colon and the port.
-/

namespace WebhookEngine.SsrfGuard

open Lib Lib.Text

/-! ## Blocked networks -/

structure BlockedCidrSet where
  netsV4 : List (Network 32)
  netsV6 : List (Network 128)
  deriving DecidableEq, Repr

variable (py : Python)

/-- `BlockedCidrSet.from_strings`; `none` is the `ValueError` of a bad network. -/
def BlockedCidrSet.fromStrings : List String → Option BlockedCidrSet
  | [] => some ⟨[], []⟩
  | c :: cs =>
    if ':' ∈ c.toList then
      (py.ipv6Network c.toList).bind fun net =>
        (fromStrings cs).map fun b => { b with netsV6 := net :: b.netsV6 }
    else
      (py.ipv4Network c.toList).bind fun net =>
        (fromStrings cs).map fun b => { b with netsV4 := net :: b.netsV4 }

def BlockedCidrSet.contains (b : BlockedCidrSet) : IpAddress → Bool
  | .v4 ip => b.netsV4.any (·.contains ip)
  | .v6 ip => b.netsV6.any (·.contains ip)

/-- The address lies in one of the networks, which is of its family. -/
def InCidr (cidrs : List String) : IpAddress → Prop
  | .v4 ip => ∃ c ∈ cidrs, ':' ∉ c.toList ∧ ∃ net, py.ipv4Network c.toList = some net ∧
      net.contains ip = true
  | .v6 ip => ∃ c ∈ cidrs, ':' ∈ c.toList ∧ ∃ net, py.ipv6Network c.toList = some net ∧
      net.contains ip = true

variable {py} in
theorem contains_iff {cidrs : List String} {b : BlockedCidrSet}
    (h : BlockedCidrSet.fromStrings py cidrs = some b) (addr : IpAddress) :
    b.contains addr = true ↔ InCidr py cidrs addr := by
  induction cidrs generalizing b with
  | nil =>
    cases h
    cases addr <;> simp [BlockedCidrSet.contains, InCidr]
  | cons c cs ih =>
    rw [BlockedCidrSet.fromStrings] at h
    split at h
    case isTrue hc =>
      obtain ⟨net, hnet, h⟩ := Option.bind_eq_some_iff.mp h
      obtain ⟨b', hb', rfl⟩ := Option.map_eq_some_iff.mp h
      have hrest := ih hb'
      cases addr with
      | v4 ip =>
        simp only [BlockedCidrSet.contains, InCidr] at hrest ⊢
        simp [hrest, hc]
      | v6 ip =>
        simp only [BlockedCidrSet.contains, InCidr, List.any_cons, Bool.or_eq_true] at hrest ⊢
        simp [hrest, hc, hnet]
    case isFalse hc =>
      obtain ⟨net, hnet, h⟩ := Option.bind_eq_some_iff.mp h
      obtain ⟨b', hb', rfl⟩ := Option.map_eq_some_iff.mp h
      have hrest := ih hb'
      cases addr with
      | v4 ip =>
        simp only [BlockedCidrSet.contains, InCidr, List.any_cons, Bool.or_eq_true] at hrest ⊢
        simp [hrest, hc, hnet]
      | v6 ip =>
        simp only [BlockedCidrSet.contains, InCidr] at hrest ⊢
        simp [hrest, hc]

/-! ## Trusted hosts -/

/-- `_normalise_host`. -/
def normaliseHost (host : List Char) : List Char :=
  let h := py.lower ((strip host).rdropWhile (· = '.'))
  match py.idna h with
  | some ascii => py.lower ascii
  | none => h

/-- One entry of `trusted_private_hosts` against a normalised host. -/
def trustedBy (h : List Char) (port : Option Nat) (pattern : String) : Bool :=
  let pat := strip (py.lower pattern.toList)
  match rpartition ':' pat with
  | (some patHost, patPort) =>
    h = patHost && port.any fun p => Nat.toDigits 10 p = patPort
  | (none, _) => h = pat

/-- `_is_trusted_private`. -/
def isTrustedPrivate (host : List Char) (port : Option Nat) (patterns : List String) : Bool :=
  let h := normaliseHost py host
  h ≠ [] && patterns.any (trustedBy py h port)

/-- The entry is exactly the host, or exactly the host, a colon and the port. -/
def Names (h : List Char) (port : Option Nat) (pattern : String) : Prop :=
  strip (py.lower pattern.toList) = h ∨
    ∃ p, port = some p ∧ strip (py.lower pattern.toList) = h ++ ':' :: Nat.toDigits 10 p

variable {py} in
theorem names_of_trustedBy {h : List Char} {port : Option Nat} {pattern : String}
    (ht : trustedBy py h port pattern = true) : Names py h port pattern := by
  rw [trustedBy] at ht
  cases hr : rpartition ':' (strip (py.lower pattern.toList)) with
  | mk before after =>
    cases before with
    | none =>
      simp only [hr, decide_eq_true_eq] at ht
      exact Or.inl ht.symm
    | some patHost =>
      simp only [hr, Bool.and_eq_true, decide_eq_true_eq, Option.any_eq_true] at ht
      obtain ⟨rfl, p, rfl, hp⟩ := ht
      obtain ⟨he, -⟩ := rpartition_some (a := h) (by rw [hr])
      rw [hr] at he
      exact Or.inr ⟨p, rfl, by rw [he, hp]⟩

variable {py} in
theorem names_of_isTrustedPrivate {host : List Char} {port : Option Nat} {patterns : List String}
    (ht : isTrustedPrivate py host port patterns = true) :
    ∃ pattern ∈ patterns, Names py (normaliseHost py host) port pattern := by
  simp only [isTrustedPrivate, Bool.and_eq_true, List.any_eq_true] at ht
  obtain ⟨-, pattern, hm, ht⟩ := ht
  exact ⟨pattern, hm, names_of_trustedBy ht⟩

/-! ## Reasons -/

def inNet {w : Nat} (address : Nat) (prefixLen : Nat) (ip : BitVec w) : Bool :=
  Network.contains ⟨BitVec.ofNat w address, prefixLen⟩ ip

/-- The IPv6 networks that `is_reserved` lists, by first sixteen bits. -/
def reservedV6 : List (Nat × Nat) := [
  (0x0000, 8), (0x0100, 8), (0x0200, 7), (0x0400, 6), (0x0800, 5), (0x1000, 4), (0x4000, 3),
  (0x6000, 3), (0x8000, 3), (0xA000, 3), (0xC000, 3), (0xE000, 4), (0xF000, 5), (0xF800, 6),
  (0xFE00, 9)]

/-- `_reason`: why a blocked address is blocked, most specific first. -/
def reason : IpAddress → InvalidTargetReason
  | .v4 ip =>
    if inNet 0x7f000000 8 ip then .loopback
    else if inNet 0xa9fe0000 16 ip then .linkLocal
    else if inNet 0xe0000000 4 ip then .multicast
    else if inNet 0x64400000 10 ip then .cgnat
    else if inNet 0xf0000000 4 ip then .reserved
    else .privateIp
  | .v6 ip =>
    if ip = 1 then .loopback
    else if inNet (0xfe80 <<< 112) 10 ip then .linkLocal
    else if inNet (0xff00 <<< 112) 8 ip then .multicast
    else if inNet (0x0064ff9b <<< 96) 96 ip then .nat64
    else if inNet (0x2002 <<< 112) 16 ip then .sixToFour
    else if inNet (0xfc00 <<< 112) 7 ip then .ula
    else if reservedV6.any fun (bits, len) => inNet (bits <<< 112) len ip then .reserved
    else .privateIp

/-! ## The check -/

/-- A validator: its blocked set is what its configuration lists. -/
structure UrlSafetyValidator where
  security : WebhookSecurityConfig
  blocked : BlockedCidrSet
  built : BlockedCidrSet.fromStrings py security.blockedCidrs = some blocked

/-- `InvalidWebhookTarget`. -/
structure InvalidWebhookTarget where
  reason : InvalidTargetReason
  detail : String
  deriving DecidableEq, Repr

/-- An IPv4-mapped address is judged by the IPv4 address. -/
def unwrap : IpAddress → IpAddress
  | .v4 ip => .v4 ip
  | .v6 ip => (ipv4Mapped ip).elim (.v6 ip) .v4

variable {py}

/-- `check_ip`. -/
def checkIp (v : UrlSafetyValidator py) (ip : List Char) (host : Option (List Char))
    (port : Option Nat) : Except InvalidWebhookTarget Unit :=
  match py.ipAddress ip with
  | none => .error ⟨.unresolvable, "invalid ip"⟩
  | some addr =>
    if ¬ v.blocked.contains (unwrap addr) then .ok ()
    else if host.any fun h => isTrustedPrivate py h port v.security.trustedPrivateHosts then .ok ()
    else
      let r := reason (unwrap addr)
      .error ⟨r, "blocked ip (" ++ r.value ++ ")"⟩

theorem checkIp_ok_iff (v : UrlSafetyValidator py) (ip : List Char) (host : List Char)
    (port : Option Nat) : checkIp v ip (some host) port = .ok () ↔
      ∃ addr, py.ipAddress ip = some addr ∧
        (InCidr py v.security.blockedCidrs (unwrap addr) →
          isTrustedPrivate py host port v.security.trustedPrivateHosts = true) := by
  rw [checkIp]
  cases py.ipAddress ip with
  | none => simp
  | some addr =>
    have hin := contains_iff v.built (unwrap addr)
    by_cases hc : v.blocked.contains (unwrap addr) = true
    · have hcidr := hin.mp hc
      by_cases ht : isTrustedPrivate py host port v.security.trustedPrivateHosts = true
      · simp [hc, ht]
      · simp [hc, ht, hcidr]
    · have hcidr := hin.not.mp hc
      simp [hc, hcidr]

/-- **What a passed check says** of the address, the host and the port. -/
theorem unblocked_of_checkIp {v : UrlSafetyValidator py} {ip host : List Char} {port : Option Nat}
    (h : checkIp v ip (some host) port = .ok ()) :
    ∃ addr, py.ipAddress ip = some addr ∧ (InCidr py v.security.blockedCidrs (unwrap addr) →
      ∃ pattern ∈ v.security.trustedPrivateHosts,
        Names py (normaliseHost py host) port pattern) := by
  obtain ⟨addr, haddr, ht⟩ := (checkIp_ok_iff v ip host port).mp h
  exact ⟨addr, haddr, fun hin => names_of_isTrustedPrivate (ht hin)⟩

end WebhookEngine.SsrfGuard
