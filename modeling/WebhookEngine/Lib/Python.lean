import Mathlib.Data.Rat.Defs
import WebhookEngine.Lib.Text

/-!
# Python functions taken as given

IP addresses and networks are bit vectors. Reading them from text, Unicode case
folding and normalisation, IDNA, the hash functions and the readers of numbers
and dates are not defined here: `Python` is any choice of them, with the facts of
their documentation that proofs use as fields.
-/

namespace Lib

/-! ## Addresses and networks -/

/-- `IPv4Address`, `IPv6Address`; the scope of an IPv6 address plays no role. -/
inductive IpAddress where
  | v4 (bits : BitVec 32)
  | v6 (bits : BitVec 128)
  deriving DecidableEq, Repr

/-- `IPv4Network`, `IPv6Network`. -/
structure Network (w : Nat) where
  address : BitVec w
  prefixLen : Nat
  deriving DecidableEq, Repr

def Network.netmask {w : Nat} (net : Network w) : BitVec w :=
  BitVec.allOnes w <<< (w - net.prefixLen)

/-- `ip in net`. -/
def Network.contains {w : Nat} (net : Network w) (ip : BitVec w) : Bool :=
  ip &&& net.netmask = net.address &&& net.netmask

/-- `ip.ipv4_mapped`: `::ffff:a.b.c.d` is `a.b.c.d`. -/
def ipv4Mapped (bits : BitVec 128) : Option (BitVec 32) :=
  if bits >>> 32 = 0xffff#128 then some (bits.setWidth 32) else none

/-! ## Given functions -/

/-- A hexadecimal digest: 64 digits, lower case. -/
def isHexDigit (c : Char) : Bool := c.isDigit || ('a' ≤ c && c ≤ 'f')

structure Digest where
  hex : List Char
  length_hex : hex.length = 64
  isHex : ∀ c ∈ hex, isHexDigit c = true

structure Python where
  /-- `str.lower`. -/
  lower : List Char → List Char
  /-- `unicodedata.normalize("NFKC", ..)`. -/
  nfkc : List Char → List Char
  /-- `h.encode("idna").decode("ascii")`; `none` is a `UnicodeError`. -/
  idna : List Char → Option (List Char)
  /-- `ipaddress.ip_address`; `none` is a `ValueError`. -/
  ipAddress : List Char → Option IpAddress
  /-- `IPv4Network(c, strict=False)`, and the same for IPv6. -/
  ipv4Network : List Char → Option (Network 32)
  ipv6Network : List Char → Option (Network 128)
  /-- `hashlib.sha256(body).hexdigest()`. -/
  sha256Hex : List UInt8 → Digest
  /-- `hmac.new(secret.encode(), message.encode(), sha256).hexdigest()`. -/
  hmacSha256Hex : String → List Char → Digest
  /-- `str.isdigit`. -/
  isDigit : List Char → Bool
  /-- `float(s)`; `none` is a `ValueError`. -/
  float : List Char → Option ℚ
  /-- `parsedate_to_datetime`: `none` if it raises, `some none` for a naive result. -/
  parseDate : List Char → Option (Option ℚ)
  lower_ascii : ∀ s, (∀ c ∈ s, c.toNat < 128) → lower s = s.map Char.toLower
  ipAddress_nil : ipAddress [] = none
  /-- An IPv4 address is four decimal octets; an IPv6 address has a colon. -/
  ipAddress_dotted : ∀ s a, ipAddress s = some a → ':' ∉ s → ∀ c ∈ s, c.isDigit = true ∨ c = '.'

theorem Python.ne_empty_of_ipAddress {py : Python} {ip : String} {addr : IpAddress}
    (h : py.ipAddress ip.toList = some addr) : ip ≠ "" := by
  rintro rfl
  rw [show "".toList = [] from rfl, py.ipAddress_nil] at h
  cases h

/-- Lowering text that is ASCII. -/
theorem Python.lower_text (py : Python) {s l : String}
    (hascii : s.toList.all (fun c => decide (c.toNat < 128)) = true)
    (hl : s.toList.map Char.toLower = l.toList) : py.lower s.toList = l.toList := by
  rw [py.lower_ascii _ fun c hc => of_decide_eq_true (List.all_eq_true.mp hascii c hc), hl]

end Lib
