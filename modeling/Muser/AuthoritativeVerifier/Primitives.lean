import Muser.Lib.Check
import Muser.Lib.CanonicalJson

/-! # Errors, digests, identifiers and the assumed cryptography

`Primitives` collects what the verifier takes from other crates: SHA-256, HMAC-SHA-256, Ed25519
verification and the floating-point draw of a sparse row. Their outputs have the documented shape
and nothing else is assumed here; freedom from collisions is a hypothesis on the values of one run
and is stated where it is used.
-/

namespace Muser.Verifier

inductive VerifierV2Error where
  | validation (message : String)
  | authentication
  | leaseNotLive
  | changedIntent
  | staleHead
  | busyParent
  | terminal
  | incomplete
  | resyncRequired
  | renderer (message : String)
  | io (message : String)
deriving DecidableEq

abbrev Result (α : Type) := Except VerifierV2Error α

def invalid (message : String) : VerifierV2Error := .validation message

/-- A lowercase hexadecimal byte. -/
def isHexByte (byte : UInt8) : Bool :=
  (0x30 ≤ byte && byte ≤ 0x39) || (0x61 ≤ byte && byte ≤ 0x66)

/-- Sixty-four lowercase hexadecimal characters. -/
def isDigest (digest : String) : Bool :=
  (utf8 digest).length == 64 && (utf8 digest).all isHexByte

def validateDigest (name digest : String) : Result Unit :=
  reject (!isDigest digest) (invalid (name ++ " is not lowercase SHA-256"))

/-- ASCII letters and digits and the four punctuation marks of an identifier. -/
def isIdentifierByte (byte : UInt8) : Bool :=
  (0x30 ≤ byte && byte ≤ 0x39) || (0x41 ≤ byte && byte ≤ 0x5a) || (0x61 ≤ byte && byte ≤ 0x7a) ||
    byte == 0x2e || byte == 0x5f || byte == 0x3a || byte == 0x2d

def isIdentifier (value : String) : Bool :=
  !(utf8 value).isEmpty && (utf8 value).length ≤ 128 && (utf8 value).all isIdentifierByte

def validateIdentifier (name value : String) : Result Unit :=
  reject (!isIdentifier value) (invalid (name ++ " is invalid"))

@[simp] theorem validateDigest_ok_iff {name digest : String} {answer : Unit} :
    validateDigest name digest = .ok answer ↔ isDigest digest = true := by
  simp [validateDigest]

@[simp] theorem validateIdentifier_ok_iff {name value : String} {answer : Unit} :
    validateIdentifier name value = .ok answer ↔ isIdentifier value = true := by
  simp [validateIdentifier]

/-- The state of the MT19937 generator between two draws. -/
structure Mt19937Snapshot where
  state : List UInt32
  index : ℕ
deriving DecidableEq

structure SparseWeightEntryV2 where
  token : UInt32
  weightF32Bits : UInt32
deriving DecidableEq

structure SparseWeightRowV2 where
  vocabSize : UInt32
  entries : List SparseWeightEntryV2
deriving DecidableEq

/-- Functions of other crates. `drawRow` is the weighted draw over a validated row: the token it
selects and the generator after its one `uniform_f64`. `jsonFailure` is the text of a JSON parse
error. -/
structure Primitives where
  sha256Hex : Bytes → String
  hmacSha256Hex : Bytes → Bytes → String
  ed25519Verify : Bytes → Bytes → Bytes → Bool
  drawRow : List SparseWeightEntryV2 → Mt19937Snapshot → UInt32 × Mt19937Snapshot
  jsonFailure : Bytes → String
  sha256Hex_isDigest : ∀ bytes, isDigest (sha256Hex bytes) = true
  hmacSha256Hex_isDigest : ∀ key stream, isDigest (hmacSha256Hex key stream) = true

/-- Four little-endian bytes of a token. -/
def tokenBytes (token : UInt32) : Bytes :=
  [token.toUInt8, (token >>> 8).toUInt8, (token >>> 16).toUInt8, (token >>> 24).toUInt8]

def tokenDigest (p : Primitives) (tokens : List UInt32) : String :=
  p.sha256Hex (tokens.flatMap tokenBytes)

structure MacKey where
  bytes : Bytes
deriving DecidableEq

namespace MacKey

/-- The stream a domain-separated tag covers, with its big-endian domain length. -/
def domainStream (domain stream : Bytes) : Bytes :=
  utf8 "kvpack-domain-mac-v1" ++ 0 :: UInt8.ofNat (domain.length / 256) :: UInt8.ofNat (domain.length % 256) ::
    (domain ++ stream)

def domainAllowed (domain : Bytes) : Bool := !domain.isEmpty && domain.length ≤ 65535

def tagDomainHex (p : Primitives) (key : MacKey) (domain stream : Bytes) : Result String := do
  reject (!domainAllowed domain) .authentication
  pure (p.hmacSha256Hex key.bytes (domainStream domain stream))

def verifyDomainHex (p : Primitives) (key : MacKey) (domain stream : Bytes) (expected : String) : Result Unit :=
  reject (!domainAllowed domain || !isDigest expected ||
    p.hmacSha256Hex key.bytes (domainStream domain stream) != expected) .authentication

end MacKey

end Muser.Verifier
