import ObjectMeta.Bytes

/-!
# Signature schemes

What the token authority needs of a signature scheme: keys, signing and checking.  Signatures are
strings of 64 bytes.  Everything about tokens is said for an arbitrary scheme; Ed25519 is the one in
use.
-/

namespace ObjectMeta

def signatureLength : Nat := 64

structure Signature where
  bytes : Bytes
  length_bytes : bytes.length = signatureLength
  deriving DecidableEq

def Signature.ofBytes? (b : Bytes) : Option Signature :=
  if h : b.length = signatureLength then some ⟨b, h⟩ else none

/-- Deterministic public-key signatures. -/
structure SignatureScheme where
  /-- A signing key. -/
  SigningKey : Type
  /-- A key that checks signatures. -/
  VerifyingKey : Type
  /-- The public half of a signing key. -/
  verifyingKey : SigningKey → VerifyingKey
  /-- The signature of a message. -/
  sign : SigningKey → Bytes → Signature
  /-- Whether a signature belongs to a message. -/
  accepts : VerifyingKey → Bytes → Signature → Bool

end ObjectMeta
