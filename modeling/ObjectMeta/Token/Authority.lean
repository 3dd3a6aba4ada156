import ObjectMeta.Clock
import ObjectMeta.Token.Basic

/-!
# Minting and verifying tokens

An authority is created without a key and started once with one; from then on it mints tokens that
expire a fixed time after they were issued.  Whoever has the public key can verify them.  The checks
come in a fixed order (layout, kind, expiry, signature) and the first that fails is reported.
-/

namespace ObjectMeta

/-- The claims of a token if it is valid at `now` under the key. -/
def verifyToken (S : SignatureScheme) (key : S.VerifyingKey) (now : Int64) (token : BlockToken) :
    Except TokenError TokenIdentifier := do
  let id ← token.decodeIdentifier
  if id.kind ≠ TokenIdentifier.blockTokenKind then
    throw (.kindMismatch TokenIdentifier.blockTokenKind id.kind)
  if id.isExpiredAt now then
    throw (.expired id.expiryTime now)
  match Signature.ofBytes? token.signature with
  | none => throw .signatureInvalid
  | some signature =>
    if S.accepts key token.identifier signature then return id else throw .signatureInvalid

/-- A party that checks tokens with the public key alone. -/
structure TokenVerifier (S : SignatureScheme) where
  key : S.VerifyingKey

def TokenVerifier.verify {S : SignatureScheme} (verifier : TokenVerifier S) (now : Int64)
    (token : BlockToken) : Except TokenError TokenIdentifier :=
  verifyToken S verifier.key now token

/-- Issues tokens of one lifetime, once it has a signing key. -/
structure TokenAuthority (S : SignatureScheme) where
  /-- How long tokens are valid, in milliseconds. -/
  lifetime : Int64
  signingKey : Option S.SigningKey := none

namespace TokenAuthority

variable {S : SignatureScheme}

def isStarted (authority : TokenAuthority S) : Bool := authority.signingKey.isSome

/-- Gives the authority its signing key; it keeps the first one for good. -/
def start (authority : TokenAuthority S) (key : S.SigningKey) :
    Except TokenError (TokenAuthority S) :=
  match authority.signingKey with
  | some _ => .error .alreadyStarted
  | none => .ok { authority with signingKey := some key }

def key (authority : TokenAuthority S) : Except TokenError S.SigningKey :=
  match authority.signingKey with
  | some key => .ok key
  | none => .error .notInitialized

def verifyingKey (authority : TokenAuthority S) : Except TokenError S.VerifyingKey :=
  authority.key.map S.verifyingKey

def verifier (authority : TokenAuthority S) : Except TokenError (TokenVerifier S) :=
  authority.verifyingKey.map fun key => ⟨key⟩

def claims (authority : TokenAuthority S) (now : Int64) (owner : String) (block : BlockId)
    (maxLength : Int64) : TokenIdentifier where
  kind := TokenIdentifier.blockTokenKind
  owner := owner
  block := block
  issueTime := now
  expiryTime := saturatingAdd now authority.lifetime
  maxLength := maxLength

/-- A token for the owner on the block, valid from `now` for the authority's lifetime. -/
def mint (authority : TokenAuthority S) (now : Int64) (owner : String) (block : BlockId)
    (maxLength : Int64) : Except TokenError BlockToken := do
  let key ← authority.key
  let identifier := (authority.claims now owner block maxLength).encode
  return ⟨identifier, (S.sign key identifier).bytes⟩

def verify (authority : TokenAuthority S) (now : Int64) (token : BlockToken) :
    Except TokenError TokenIdentifier := do
  verifyToken S (← authority.verifyingKey) now token

def describe (authority : TokenAuthority S) : String :=
  "BlockTokenAuthority \x7b expiry_ms: " ++ toString authority.lifetime.toInt ++ ", started: " ++
    toString authority.isStarted ++ ", .. \x7d"

end TokenAuthority

end ObjectMeta
