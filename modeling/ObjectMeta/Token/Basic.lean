import ObjectMeta.Crypto.Signature
import ObjectMeta.Text.Quoted
import ObjectMeta.Token.Error
import ObjectMeta.Token.Identifier

/-!
# Block tokens

A token is the bytes of an identifier with a detached signature over exactly these bytes.  On the
wire the signature is the last 64 bytes, so a token travels unchanged if its signature has that
length and its identifier is not empty.
-/

namespace ObjectMeta

/-- A credential for one block; its parts may be any bytes. -/
structure BlockToken where
  /-- The encoded identifier, as signed. -/
  identifier : Bytes
  signature : Bytes
  deriving DecidableEq, Repr, Inhabited

namespace BlockToken

def isEmpty (token : BlockToken) : Bool := token.identifier.isEmpty && token.signature.isEmpty

/-- The claims of a token, unchecked. -/
def decodeIdentifier (token : BlockToken) : Except TokenError TokenIdentifier :=
  (TokenIdentifier.decode token.identifier).mapError fun fault => .malformed fault.message

/-- The token as it travels: identifier, then signature. -/
def toWire (token : BlockToken) : Bytes := token.identifier ++ token.signature

def ofWire (b : Bytes) : Except TokenError BlockToken :=
  if b.length ≤ signatureLength then
    .error (.malformed
      ("token is " ++ toString b.length ++ " bytes, shorter than a signature plus identifier"))
  else
    let cut := b.length - signatureLength
    .ok ⟨b.take cut, b.drop cut⟩

/-- The token for a reader of diagnostics: some of its claims, or the lengths of its parts when it
has none. -/
def describe (token : BlockToken) : String :=
  match TokenIdentifier.decode token.identifier with
  | .ok id =>
    "BlockToken \x7b kind: " ++ Text.quoted id.kind ++ ", owner: " ++ Text.quoted id.owner ++
      ", block_id: BlockId \x7b container_id: " ++ toString id.block.container.toInt ++
      ", local_id: " ++ toString id.block.localId.toInt ++ " \x7d, expiry_time: " ++
      toString id.expiryTime.toInt ++ ", .. \x7d"
  | .error _ =>
    "BlockToken \x7b identifier_len: " ++ toString token.identifier.length ++
      ", signature_len: " ++ toString token.signature.length ++ " \x7d"

end BlockToken

end ObjectMeta
