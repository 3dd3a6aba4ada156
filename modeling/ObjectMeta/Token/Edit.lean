import ObjectMeta.Token.Basic

/-!
# Edited tokens

Changes that a token may meet on its way: other claims under the old signature, flipped bits, bytes
lost or added.  They say from what verification has to protect.
-/

namespace ObjectMeta

structure ClaimEdit where
  kind : Option String := none
  owner : Option String := none
  container : Option Int64 := none
  localId : Option Int64 := none
  issueTime : Option Int64 := none
  expiryTime : Option Int64 := none
  maxLength : Option Int64 := none

def ClaimEdit.apply (edit : ClaimEdit) (id : TokenIdentifier) : TokenIdentifier where
  kind := edit.kind.getD id.kind
  owner := edit.owner.getD id.owner
  block := ⟨edit.container.getD id.block.container, edit.localId.getD id.block.localId⟩
  issueTime := edit.issueTime.getD id.issueTime
  expiryTime := edit.expiryTime.getD id.expiryTime
  maxLength := edit.maxLength.getD id.maxLength

inductive TokenEdit where
  /-- Encodes other claims and keeps the signature. -/
  | claims (edit : ClaimEdit)
  | flipIdentifier (index : Nat) (mask : UInt8)
  | flipSignature (index : Nat) (mask : UInt8)
  | extendIdentifier (bytes : Bytes)
  | cutIdentifier (length : Nat)
  | replaceSignature (signature : Bytes)

namespace BlockToken

/-- The token after an edit; other claims need a token that has claims. -/
def edit (token : BlockToken) : TokenEdit → Except TokenError BlockToken
  | .claims change => do
    let id ← token.decodeIdentifier
    return { token with identifier := (change.apply id).encode }
  | .flipIdentifier index mask =>
    .ok { token with identifier := token.identifier.modify index (· ^^^ mask) }
  | .flipSignature index mask =>
    .ok { token with signature := token.signature.modify index (· ^^^ mask) }
  | .extendIdentifier bytes => .ok { token with identifier := token.identifier ++ bytes }
  | .cutIdentifier length => .ok { token with identifier := token.identifier.take length }
  | .replaceSignature signature => .ok { token with signature }

end BlockToken

end ObjectMeta
