import ObjectMeta.Crypto.Ed25519
import ObjectMeta.Text.Blank
import ObjectMeta.Text.Hex
import ObjectMeta.Token.Authority

/-!
# Signing keys as text

A signing key is kept as the hexadecimal digits of its seed; white space around them is ignored.
-/

namespace ObjectMeta

open Ed25519

def Ed25519.Seed.ofText (text : String) : Except TokenError Seed :=
  match Hex.decode (Text.trim text) with
  | .error fault => .error (.invalidKey ("seed is not hex: " ++ fault.message))
  | .ok bytes =>
    match Seed.ofBytes? bytes with
    | none => .error (.invalidKey "seed must be 32 bytes")
    | some seed => .ok seed

def Ed25519.Seed.text (seed : Seed) : String := Hex.encode seed.bytes

def TokenVerifier.describe (verifier : TokenVerifier ed25519) : String :=
  let key : PublicKey := verifier.key
  "BlockTokenVerifier \x7b key: \"" ++ Hex.encode key.bytes ++ "\", .. \x7d"

end ObjectMeta
