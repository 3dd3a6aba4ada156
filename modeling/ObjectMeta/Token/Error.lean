/-!
# Token errors

Why a token cannot be minted or is not accepted.
-/

namespace ObjectMeta

inductive TokenError where
  /-- The authority has no signing key yet. -/
  | notInitialized
  /-- The authority has a signing key already. -/
  | alreadyStarted
  | kindMismatch (expected actual : String)
  | expired (expiryTime now : Int64)
  | signatureInvalid
  /-- The token's bytes are not those of a token. -/
  | malformed (reason : String)
  /-- A signing key cannot be read. -/
  | invalidKey (reason : String)
  deriving DecidableEq, Repr, Inhabited

namespace TokenError

def message : TokenError → String
  | notInitialized => "block token authority has not been started"
  | alreadyStarted => "block token authority is already started"
  | kindMismatch expected actual =>
    "token kind mismatch: expected " ++ expected ++ ", got " ++ actual
  | expired expiryTime now =>
    "block token expired at " ++ toString expiryTime.toInt ++ " (now " ++ toString now.toInt ++ ")"
  | signatureInvalid => "block token signature is invalid"
  | malformed reason => "malformed block token: " ++ reason
  | invalidKey reason => "invalid signing key: " ++ reason

/-- Whether the token itself is at fault, which a verifying party reports as failed
authentication. -/
def isAuthenticationFailure : TokenError → Bool
  | kindMismatch .. | expired .. | signatureInvalid | malformed _ => true
  | notInitialized | alreadyStarted | invalidKey _ => false

end TokenError

end ObjectMeta
