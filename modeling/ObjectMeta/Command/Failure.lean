import ObjectMeta.Command.Files
import ObjectMeta.Operation.Error
import ObjectMeta.Text.Hex

/-!
# Failures

Why a task is not done, told as a chain: the failure and, further in, what caused it.
-/

namespace ObjectMeta.Command

inductive DatabaseError where
  /-- The directory that should hold it cannot be made. -/
  | directory (error : FileError)
  | file (error : FileError)
  deriving DecidableEq, Repr

def DatabaseError.chain : DatabaseError → List String
  | directory error => ["io error: " ++ error.message, error.message]
  | file error => ["redb error: I/O error: " ++ error.message, "I/O error: " ++ error.message]

inductive Failure where
  | openingDatabase (path : String) (error : DatabaseError)
  | readingKey (path : String) (error : FileError)
  /-- The directory that should hold the signing key cannot be made. -/
  | keyDirectory (error : FileError)
  | writingKey (path : String) (error : FileError)
  | savingDatabase (error : FileError)
  | unknownReplicationType (name : String)
  | unsupportedReplicationFactor (factor : UInt8)
  /-- A token's text is not hexadecimal. -/
  | tokenText (fault : Hex.Fault)
  /-- There is nobody to verify a token. -/
  | noAuthority
  | token (error : TokenError)
  | operation (error : OperationError)
  deriving DecidableEq, Repr

def operationChain (error : OperationError) : List String :=
  error.message :: match error with
    | .invalidRequest reason => [reason.message]
    | .store (.io message) => [(StoreError.io message).message, message]
    | .codec error => [error.message]
    | _ => []

namespace Failure

def chain : Failure → List String
  | openingDatabase path error => ("opening " ++ path) :: error.chain
  | readingKey path error => ["reading signing key " ++ path, error.message]
  | keyDirectory error => [error.message]
  | writingKey path error => ["writing signing key " ++ path, error.message]
  | savingDatabase error => operationChain (.store (.io error.message))
  | unknownReplicationType name => ["unknown replication type: " ++ name]
  | unsupportedReplicationFactor factor =>
    ["unsupported replication factor: " ++ toString factor.toNat]
  | tokenText fault => ["token is not valid hex", fault.message]
  | noAuthority => ["block token authority unavailable"]
  | token error => [error.message]
  | operation error => operationChain error

/-- A text with every further line behind spaces. -/
def indented (spaces : Nat) (s : String) : String :=
  String.join (s.toList.map fun c =>
    if c = '\n' then String.ofList ('\n' :: List.replicate spaces ' ') else String.singleton c)

/-- Causes in print: one by itself, several with numbers before them. -/
def causesText : List String → String
  | [] => ""
  | [cause] => "\n\nCaused by:\n    " ++ indented 4 cause
  | causes =>
    "\n\nCaused by:" ++ String.join (causes.zipIdx.map fun (cause, index) =>
      "\n    " ++ toString index ++ ": " ++ indented 7 cause)

def text (failure : Failure) : String :=
  match failure.chain with
  | [] => ""
  | message :: causes => "Error: " ++ message ++ causesText causes ++ "\n"

end Failure

end ObjectMeta.Command
