import ObjectMeta.Allocation
import ObjectMeta.Record.Codec
import ObjectMeta.Request
import ObjectMeta.Store.Fault
import ObjectMeta.Token.Error

/-!
# Operation errors

Why a metadata operation fails.  A refusal by a cluster that is not ready keeps the reason it was
given word for word, and is the only error worth trying again.
-/

namespace ObjectMeta

inductive ResourceKind where
  | volume
  | bucket
  deriving DecidableEq, Repr, Inhabited

def ResourceKind.name : ResourceKind → String
  | .volume => "volume"
  | .bucket => "bucket"

inductive OperationError where
  /-- Blocks cannot be placed yet. -/
  | clusterNotReady (reason : String)
  /-- A block was not allocated for another reason. -/
  | blockAllocation (reason : String)
  | resourceNotFound (kind : ResourceKind) (name : String)
  | resourceExists (kind : ResourceKind) (name : String)
  | keyNotOpen (path : String) (version : UInt64)
  | keyNotFound (path : String)
  | invalidRequest (reason : RequestError)
  | token (error : TokenError)
  | store (error : StoreError)
  /-- A stored record cannot be read. -/
  | codec (error : CodecError)
  deriving DecidableEq, Repr

namespace OperationError

instance : Inhabited OperationError := ⟨.keyNotFound ""⟩

def ofAllocation : AllocationError → OperationError
  | .clusterNotReady reason => clusterNotReady reason
  | .unavailable reason => blockAllocation (AllocationError.unavailable reason).message
  | .rejected reason => blockAllocation (AllocationError.rejected reason).message

def message : OperationError → String
  | clusterNotReady reason => reason
  | blockAllocation reason => "block allocation failed: " ++ reason
  | resourceNotFound kind name => kind.name ++ " not found: " ++ name
  | resourceExists kind name => kind.name ++ " already exists: " ++ name
  | keyNotOpen path version =>
    "key is not open: " ++ path ++ " (version " ++ toString version.toNat ++ ")"
  | keyNotFound path => "key not found: " ++ path
  | invalidRequest reason => "invalid request: " ++ reason.message
  | token error => error.message
  | store error => "metadata store error: " ++ error.message
  | codec error => "record codec error: " ++ error.message

/-- Whether the same call may succeed later. -/
def isRetryable : OperationError → Bool
  | clusterNotReady _ => true
  | _ => false

def isNotFound : OperationError → Bool
  | resourceNotFound .. | keyNotFound _ | keyNotOpen .. => true
  | _ => false

/-- A stable name for the class of the failure. -/
def code : OperationError → String
  | clusterNotReady _ => "CHILL_MODE"
  | blockAllocation _ => "BLOCK_ALLOCATION_FAILED"
  | resourceNotFound .volume _ => "VOLUME_NOT_FOUND"
  | resourceNotFound .bucket _ => "BUCKET_NOT_FOUND"
  | resourceExists .. => "ALREADY_EXISTS"
  | keyNotOpen .. => "KEY_NOT_OPEN"
  | keyNotFound _ => "KEY_NOT_FOUND"
  | invalidRequest _ => "INVALID_REQUEST"
  | token .notInitialized => "TOKEN_AUTHORITY_NOT_STARTED"
  | token _ => "TOKEN_ERROR"
  | store _ | codec _ => "METADATA_ERROR"

end OperationError

end ObjectMeta
