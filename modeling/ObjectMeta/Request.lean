import ObjectMeta.Path
import ObjectMeta.Replication

/-!
# Key requests

What a client says when it opens, extends or looks up a key.
-/

namespace ObjectMeta

structure KeyRequest where
  volume : String
  bucket : String
  key : String
  /-- Expected size in bytes; without one the configured block size is used. -/
  dataSize : Option Int64 := none
  replicationType : ReplicationType := .standAlone
  replicationFactor : ReplicationFactor := .one
  /-- Whom block tokens are issued to; without one the service itself. -/
  user : Option String := none
  deriving DecidableEq, Repr, Inhabited

namespace KeyRequest

def path (request : KeyRequest) : ResourcePath :=
  .key request.volume request.bucket request.key

def bucketPath (request : KeyRequest) : ResourcePath :=
  .bucket request.volume request.bucket

/-- Refuses a request with a bad name or a negative size; of several faults the first of volume,
bucket, key and size is reported. -/
def validate (request : KeyRequest) : Except RequestError Unit := do
  validateVolumeName request.volume
  validateBucketName request.bucket
  if request.key = "" then throw .emptyKey
  match request.dataSize with
  | some size => if size < 0 then throw (.negativeSize size)
  | none => pure ()

end KeyRequest

end ObjectMeta
