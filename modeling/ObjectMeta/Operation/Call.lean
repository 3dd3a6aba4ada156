import ObjectMeta.Operation.Key

/-!
# Calls

The operations under one type, so that threads, histories and schedules can hold any of them.
-/

namespace ObjectMeta

inductive Call where
  | createVolume (volume owner : String)
  | createBucket (volume bucket : String)
  | getVolume (volume : String)
  | getBucket (volume bucket : String)
  | checkBucket (volume bucket : String)
  | openKey (request : KeyRequest)
  | allocateBlock (request : KeyRequest) (version : UInt64)
  | lookupKey (request : KeyRequest)
  | getOpenKey (path : ResourcePath)
  | getKey (path : ResourcePath)
  | putOpenKey (record : KeyRecord)
  | putKey (record : KeyRecord)
  | deleteOpenKey (path : ResourcePath)
  | commit (path : ResourcePath)
  deriving DecidableEq, Repr

inductive Outcome where
  | unit
  | volume (info : VolumeInfo)
  | bucket (info : BucketInfo)
  | record (record : KeyRecord)
  | location (location : BlockLocation)
  /-- Nothing was found. -/
  | absent
  /-- Whether there was an open key to commit. -/
  | committed (done : Bool)
  deriving DecidableEq, Repr, Inhabited

/-- The tokens of the blocks in an outcome, in order; one missing token where there are no blocks to
speak of. -/
def Outcome.tokens : Outcome → List (Option BlockToken)
  | .record found => found.tokens
  | .location added => [added.token]
  | _ => [none]

namespace Call

def request? : Call → Option KeyRequest
  | openKey request | allocateBlock request _ | lookupKey request => some request
  | _ => none

def operation (service : KeyService) : Call → Operation Outcome
  | createVolume volume owner => .volume <$> Operation.createVolume volume owner
  | createBucket volume bucket => .bucket <$> Operation.createBucket volume bucket
  | getVolume volume => (Option.elim · .absent .volume) <$> Operation.getVolume volume
  | getBucket volume bucket => (Option.elim · .absent .bucket) <$> Operation.getBucket volume bucket
  | checkBucket volume bucket => (fun _ => .unit) <$> Operation.checkBucketExists volume bucket
  | openKey request => .record <$> service.openKey request
  | allocateBlock request version => .location <$> service.allocateBlock request version
  | lookupKey request => .record <$> service.lookupKey request
  | getOpenKey path => (Option.elim · .absent .record) <$> Operation.getOpenKey path
  | getKey path => (Option.elim · .absent .record) <$> Operation.getKey path
  | putOpenKey record => (fun _ => .unit) <$> Operation.putOpenKey record
  | putKey record => (fun _ => .unit) <$> Operation.putKey record
  | deleteOpenKey path => (fun _ => .unit) <$> Operation.deleteOpenKey path
  | commit path => .committed <$> Operation.commit path

def program (service : KeyService) (call : Call) : Program (Except OperationError Outcome) :=
  (call.operation service).run

end Call

end ObjectMeta
