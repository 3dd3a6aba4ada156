import ObjectMeta.Operation.Registry

/-!
# The life of a key

A key is opened with one block, extended block by block while it is open, committed, and looked
up. Opening excludes every other operation in the bucket; extending shares the bucket and excludes
others on the key; looking up shares both.  Locks are taken from coarse to fine, and nothing is
written before an allocation has succeeded.
-/

namespace ObjectMeta

structure KeyService where
  /-- The owner named in allocations, and in tokens for requests without a user. -/
  serviceId : String := "om1"
  /-- The size of a block where a request names none. -/
  blockSize : Int64 := 268435456
  /-- Whether a look-up falls back to keys that are still open. -/
  lookupOpenKeys : Bool := true
  deriving DecidableEq, Repr, Inhabited

namespace Operation

def getOpenKey (path : ResourcePath) : Operation (Option KeyRecord) :=
  getRecord KeyRecord .openKeys path

def getKey (path : ResourcePath) : Operation (Option KeyRecord) := getRecord KeyRecord .keys path

def putOpenKey (record : KeyRecord) : Operation Unit := putRecord .openKeys record.path record

def putKey (record : KeyRecord) : Operation Unit := putRecord .keys record.path record

def deleteOpenKey (path : ResourcePath) : Operation Unit := delete .openKeys path

/-- Turns an open key into a committed one; answers whether it was open. -/
def commit (path : ResourcePath) : Operation Bool := do
  match ← getOpenKey path with
  | none => return false
  | some record =>
    putKey record
    deleteOpenKey path
    return true

/-- Mints a token for a block, where there is an authority. -/
def mint (owner : String) (block : BlockId) (maxLength : Int64) :
    Operation (Option BlockToken) := do
  ofExcept .token (← perform (.mint owner block maxLength))

end Operation

namespace KeyService

open Operation

def tokenOwner (service : KeyService) (request : KeyRequest) : String :=
  request.user.getD service.serviceId

def allocateLocation (service : KeyService) (request : KeyRequest) (size : Int64)
    (replicationType : ReplicationType) (replicationFactor : ReplicationFactor) :
    Operation BlockLocation := do
  let answer ← perform (.allocate
    { size, replicationType, replicationFactor, owner := service.serviceId })
  let block ← ofExcept .ofAllocation answer
  let token ← mint (service.tokenOwner request) block size
  return { block, offset := 0, length := size, token }

def firstBlockSize (service : KeyService) (request : KeyRequest) : Int64 :=
  match request.dataSize with
  | some size => if 0 < size then size else service.blockSize
  | none => service.blockSize

/-- Opens a key with one block, in place of an earlier opening.  Its version is one more than that
of the committed key, and one without it. -/
def openKey (service : KeyService) (request : KeyRequest) : Operation KeyRecord := do
  checked request.validate
  locked request.bucketPath .write do
    checkBucketExists request.volume request.bucket
    let number := match ← getKey request.path with
      | none => 1
      | some committed => committed.latestNumber + 1
    let location ← service.allocateLocation request (service.firstBlockSize request)
      request.replicationType request.replicationFactor
    let time ← now
    let record : KeyRecord := {
      volume := request.volume
      bucket := request.bucket
      key := request.key
      dataSize := request.dataSize.getD 0
      creationTime := time
      modificationTime := time
      replicationType := request.replicationType
      replicationFactor := request.replicationFactor
      versions := [{ number, locations := [location] }] }
    putOpenKey record
    return record

/-- Adds a block to a version of an open key, with the replication that the key was opened with. -/
def allocateBlock (service : KeyService) (request : KeyRequest) (number : UInt64) :
    Operation BlockLocation := do
  checked request.validate
  locked request.bucketPath .read do
    locked request.path .write do
      let record? ← getOpenKey request.path
      let some record := record?.filter fun record => (record.version? number).isSome
        | throw (.keyNotOpen request.path.text number)
      let location ← service.allocateLocation request service.blockSize
        record.replicationType record.replicationFactor
      let extended := (record.appendLocation? number location).getD record
      putOpenKey { extended with modificationTime := ← now }
      return location

def refreshTokens (service : KeyService) (request : KeyRequest) :
    List BlockLocation → Operation (List BlockLocation)
  | [] => return []
  | location :: rest => do
    let token ← mint (service.tokenOwner request) location.block location.length
    let rest ← service.refreshTokens request rest
    return { location with token := token <|> location.token } :: rest

/-- Looks up a key: the committed one, else the open one where the service allows it.  The tokens of
the version that readers see are minted anew; the stored record is left alone. -/
def lookupKey (service : KeyService) (request : KeyRequest) : Operation KeyRecord := do
  checked request.validate
  locked request.bucketPath .read do
    locked request.path .read do
      let record ← match ← getKey request.path with
        | some record => pure record
        | none =>
          let open? ← if service.lookupOpenKeys then getOpenKey request.path else pure none
          match open? with
          | some record => pure record
          | none => throw (.keyNotFound request.path.text)
      let locations ← service.refreshTokens request record.latestLocations
      return record.withLatestLocations locations

end KeyService

end ObjectMeta
