import ObjectMeta.Path
import ObjectMeta.Replication
import ObjectMeta.Token.Basic

/-!
# Metadata records

What the tables hold about volumes, buckets and keys.  A key's blocks are grouped in numbered
versions; readers see the last version of the list, and blocks are only ever added at the end of
one.
-/

namespace ObjectMeta

structure VolumeInfo where
  name : String
  owner : String
  creationTime : Int64
  deriving DecidableEq, Repr, Inhabited

structure BucketInfo where
  volume : String
  name : String
  creationTime : Int64
  deriving DecidableEq, Repr, Inhabited

structure BlockLocation where
  block : BlockId
  offset : Int64
  length : Int64
  /-- The credential for the block, where tokens are issued. -/
  token : Option BlockToken
  deriving DecidableEq, Repr, Inhabited

/-- One generation of a key's blocks. -/
structure LocationVersion where
  number : UInt64
  locations : List BlockLocation
  deriving DecidableEq, Repr, Inhabited

structure KeyRecord where
  volume : String
  bucket : String
  key : String
  dataSize : Int64
  creationTime : Int64
  modificationTime : Int64
  replicationType : ReplicationType
  replicationFactor : ReplicationFactor
  versions : List LocationVersion
  deriving DecidableEq, Repr, Inhabited

def LocationVersion.append (version : LocationVersion) (location : BlockLocation) :
    LocationVersion :=
  { version with locations := version.locations ++ [location] }

/-- Adds a block to the first version of the given number, if there is one. -/
def LocationVersion.appendTo (number : UInt64) (location : BlockLocation) :
    List LocationVersion → Option (List LocationVersion)
  | [] => none
  | version :: rest =>
    if version.number = number then some (version.append location :: rest)
    else (appendTo number location rest).map (version :: ·)

namespace KeyRecord

def path (record : KeyRecord) : ResourcePath :=
  .key record.volume record.bucket record.key

/-- The version that readers see. -/
def latest? (record : KeyRecord) : Option LocationVersion := record.versions.getLast?

/-- The number of the version that readers see, zero without one. -/
def latestNumber (record : KeyRecord) : UInt64 := (record.latest?.map (·.number)).getD 0

def latestLocations (record : KeyRecord) : List BlockLocation :=
  (record.latest?.map (·.locations)).getD []

/-- The first version of the given number. -/
def version? (record : KeyRecord) (number : UInt64) : Option LocationVersion :=
  record.versions.find? (·.number = number)

def appendLocation? (record : KeyRecord) (number : UInt64) (location : BlockLocation) :
    Option KeyRecord :=
  (LocationVersion.appendTo number location record.versions).map fun versions =>
    { record with versions }

def withLatestLocations (record : KeyRecord) (locations : List BlockLocation) : KeyRecord :=
  match record.latest? with
  | none => record
  | some version =>
    { record with versions := record.versions.dropLast ++ [{ version with locations }] }

def pushLatest (record : KeyRecord) (location : BlockLocation) : KeyRecord :=
  record.withLatestLocations (record.latestLocations ++ [location])

def tokens (record : KeyRecord) : List (Option BlockToken) :=
  record.versions.flatMap fun version => version.locations.map (·.token)

end KeyRecord

end ObjectMeta
