import ObjectMeta.Command.Output
import ObjectMeta.Operation.Call
import ObjectMeta.Text.Hex

/-!
# Reports

What a task that succeeds tells.  A block's token is told as the hexadecimal digits of its wire
form, the form in which a token is given to be verified.
-/

namespace ObjectMeta.Command

inductive Report where
  | volume (info : VolumeInfo)
  | bucket (info : BucketInfo)
  | record (record : KeyRecord)
  | location (location : BlockLocation)
  /-- A token is valid and claims this. -/
  | accepted (claims : TokenIdentifier)
  | rejected (error : TokenError)
  deriving DecidableEq, Repr

def Output.int64 (value : Int64) : Output := .integer value.toInt

def tokenText (token : BlockToken) : String := Hex.encode token.toWire

namespace Report

def verdict : Except TokenError TokenIdentifier → Report
  | .ok claims => accepted claims
  | .error error => rejected error

def locationOutput (location : BlockLocation) : Output :=
  .object [
    ("containerId", .int64 location.block.container),
    ("localId", .int64 location.block.localId),
    ("offset", .int64 location.offset),
    ("length", .int64 location.length),
    ("token", .optional (location.token.map tokenText))]

def versionOutput (version : LocationVersion) : Output :=
  .object [
    ("version", .integer version.number.toNat),
    ("locations", .list (version.locations.map locationOutput))]

def recordOutput (record : KeyRecord) : Output :=
  .object [
    ("volume", .text record.volume),
    ("bucket", .text record.bucket),
    ("key", .text record.key),
    ("dataSize", .int64 record.dataSize),
    ("creationTime", .int64 record.creationTime),
    ("modificationTime", .int64 record.modificationTime),
    ("replicationType", .text record.replicationType.name),
    ("replicationFactor", .integer record.replicationFactor.replicas),
    ("versions", .list (record.versions.map versionOutput))]

def claimsOutput (claims : TokenIdentifier) : Output :=
  .object [
    ("kind", .text claims.kind),
    ("owner", .text claims.owner),
    ("containerId", .int64 claims.block.container),
    ("localId", .int64 claims.block.localId),
    ("issueTime", .int64 claims.issueTime),
    ("expiryTime", .int64 claims.expiryTime),
    ("maxLength", .int64 claims.maxLength)]

def output : Report → Output
  | volume info =>
    .object [("volume", .text info.name), ("owner", .text info.owner),
      ("creationTime", .int64 info.creationTime)]
  | bucket info =>
    .object [("volume", .text info.volume), ("bucket", .text info.name),
      ("creationTime", .int64 info.creationTime)]
  | record found => recordOutput found
  | location added => locationOutput added
  | accepted claims => .object [("valid", .boolean true), ("identifier", claimsOutput claims)]
  | rejected error => .object [("valid", .boolean false), ("error", .text error.message)]

def text (report : Report) : String := report.output.pretty ++ "\n"

end Report

end ObjectMeta.Command
