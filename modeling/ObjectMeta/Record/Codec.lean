import ObjectMeta.Reader
import ObjectMeta.Record.Basic
import ObjectMeta.Text.Utf8

/-!
# Stored records

The byte layout of records in the tables: fields one after the other, integers little-endian in
their own width, texts and lists behind a 64-bit count, alternatives as a 32-bit number, optional
values behind a byte.  Bytes after a record are ignored when it is read.
-/

namespace ObjectMeta

inductive CodecError where
  /-- The bytes end inside an integer or a list. -/
  | endOfInput
  /-- The bytes end inside a text. -/
  | shortText
  | notUtf8 (fault : Utf8.Fault)
  /-- A number that stands for none of `count` alternatives. -/
  | unknownVariant (index count : Nat)
  /-- A byte before an optional value that is neither zero nor one. -/
  | invalidTag (tag : Nat)
  deriving DecidableEq, Repr

def CodecError.message : CodecError → String
  | .endOfInput => "io error: unexpected end of file"
  | .shortText => "io error: "
  | .notUtf8 fault => "string is not valid utf8: " ++ fault.message
  | .unknownVariant index count =>
    "invalid value: integer `" ++ toString index ++ "`, expected variant index 0 <= i < " ++
      toString count
  | .invalidTag tag => "tag for enum is not valid, found " ++ toString tag

class Stored (α : Type) where
  /-- The bytes of a value. -/
  encode : α → Bytes
  /-- Reads a value. -/
  read : Reader CodecError α

namespace Stored

/-- The value at the front of a byte string. -/
def decode (α : Type) [Stored α] (b : Bytes) : Except CodecError α :=
  ((read : Reader CodecError α).run b).map Prod.fst

def readNat (width : Nat) : Reader CodecError Nat := do
  return Bytes.leNat (← Reader.take width .endOfInput)

instance : Stored UInt64 where
  encode n := Bytes.leBytes 8 n.toNat
  read := do return UInt64.ofNat (← readNat 8)

instance : Stored Int64 where
  encode i := Bytes.leBytes 8 (Bytes.bits i)
  read := do return Bytes.signed (← readNat 8)

instance : Stored String where
  encode s := Bytes.leBytes 8 (Bytes.ofText s).length ++ Bytes.ofText s
  read := do
    let length ← readNat 8
    let raw ← Reader.take length .shortText
    match Utf8.decode raw with
    | .ok s => return s
    | .error fault => Reader.fail (.notUtf8 fault)

/-- The layout of a list of values. -/
instance {α : Type} [Stored α] : Stored (List α) where
  encode l := Bytes.leBytes 8 l.length ++ l.flatMap encode
  read := do Reader.times (← readNat 8) read

instance {α : Type} [Stored α] : Stored (Option α) where
  encode
    | none => [0]
    | some a => 1 :: encode a
  read := do
    match ← readNat 1 with
    | 0 => return none
    | 1 => return some (← read)
    | tag => Reader.fail (.invalidTag tag)

/-- A byte inside a list of bytes. -/
instance : Stored UInt8 where
  encode b := [b]
  read := do return UInt8.ofNat (← readNat 1)

instance : Stored ReplicationType where
  encode
    | .standAlone => Bytes.leBytes 4 0
    | .ratis => Bytes.leBytes 4 1
    | .chained => Bytes.leBytes 4 2
  read := do
    match ← readNat 4 with
    | 0 => return .standAlone
    | 1 => return .ratis
    | 2 => return .chained
    | index => Reader.fail (.unknownVariant index 3)

instance : Stored ReplicationFactor where
  encode
    | .one => Bytes.leBytes 4 0
    | .three => Bytes.leBytes 4 1
  read := do
    match ← readNat 4 with
    | 0 => return .one
    | 1 => return .three
    | index => Reader.fail (.unknownVariant index 2)

instance : Stored BlockToken where
  encode token := encode token.identifier ++ encode token.signature
  read := do return { identifier := ← read, signature := ← read }

instance : Stored BlockId where
  encode id := encode id.container ++ encode id.localId
  read := do return { container := ← read, localId := ← read }

instance : Stored BlockLocation where
  encode l := encode l.block ++ encode l.offset ++ encode l.length ++ encode l.token
  read := do return { block := ← read, offset := ← read, length := ← read, token := ← read }

instance : Stored LocationVersion where
  encode v := encode v.number ++ encode v.locations
  read := do return { number := ← read, locations := ← read }

instance : Stored VolumeInfo where
  encode v := encode v.name ++ encode v.owner ++ encode v.creationTime
  read := do return { name := ← read, owner := ← read, creationTime := ← read }

instance : Stored BucketInfo where
  encode b := encode b.volume ++ encode b.name ++ encode b.creationTime
  read := do return { volume := ← read, name := ← read, creationTime := ← read }

instance : Stored KeyRecord where
  encode r := encode r.volume ++ encode r.bucket ++ encode r.key ++ encode r.dataSize ++
    encode r.creationTime ++ encode r.modificationTime ++ encode r.replicationType ++
    encode r.replicationFactor ++ encode r.versions
  read := do
    return {
      volume := ← read
      bucket := ← read
      key := ← read
      dataSize := ← read
      creationTime := ← read
      modificationTime := ← read
      replicationType := ← read
      replicationFactor := ← read
      versions := ← read }

end Stored

end ObjectMeta
