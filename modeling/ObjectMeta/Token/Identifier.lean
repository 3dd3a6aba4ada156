import ObjectMeta.BlockId
import ObjectMeta.Reader

/-!
# Token identifiers

The claims that a block token makes and their byte layout: a format byte, then seven fields, each
behind its length as a big-endian 32-bit number.  The two texts are UTF-8; the five integers are
big-endian 64-bit numbers.  Nothing may follow.  The layout is what signatures cover, so reading it
has to be exact.
-/

namespace ObjectMeta

structure TokenIdentifier where
  /-- The scheme the token belongs to. -/
  kind : String
  /-- Whom the token was issued to. -/
  owner : String
  block : BlockId
  issueTime : Int64
  expiryTime : Int64
  /-- How many bytes of the block the owner may use. -/
  maxLength : Int64
  deriving DecidableEq, Repr, Inhabited

namespace TokenIdentifier

def blockTokenKind : String := "HDDS_BLOCK_TOKEN"

def formatVersion : UInt8 := 1

/-- A token is no longer valid at the very moment of its expiry. -/
def isExpiredAt (id : TokenIdentifier) (now : Int64) : Bool := id.expiryTime ≤ now

/-! ## 1. Writing -/

def field (b : Bytes) : Bytes := Bytes.beBytes 4 b.length ++ b

def textField (s : String) : Bytes := field (Bytes.ofText s)

def intField (i : Int64) : Bytes := field (Bytes.beBytes 8 (Bytes.bits i))

def encode (id : TokenIdentifier) : Bytes :=
  formatVersion :: (textField id.kind ++ textField id.owner ++ intField id.block.container ++
    intField id.block.localId ++ intField id.issueTime ++ intField id.expiryTime ++
    intField id.maxLength)

/-! ## 2. Reading -/

inductive Field where
  | formatVersion
  | kind
  | owner
  | containerId
  | localId
  | issueTime
  | expiryTime
  | maxLength
  deriving DecidableEq, Repr

def Field.label : Field → String
  | .formatVersion => "format version"
  | .kind => "kind"
  | .owner => "owner"
  | .containerId => "container id"
  | .localId => "local id"
  | .issueTime => "issue time"
  | .expiryTime => "expiry time"
  | .maxLength => "max length"

inductive Fault where
  /-- The bytes end inside a part. -/
  | truncated (field : Field)
  | unsupportedVersion (version : UInt8)
  | notUtf8 (field : Field)
  /-- An integer's field has a length other than eight. -/
  | wrongLength (field : Field) (length : Nat)
  /-- Bytes follow the last part. -/
  | trailing (count : Nat)
  deriving DecidableEq, Repr

def Fault.message : Fault → String
  | .truncated field => "truncated " ++ field.label
  | .unsupportedVersion version =>
    "unsupported identifier format version " ++ toString version.toNat
  | .notUtf8 field => field.label ++ " is not valid UTF-8"
  | .wrongLength field length =>
    field.label ++ " has length " ++ toString length ++ ", expected 8"
  | .trailing count => toString count ++ " trailing bytes after identifier"

def readLength (field : Field) : Reader Fault Nat := do
  return Bytes.beNat (← Reader.take 4 (.truncated field))

def readText (field : Field) : Reader Fault String := do
  let length ← readLength field
  let raw ← Reader.take length (.truncated field)
  match Bytes.toText? raw with
  | some s => return s
  | none => Reader.fail (.notUtf8 field)

def readInt (field : Field) : Reader Fault Int64 := do
  let length ← readLength field
  if length ≠ 8 then Reader.fail (.wrongLength field length)
  return Bytes.signed (Bytes.beNat (← Reader.take 8 (.truncated field)))

def readVersion : Reader Fault Unit := fun
  | [] => .error (.truncated .formatVersion)
  | version :: rest =>
    if version = formatVersion then .ok ((), rest) else .error (.unsupportedVersion version)

def read : Reader Fault TokenIdentifier := do
  readVersion
  let kind ← readText .kind
  let owner ← readText .owner
  let container ← readInt .containerId
  let localId ← readInt .localId
  let issueTime ← readInt .issueTime
  let expiryTime ← readInt .expiryTime
  let maxLength ← readInt .maxLength
  return { kind, owner, block := ⟨container, localId⟩, issueTime, expiryTime, maxLength }

def decode (b : Bytes) : Except Fault TokenIdentifier := do
  let (id, rest) ← read.run b
  if rest.isEmpty then return id else throw (.trailing rest.length)

end TokenIdentifier

end ObjectMeta
