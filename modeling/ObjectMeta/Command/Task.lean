import ObjectMeta.Command.Failure
import ObjectMeta.Command.Invocation
import ObjectMeta.Command.Report
import ObjectMeta.Config.Basic
import ObjectMeta.Operation.World
import ObjectMeta.Text.Blank

/-!
# Doing a task

A task acts on a durable store under a configuration.  It reads the clock for every time that it
records, every token that it mints and every token that it judges.  The blocks it allocates are
numbered from a thousand times an earlier reading on, that of the start.  Blocks carry tokens only
if the configuration says so, whereas a token is verified by any authority there is.
-/

namespace ObjectMeta.Command

variable {S : SignatureScheme} {m : Type → Type} [Monad m] {α : Type}

structure Surroundings (S : SignatureScheme) where
  config : Config
  /-- The time at the start. -/
  start : Int64
  authority : Option (TokenAuthority S) := none

namespace Surroundings

def allocator (around : Surroundings S) : LocalAllocator where
  container := around.config.allocator.container
  nextLocalId := around.start * 1000
  chillMode := around.config.allocator.chillMode

def minter (around : Surroundings S) : Option (TokenAuthority S) :=
  if around.config.blockTokensEnabled then around.authority else none

def world (around : Surroundings S) (store : Store) : World S localAllocation Unit where
  store := { store }
  allocator := around.allocator
  clock := around.start
  authority := around.minter

def operate (now : m Int64) (around : Surroundings S) (report : α → Report)
    (operation : Operation α) (store : Store) : m (Except Failure Report × Store) := do
  let (result, world) ← operation.run.runByClock now () (around.world store)
  return ((result.map report).mapError .operation, world.store.store)

/-- The token that a text spells, and the authority that judges it. -/
def readToken (around : Surroundings S) (text : String) :
    Except Failure (BlockToken × TokenAuthority S) := do
  let bytes ← (Hex.decode (Text.trim text)).mapError .tokenText
  let token ← (BlockToken.ofWire bytes).mapError .token
  match around.authority with
  | none => throw .noAuthority
  | some authority => return (token, authority)

def verify (now : m Int64) (around : Surroundings S) (text : String) :
    m (Except Failure Report) := do
  match around.readToken text with
  | .error failure => return .error failure
  | .ok (token, authority) => return .ok (.verdict (authority.verify (← now) token))

end Surroundings

def upperCase (s : String) : String := s.map Char.toUpper

/-- The replication that a name, in either case, and a number of copies stand for. -/
def replication (name : String) (factor : UInt8) :
    Except Failure (ReplicationType × ReplicationFactor) := do
  let type ← match upperCase name with
    | "STAND_ALONE" | "STANDALONE" => pure ReplicationType.standAlone
    | "RATIS" => pure .ratis
    | "CHAINED" => pure .chained
    | other => throw (.unknownReplicationType other)
  match factor.toNat with
  | 1 => return (type, .one)
  | 3 => return (type, .three)
  | _ => throw (.unsupportedReplicationFactor factor)

def KeyArguments.request (key : KeyArguments) : KeyRequest :=
  { volume := key.volume, bucket := key.bucket, key := key.key, user := key.user }

namespace Task

/-- Whether the task needs an authority whatever the configuration says. -/
def needsAuthority : Task → Bool
  | verifyToken _ => true
  | _ => false

/-- What a task reports, and the store after it. -/
def perform (now : m Int64) (around : Surroundings S) (task : Task) (store : Store) :
    m (Except Failure Report × Store) :=
  let service := around.config.service.keys
  match task with
  | createVolume volume owner =>
    around.operate now .volume (Operation.createVolume volume owner) store
  | createBucket volume bucket =>
    around.operate now .bucket (Operation.createBucket volume bucket) store
  | openKey key size name factor =>
    match replication name factor with
    | .error failure => return (.error failure, store)
    | .ok (replicationType, replicationFactor) =>
      around.operate now .record
        (service.openKey { key.request with dataSize := size, replicationType, replicationFactor })
        store
  | allocateBlock key version =>
    around.operate now .location (service.allocateBlock key.request version) store
  | lookupKey key => around.operate now .record (service.lookupKey key.request) store
  | verifyToken text => return (← around.verify now text, store)

end Task

end ObjectMeta.Command
