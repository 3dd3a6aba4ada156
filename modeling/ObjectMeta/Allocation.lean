import ObjectMeta.BlockId
import ObjectMeta.Replication

/-!
# Block allocation

Blocks are placed by a service of their own, asked one block at a time.  Two are bundled: a local
one that numbers blocks in sequence and can be closed for a while (chill mode), and one that
answers from a script.
-/

namespace ObjectMeta

inductive AllocationError where
  /-- The cluster is not ready to place blocks; the reason is passed on as it is. -/
  | clusterNotReady (reason : String)
  | unavailable (reason : String)
  | rejected (reason : String)
  deriving DecidableEq, Repr, Inhabited

def AllocationError.message : AllocationError → String
  | .clusterNotReady reason => reason
  | .unavailable reason => "block location service unavailable: " ++ reason
  | .rejected reason => "allocation rejected: " ++ reason

structure AllocationRequest where
  size : Int64
  replicationType : ReplicationType
  replicationFactor : ReplicationFactor
  owner : String
  deriving DecidableEq, Repr, Inhabited

structure AllocationService where
  State : Type
  /-- The answer to a call and the state after it. -/
  allocate : AllocationRequest → State → Except AllocationError BlockId × State

/-- Numbers the blocks of one container in sequence. -/
structure LocalAllocator where
  container : Int64
  nextLocalId : Int64
  /-- While set, every call is refused. -/
  chillMode : Bool := false
  deriving DecidableEq, Repr, Inhabited

def chillModeReason : String := "ChillModePrecheck failed for allocateBlock"

/-- The next block, unless chill mode is on or the size is not positive; numbers wrap around. -/
def LocalAllocator.allocate (request : AllocationRequest) (s : LocalAllocator) :
    Except AllocationError BlockId × LocalAllocator :=
  if s.chillMode then
    (.error (.clusterNotReady chillModeReason), s)
  else if request.size ≤ 0 then
    (.error (.rejected ("block size must be positive, got " ++ toString request.size.toInt)), s)
  else
    (.ok ⟨s.container, s.nextLocalId⟩, { s with nextLocalId := s.nextLocalId + 1 })

inductive Allocator where
  | sequential (s : LocalAllocator)
  /-- Each call takes the next answer. -/
  | scripted (answers : List (Except AllocationError BlockId))

namespace Allocator

def allocate (request : AllocationRequest) : Allocator →
    Except AllocationError BlockId × Allocator
  | sequential s => ((s.allocate request).1, sequential (s.allocate request).2)
  | scripted [] => (.error (.unavailable "script exhausted"), scripted [])
  | scripted (answer :: answers) => (answer, scripted answers)

def setChillMode (on : Bool) : Allocator → Allocator
  | sequential s => sequential { s with chillMode := on }
  | scripted answers => scripted answers

end Allocator

def localAllocation : AllocationService := ⟨LocalAllocator, LocalAllocator.allocate⟩

def bundledAllocation : AllocationService := ⟨Allocator, Allocator.allocate⟩

end ObjectMeta
