import ObjectMeta.Lock.State
import ObjectMeta.Path
import ObjectMeta.Text.Quoted

/-!
# The lock table

One lock for each resource path, present as long as somebody holds it.  A lock covers its own path
only; operations take the locks of a hierarchy from coarse to fine.
-/

namespace ObjectMeta

/-- The locks that are held, by threads of type `τ`. -/
structure LockTable (τ : Type) where
  locks : Assoc ResourcePath (LockState τ) := ∅
  deriving Repr

/-- What can be seen of one lock: whether anybody holds it, how many threads read, whether one
writes. -/
structure LockView where
  locked : Bool
  readers : Nat
  writer : Bool
  deriving DecidableEq, Repr, Inhabited

structure LockGuard where
  path : ResourcePath
  mode : LockMode
  deriving DecidableEq, Repr, Inhabited

def LockGuard.describe (guard : LockGuard) : String :=
  "ResourceLockGuard \x7b path: ResourcePath(" ++ Text.quoted guard.path.text ++ "), mode: " ++
    (match guard.mode with | .read => "Read" | .write => "Write") ++ " \x7d"

namespace LockTable

variable {τ : Type} [DecidableEq τ]

instance : Inhabited (LockTable τ) := ⟨{}⟩

def state (table : LockTable τ) (path : ResourcePath) : LockState τ :=
  (table.locks.get? path).getD {}

def canGrant (table : LockTable τ) (path : ResourcePath) (mode : LockMode) (thread : τ) : Bool :=
  match table.locks.get? path with
  | none => true
  | some state => state.canGrant mode thread

def grant (table : LockTable τ) (path : ResourcePath) (mode : LockMode) (thread : τ) :
    LockTable τ :=
  ⟨table.locks.set path ((table.state path).grant mode thread)⟩

def release (table : LockTable τ) (path : ResourcePath) (mode : LockMode) (thread : τ) :
    LockTable τ :=
  match table.locks.get? path with
  | none => table
  | some state =>
    let state := state.release mode thread
    if state.isFree then ⟨table.locks.erase path⟩ else ⟨table.locks.set path state⟩

def isLocked (table : LockTable τ) (path : ResourcePath) : Bool := (table.locks.get? path).isSome

def readerCount (table : LockTable τ) (path : ResourcePath) : Nat := (table.state path).readers.size

def isWriteLocked (table : LockTable τ) (path : ResourcePath) : Bool :=
  (table.state path).writer.isSome

def view (table : LockTable τ) (path : ResourcePath) : LockView where
  locked := table.isLocked path
  readers := table.readerCount path
  writer := table.isWriteLocked path

end LockTable

end ObjectMeta
