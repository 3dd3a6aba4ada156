import ObjectMeta.Assoc

/-!
# The state of one lock

A lock is held for reading by any number of threads or for writing by one.  Holds are counted per
thread, so a thread may take a lock again: for reading whenever no other thread writes, and for
writing when no other thread holds the lock at all.
-/

namespace ObjectMeta

inductive LockMode where
  /-- Shared. -/
  | read
  /-- Exclusive. -/
  | write
  deriving DecidableEq, Repr, Inhabited

structure LockState (τ : Type) where
  /-- How often each reading thread holds the lock. -/
  readers : Assoc τ Nat := ∅
  /-- The writing thread and how often it holds the lock. -/
  writer : Option (τ × Nat) := none
  deriving Repr

namespace LockState

variable {τ : Type} [DecidableEq τ]

instance : Inhabited (LockState τ) := ⟨{}⟩

def writerIsNoOther (state : LockState τ) (thread : τ) : Bool :=
  match state.writer with
  | none => true
  | some (owner, _) => decide (owner = thread)

def canGrant (state : LockState τ) (mode : LockMode) (thread : τ) : Bool :=
  match mode with
  | .read => state.writerIsNoOther thread
  | .write => state.writerIsNoOther thread && state.readers.keys.all fun t => decide (t = thread)

def readCount (state : LockState τ) (thread : τ) : Nat := (state.readers.get? thread).getD 0

def grant (state : LockState τ) (mode : LockMode) (thread : τ) : LockState τ :=
  match mode with
  | .read => { state with readers := state.readers.set thread (state.readCount thread + 1) }
  | .write =>
    match state.writer with
    | some (owner, count) => { state with writer := some (owner, count + 1) }
    | none => { state with writer := some (thread, 1) }

/-- The state with one hold less; the last one of its kind frees the place. -/
def release (state : LockState τ) (mode : LockMode) (thread : τ) : LockState τ :=
  match mode with
  | .read =>
    match state.readers.get? thread with
    | none => state
    | some count =>
      if count ≤ 1 then { state with readers := state.readers.erase thread }
      else { state with readers := state.readers.set thread (count - 1) }
  | .write =>
    match state.writer with
    | none => state
    | some (owner, count) =>
      if count ≤ 1 then { state with writer := none }
      else { state with writer := some (owner, count - 1) }

omit [DecidableEq τ] in
def isFree (state : LockState τ) : Bool := state.readers.isEmpty && state.writer.isNone

end LockState

end ObjectMeta
