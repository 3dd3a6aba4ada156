import ObjectMeta.Operation.Program
import ObjectMeta.Token.Authority

/-!
# The shared state and what actions do to it

The state that operations share is the store, the locks, the allocation service, the clocks and the
token authority.  Every action is a function on it.  Only taking a lock may have to wait, and it is
ready when the lock can be granted.
-/

namespace ObjectMeta

/-- The state that operations share, with threads of type `τ`. -/
structure World (S : SignatureScheme) (A : AllocationService) (τ : Type) where
  store : FaultyStore
  locks : LockTable τ := {}
  allocator : A.State
  /-- The clock of the metadata. -/
  clock : Int64
  /-- The clock of the token authority, where it has one of its own. -/
  ownTokenClock : Option Int64 := none
  /-- Mints the tokens; without it blocks carry none. -/
  authority : Option (TokenAuthority S) := none

variable {S : SignatureScheme} {A : AllocationService} {τ α : Type} [DecidableEq τ]

namespace World

omit [DecidableEq τ] in
def tokenClock (w : World S A τ) : Int64 := w.ownTokenClock.getD w.clock

omit [DecidableEq τ] in
def mint (w : World S A τ) (owner : String) (block : BlockId) (maxLength : Int64) :
    Except TokenError (Option BlockToken) :=
  match w.authority with
  | none => .ok none
  | some authority => (authority.mint w.tokenClock owner block maxLength).map some

def isReady (w : World S A τ) (thread : τ) : Action → Bool
  | .acquire path mode => w.locks.canGrant path mode thread
  | _ => true

def perform (w : World S A τ) (thread : τ) : (action : Action) → action.Answer × World S A τ
  | .acquire path mode => ((), { w with locks := w.locks.grant path mode thread })
  | .release path mode => ((), { w with locks := w.locks.release path mode thread })
  | .get table key =>
    let (answer, store) := w.store.get table key
    (answer, { w with store })
  | .contains table key =>
    let (answer, store) := w.store.contains table key
    (answer, { w with store })
  | .put table key value =>
    let (answer, store) := w.store.put table key value
    (answer, { w with store })
  | .delete table key =>
    let (answer, store) := w.store.delete table key
    (answer, { w with store })
  | .allocate request =>
    let (answer, allocator) := A.allocate request w.allocator
    (answer, { w with allocator })
  | .now => (w.clock, w)
  | .mint owner block maxLength => (w.mint owner block maxLength, w)

end World

/-- Runs a program with no other thread about, so that it never waits. -/
def Program.runAlone (thread : τ) : Program α → World S A τ → α × World S A τ
  | .done value, w => (value, w)
  | .step action next, w =>
    let (answer, w) := w.perform thread action
    (next answer).runAlone thread w

omit [DecidableEq τ] in
/-- Whether an action reads the time: of the metadata, or for an authority that has its key. -/
def World.readsClock (w : World S A τ) : Action → Bool
  | .now => true
  | .mint .. => w.authority.any (·.isStarted)
  | _ => false

/-- Runs a program with no other thread about, by a clock that goes on: every action that reads the
time reads it anew. -/
def Program.runByClock {m : Type → Type} [Monad m] (now : m Int64) (thread : τ) :
    Program α → World S A τ → m (α × World S A τ)
  | .done value, w => return (value, w)
  | .step action next, w => do
    let w ← if w.readsClock action then (fun time => { w with clock := time }) <$> now else pure w
    let (answer, w) := w.perform thread action
    (next answer).runByClock now thread w

end ObjectMeta
