import ObjectMeta.Operation.Call
import ObjectMeta.Operation.World

/-!
# Threads

Several threads share one world.  Each runs one call at a time and may hold locks between calls
under names of its own.  A thread that has to wait stays where it is in its program; the machine
settles when every thread has finished or waits.  Calls to the allocation service can be held back
and let through one by one.
-/

namespace ObjectMeta

/-- Which calls to the allocation service may go ahead. -/
structure AllocationGate (τ : Type) where
  /-- Whether calls are held back. -/
  held : Bool := false
  /-- Threads that have a call let through, once for each time they occur. -/
  passes : List τ := []
  deriving Repr

namespace AllocationGate

variable {τ : Type} [DecidableEq τ]

def admits (gate : AllocationGate τ) (thread : τ) : Bool :=
  !gate.held || decide (thread ∈ gate.passes)

def afterCall (gate : AllocationGate τ) (thread : τ) : AllocationGate τ :=
  if gate.held then { gate with passes := gate.passes.erase thread } else gate

end AllocationGate

/-- A call to the allocation service, and what could be seen of the locks during it. -/
structure AllocationCall where
  request : AllocationRequest
  volume : LockView
  bucket : LockView
  key : LockView
  deriving Repr

inductive Reply where
  | result (result : Except OperationError Outcome)
  /-- A lock was taken under a name. -/
  | locked (name : String) (guard : LockGuard)
  /-- A lock was given back, if there was one. -/
  | unlocked (held : Bool)

structure Task (τ : Type) where
  /-- Tells the tasks of a machine apart. -/
  index : Nat
  thread : τ
  /-- The request whose locks are looked at during allocations. -/
  request? : Option KeyRequest := none
  /-- The allocations so far, oldest first. -/
  allocations : List AllocationCall := []
  /-- What is still to be done. -/
  program : Program Reply

structure Finished where
  index : Nat
  reply : Reply
  allocations : List AllocationCall

/-- A world, the locks that threads hold between calls, and the threads at work. -/
structure Machine (S : SignatureScheme) (A : AllocationService) (τ : Type) where
  world : World S A τ
  service : KeyService := {}
  gate : AllocationGate τ := {}
  guards : Assoc (τ × String) LockGuard := ∅
  tasks : List (Task τ) := []
  /-- The tasks that have come to their end, latest first. -/
  finished : List Finished := []

namespace Machine

variable {S : SignatureScheme} {A : AllocationService} {τ : Type} [DecidableEq τ]

/-! ## 1. Actions of a thread -/

def isReady (m : Machine S A τ) (thread : τ) (action : Action) : Bool :=
  m.world.isReady thread action &&
    match action with
    | .allocate _ => m.gate.admits thread
    | _ => true

def perform (m : Machine S A τ) (thread : τ) (action : Action) : action.Answer × Machine S A τ :=
  let (answer, world) := m.world.perform thread action
  let gate := match action with
    | .allocate _ => m.gate.afterCall thread
    | _ => m.gate
  (answer, { m with world, gate })

def allocationOf (m : Machine S A τ) (request? : Option KeyRequest) : Action → List AllocationCall
  | .allocate request =>
    match request? with
    | none => []
    | some key =>
      [{ request
         volume := m.world.locks.view (.volume key.volume)
         bucket := m.world.locks.view key.bucketPath
         key := m.world.locks.view key.path }]
  | _ => []

/-- Takes the actions of a program until it ends or has to wait. -/
def runTask (thread : τ) (request? : Option KeyRequest) :
    Program Reply → List AllocationCall → Machine S A τ →
      Program Reply × List AllocationCall × Machine S A τ
  | .done reply, allocations, m => (.done reply, allocations, m)
  | .step action next, allocations, m =>
    if m.isReady thread action then
      let allocations := allocations ++ m.allocationOf request? action
      let (answer, m) := m.perform thread action
      runTask thread request? (next answer) allocations m
    else (.step action next, allocations, m)

/-! ## 2. Tasks -/

def keepGuard (m : Machine S A τ) (thread : τ) : Reply → Machine S A τ
  | .locked name guard => { m with guards := m.guards.set (thread, name) guard }
  | _ => m

def round : List (Task τ) → Machine S A τ → List Finished × Machine S A τ
  | [], m => ([], m)
  | task :: rest, m =>
    let (program, allocations, m) := runTask task.thread task.request? task.program
      task.allocations m
    match program with
    | .done reply =>
      let ended : Finished := { index := task.index, reply, allocations }
      let m := m.keepGuard task.thread reply
      let (others, m) := round rest { m with finished := ended :: m.finished }
      (ended :: others, m)
    | .step action next =>
      let waiting := { task with allocations, program := .step action next }
      round rest { m with tasks := m.tasks ++ [waiting] }

def rounds : Nat → Machine S A τ → List Finished × Machine S A τ
  | 0, m => ([], m)
  | n + 1, m =>
    let (ended, m) := round m.tasks { m with tasks := [] }
    let (others, m) := rounds n m
    (ended ++ others, m)

/-- Runs the tasks until each has ended or waits.  A round in which no task moves is the last, and a
task waits at most three times: for two locks and an allocation. -/
def settle (m : Machine S A τ) : List Finished × Machine S A τ :=
  rounds (3 * m.tasks.length + 1) m

def isBusy (m : Machine S A τ) (thread : τ) : Bool := m.tasks.any fun task => task.thread = thread

def submit (m : Machine S A τ) (index : Nat) (thread : τ) (call : Call) : Machine S A τ :=
  let task : Task τ := {
    index, thread
    request? := call.request?
    program := .result <$> call.program m.service }
  { m with tasks := m.tasks ++ [task] }

/-- Lets a thread take a lock under a name; the lock it had under that name is given back after. -/
def submitLock (m : Machine S A τ) (index : Nat) (thread : τ) (name : String) (guard : LockGuard) :
    Machine S A τ :=
  let program : Program Reply := do
    Program.perform (.acquire guard.path guard.mode)
    if let some old := m.guards.get? (thread, name) then
      Program.perform (.release old.path old.mode)
    return .locked name guard
  { m with tasks := m.tasks ++ [{ index, thread, program }] }

def submitUnlock (m : Machine S A τ) (index : Nat) (thread : τ) (name : String) :
    Machine S A τ :=
  let program : Program Reply := do
    match m.guards.get? (thread, name) with
    | some old =>
      Program.perform (.release old.path old.mode)
      return .unlocked true
    | none => return .unlocked false
  { m with
    guards := m.guards.erase (thread, name)
    tasks := m.tasks ++ [{ index, thread, program }] }

/-! ## 3. The surroundings of the threads -/

omit [DecidableEq τ] in
def setClock (m : Machine S A τ) (time : Int64) : Machine S A τ :=
  { m with world := { m.world with clock := time } }

omit [DecidableEq τ] in
def setTokenClock (m : Machine S A τ) (time : Int64) : Machine S A τ :=
  match m.world.ownTokenClock with
  | some _ => { m with world := { m.world with ownTokenClock := some time } }
  | none => m.setClock time

omit [DecidableEq τ] in
def startAuthority (m : Machine S A τ) (key : S.SigningKey) :
    Except TokenError Unit × Machine S A τ :=
  match m.world.authority with
  | none => (.error .notInitialized, m)
  | some authority =>
    match authority.start key with
    | .error e => (.error e, m)
    | .ok authority => (.ok (), { m with world := { m.world with authority := some authority } })

omit [DecidableEq τ] in
def withStore {α : Type} (m : Machine S A τ) (f : FaultyStore → α × FaultyStore) :
    α × Machine S A τ :=
  let (answer, store) := f m.world.store
  (answer, { m with world := { m.world with store } })

omit [DecidableEq τ] in
def addFault (m : Machine S A τ) (fault : StoreFault) : Machine S A τ :=
  (m.withStore fun s => ((), { s with faults := s.faults ++ [fault] })).2

omit [DecidableEq τ] in
def clearFaults (m : Machine S A τ) : Machine S A τ :=
  (m.withStore fun s => ((), { s with faults := [] })).2

omit [DecidableEq τ] in
def reopenStore (m : Machine S A τ) : Machine S A τ :=
  (m.withStore fun s => ((), { s with store := s.store.reopen })).2

omit [DecidableEq τ] in
def holdAllocations (m : Machine S A τ) : Machine S A τ :=
  { m with gate := { m.gate with held := true } }

omit [DecidableEq τ] in
def passAllocation (m : Machine S A τ) (thread : τ) : Machine S A τ :=
  { m with gate := { m.gate with passes := thread :: m.gate.passes } }

omit [DecidableEq τ] in
def openAllocations (m : Machine S A τ) : Machine S A τ :=
  { m with gate := { m.gate with held := false } }

omit [DecidableEq τ] in
def verifyToken (m : Machine S A τ) (token : BlockToken) : Except TokenError TokenIdentifier :=
  match m.world.authority with
  | none => .error .notInitialized
  | some authority => authority.verify m.world.tokenClock token

omit [DecidableEq τ] in
/-- Verifies the tokens in the reply to a task; a reply without blocks counts as one missing
token. -/
def verifyReply (m : Machine S A τ) (index : Nat) :
    List (Option (Except TokenError TokenIdentifier)) :=
  let tokens := match (m.finished.find? (·.index = index)).map (·.reply) with
    | some (.result (.ok outcome)) => outcome.tokens
    | _ => [none]
  tokens.map fun token => token.map m.verifyToken

end Machine

end ObjectMeta
