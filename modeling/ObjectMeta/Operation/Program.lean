import ObjectMeta.Lock.Table
import ObjectMeta.Operation.Error
import ObjectMeta.Token.Basic

/-!
# Operations as programs of indivisible actions

An operation touches shared state only through actions, each of which happens at once: taking or
giving back a lock, one call of the store, one allocation, one clock reading, one token.  A
program is the tree of the actions an operation takes, branching on their answers, so it can be
run by itself or interleaved with others.
-/

namespace ObjectMeta

/-- One indivisible access to shared state. -/
inductive Action where
  | acquire (path : ResourcePath) (mode : LockMode)
  | release (path : ResourcePath) (mode : LockMode)
  | get (table : Table) (key : Bytes)
  | contains (table : Table) (key : Bytes)
  | put (table : Table) (key value : Bytes)
  | delete (table : Table) (key : Bytes)
  | allocate (request : AllocationRequest)
  /-- Reads the clock of the metadata. -/
  | now
  /-- Mints a token, where there is an authority to mint it. -/
  | mint (owner : String) (block : BlockId) (maxLength : Int64)
  deriving DecidableEq, Repr

@[reducible] def Action.Answer : Action → Type
  | acquire .. => Unit
  | release .. => Unit
  | get .. => Except StoreError (Option Bytes)
  | contains .. => Except StoreError Bool
  | put .. => Except StoreError Unit
  | delete .. => Except StoreError Unit
  | allocate _ => Except AllocationError BlockId
  | now => Int64
  | mint .. => Except TokenError (Option BlockToken)

/-- A tree of actions that ends in a value of type `α`. -/
inductive Program (α : Type) : Type where
  | done (value : α)
  | step (action : Action) (next : action.Answer → Program α)

namespace Program

variable {α β γ : Type}

instance [Inhabited α] : Inhabited (Program α) := ⟨done default⟩

def bind : Program α → (α → Program β) → Program β
  | done value, f => f value
  | step action next, f => step action fun answer => (next answer).bind f

instance : Monad Program where
  pure := done
  bind := bind

def perform (action : Action) : Program action.Answer := step action done

theorem bind_assoc (p : Program α) (f : α → Program β) (g : β → Program γ) :
    (p.bind f).bind g = p.bind fun a => (f a).bind g := by
  induction p with
  | done value => rfl
  | step action next ih => simp [bind, ih]

theorem bind_done (p : Program α) : p.bind done = p := by
  induction p with
  | done value => rfl
  | step action next ih => simp [bind, ih]

instance : LawfulMonad Program :=
  LawfulMonad.mk' Program bind_done (fun _ _ => rfl) bind_assoc

end Program

abbrev Operation (α : Type) := ExceptT OperationError Program α

namespace Operation

variable {α : Type}

def perform (action : Action) : Operation action.Answer :=
  ExceptT.lift (Program.perform action)

/-- An answer as an operation, with its error in terms of operations. -/
def ofExcept {ε : Type} (wrap : ε → OperationError) : Except ε α → Operation α
  | .ok a => pure a
  | .error e => throw (wrap e)

/-- Holds a lock while the body runs, and gives it back however the body ends. -/
def locked (path : ResourcePath) (mode : LockMode) (body : Operation α) : Operation α :=
  ExceptT.mk do
    Program.perform (.acquire path mode)
    let result ← body.run
    Program.perform (.release path mode)
    return result

def checked (result : Except RequestError Unit) : Operation Unit := ofExcept .invalidRequest result

def getBytes (table : Table) (path : ResourcePath) : Operation (Option Bytes) := do
  ofExcept .store (← perform (.get table path.tableKey))

def contains (table : Table) (path : ResourcePath) : Operation Bool := do
  ofExcept .store (← perform (.contains table path.tableKey))

def delete (table : Table) (path : ResourcePath) : Operation Unit := do
  ofExcept .store (← perform (.delete table path.tableKey))

def getRecord (α : Type) [Stored α] (table : Table) (path : ResourcePath) :
    Operation (Option α) := do
  match ← getBytes table path with
  | none => return none
  | some bytes => return some (← ofExcept .codec (Stored.decode α bytes))

def putRecord [Stored α] (table : Table) (path : ResourcePath) (record : α) : Operation Unit := do
  ofExcept .store (← perform (.put table path.tableKey (Stored.encode record)))

def now : Operation Int64 := perform .now

end Operation

end ObjectMeta
