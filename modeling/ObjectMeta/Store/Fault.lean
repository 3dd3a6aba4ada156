import ObjectMeta.Store.Basic

/-!
# Stores that fail

A store may be told to fail certain calls.  A call that fails has no effect and reports the fault's
message; a fault can let a number of calls through first.
-/

namespace ObjectMeta

inductive StoreError where
  | io (message : String)
  deriving DecidableEq, Repr, Inhabited

def StoreError.message : StoreError → String
  | .io message => "io error: " ++ message

/-- The kinds of store calls; asking whether a key is there is a `get`. -/
inductive StoreCall where
  | get
  | put
  | delete
  deriving DecidableEq, Repr, Inhabited

/-- Makes the calls of one kind on one table fail. -/
structure StoreFault where
  call : StoreCall
  table : Table
  message : String
  /-- How many such calls still succeed. -/
  allowed : Nat := 0
  deriving DecidableEq, Repr

/-- Takes a call past the faults, the oldest first: one that still allows the call counts it, the
first other one speaks. -/
def StoreFault.check (call : StoreCall) (table : Table) :
    List StoreFault → Except StoreError Unit × List StoreFault
  | [] => (.ok (), [])
  | fault :: rest =>
    if fault.call = call ∧ fault.table = table then
      match fault.allowed with
      | 0 => (.error (.io fault.message), fault :: rest)
      | allowed + 1 =>
        let (answer, rest) := check call table rest
        (answer, { fault with allowed } :: rest)
    else
      let (answer, rest) := check call table rest
      (answer, fault :: rest)

structure FaultyStore where
  store : Store
  faults : List StoreFault := []

namespace FaultyStore

def attempt {α : Type} (s : FaultyStore) (call : StoreCall) (table : Table)
    (action : Store → α × Store) : Except StoreError α × FaultyStore :=
  match StoreFault.check call table s.faults with
  | (.error e, faults) => (.error e, { s with faults })
  | (.ok (), faults) =>
    let (answer, store) := action s.store
    (.ok answer, { store, faults })

def get (s : FaultyStore) (table : Table) (key : Bytes) :
    Except StoreError (Option Bytes) × FaultyStore :=
  s.attempt .get table fun store => (store.get table key, store)

def contains (s : FaultyStore) (table : Table) (key : Bytes) :
    Except StoreError Bool × FaultyStore :=
  s.attempt .get table fun store => (store.contains table key, store)

def put (s : FaultyStore) (table : Table) (key value : Bytes) :
    Except StoreError Unit × FaultyStore :=
  s.attempt .put table fun store => ((), store.put table key value)

def delete (s : FaultyStore) (table : Table) (key : Bytes) :
    Except StoreError Unit × FaultyStore :=
  s.attempt .delete table fun store => ((), store.delete table key)

end FaultyStore

end ObjectMeta
