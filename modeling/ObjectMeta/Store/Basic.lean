import ObjectMeta.Store.Durable
import ObjectMeta.Store.Memory

/-!
# Metadata stores

A store is four byte-keyed tables, in memory or durable.  Both answer alike; only the one in memory
counts its entries.
-/

namespace ObjectMeta

/-- The metadata tables, in either kind of store. -/
inductive Store where
  | memory (store : MemoryStore)
  | durable (store : DurableStore)

namespace Store

def get : Store → Table → Bytes → Option Bytes
  | memory store => store.get
  | durable store => store.get

def contains (store : Store) (table : Table) (key : Bytes) : Bool := (store.get table key).isSome

def put (store : Store) (table : Table) (key value : Bytes) : Store :=
  match store with
  | memory store => memory (store.put table key value)
  | durable store => durable (store.put table key value)

def delete (store : Store) (table : Table) (key : Bytes) : Store :=
  match store with
  | memory store => memory (store.delete table key)
  | durable store => durable (store.delete table key)

/-- The entries of a table, by ascending key. -/
def toList : Store → Table → List (Bytes × Bytes)
  | memory store => store.toList
  | durable store => store.toList

/-- The number of entries of a table, where the store knows it. -/
def size? : Store → Table → Option Nat
  | memory store, table => some (store.size table)
  | durable _, _ => none

def journal : Store → List Transaction
  | memory _ => []
  | durable store => store.journal

def reopen : Store → Store
  | memory store => memory store
  | durable store => durable store.reopen

end Store

end ObjectMeta
