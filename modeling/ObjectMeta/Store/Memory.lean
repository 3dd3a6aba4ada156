import Std.Data.ExtTreeMap
import ObjectMeta.Store.Table

/-!
# A store in memory

One map from table and key to value holds all four tables; its contents are lost with it.
-/

namespace ObjectMeta

def entryOrder : Table × Bytes → Table × Bytes → Ordering :=
  compareLex (compareOn fun e => e.1.rank) (compareOn fun e => e.2)

/-- The four tables as one map. -/
structure MemoryStore where
  entries : Std.ExtTreeMap (Table × Bytes) Bytes entryOrder := ∅

namespace MemoryStore

instance : Std.TransCmp entryOrder :=
  inferInstanceAs (Std.TransCmp (compareLex (compareOn fun e : Table × Bytes => e.1.rank)
    (compareOn fun e : Table × Bytes => e.2)))

def get (store : MemoryStore) (table : Table) (key : Bytes) : Option Bytes :=
  store.entries[(table, key)]?

def put (store : MemoryStore) (table : Table) (key value : Bytes) : MemoryStore :=
  ⟨store.entries.insert (table, key) value⟩

def delete (store : MemoryStore) (table : Table) (key : Bytes) : MemoryStore :=
  ⟨store.entries.erase (table, key)⟩

def toList (store : MemoryStore) (table : Table) : List (Bytes × Bytes) :=
  store.entries.toList.filterMap fun e => if e.1.1 = table then some (e.1.2, e.2) else none

def size (store : MemoryStore) (table : Table) : Nat :=
  (store.entries.keys.filter fun e => decide (e.1 = table)).length

end MemoryStore

end ObjectMeta
