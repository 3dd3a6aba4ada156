import Std.Data.ExtTreeMap
import ObjectMeta.Store.Table

/-!
# A store that outlives its process

Every change is a transaction of its own, appended to a journal before the tables change.  Opening a
journal plays it back, so a store that is closed and opened again answers as before (`reopen_eq`).
-/

namespace ObjectMeta

abbrev ByteMap := Std.ExtTreeMap Bytes Bytes

structure Tables where
  volumes : ByteMap := ∅
  buckets : ByteMap := ∅
  openKeys : ByteMap := ∅
  keys : ByteMap := ∅

namespace Tables

def map (tables : Tables) : Table → ByteMap
  | .volumes => tables.volumes
  | .buckets => tables.buckets
  | .openKeys => tables.openKeys
  | .keys => tables.keys

def modify (tables : Tables) (table : Table) (f : ByteMap → ByteMap) : Tables :=
  match table with
  | .volumes => { tables with volumes := f tables.volumes }
  | .buckets => { tables with buckets := f tables.buckets }
  | .openKeys => { tables with openKeys := f tables.openKeys }
  | .keys => { tables with keys := f tables.keys }

end Tables

inductive Transaction where
  | put (table : Table) (key value : Bytes)
  | delete (table : Table) (key : Bytes)
  deriving DecidableEq, Repr

def Tables.apply (tables : Tables) : Transaction → Tables
  | .put table key value => tables.modify table (·.insert key value)
  | .delete table key => tables.modify table (·.erase key)

def Tables.ofJournal (journal : List Transaction) : Tables := journal.foldl Tables.apply {}

/-- A journal and the tables it leads to. -/
structure DurableStore where
  journal : List Transaction := []
  tables : Tables := {}
  tables_eq : tables = Tables.ofJournal journal := by rfl

namespace DurableStore

def ofJournal (journal : List Transaction) : DurableStore where
  journal := journal
  tables := Tables.ofJournal journal

/-- Appends a change to the journal and makes it. -/
def commit (store : DurableStore) (t : Transaction) : DurableStore where
  journal := store.journal ++ [t]
  tables := store.tables.apply t
  tables_eq := by simp [Tables.ofJournal, store.tables_eq]

def get (store : DurableStore) (table : Table) (key : Bytes) : Option Bytes :=
  (store.tables.map table)[key]?

def put (store : DurableStore) (table : Table) (key value : Bytes) : DurableStore :=
  store.commit (.put table key value)

def delete (store : DurableStore) (table : Table) (key : Bytes) : DurableStore :=
  store.commit (.delete table key)

def toList (store : DurableStore) (table : Table) : List (Bytes × Bytes) :=
  (store.tables.map table).toList

def reopen (store : DurableStore) : DurableStore := ofJournal store.journal

theorem reopen_eq (store : DurableStore) : store.reopen = store := by
  obtain ⟨journal, tables, rfl⟩ := store
  rfl

end DurableStore

end ObjectMeta
