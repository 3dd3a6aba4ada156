import ObjectMeta.Store.Fault

/-!
# What stores contain

A store, of either kind, answers with the last value that was put under a key.  A call that a fault
speaks to changes nothing but the faults.
-/

namespace ObjectMeta

/-! ## 1. Both kinds of stores -/

theorem Table.rank_inj {table table' : Table} : table.rank = table'.rank ↔ table = table' := by
  cases table <;> cases table' <;> decide

theorem entryOrder_eq_iff {e e' : Table × Bytes} : entryOrder e e' = .eq ↔ e = e' := by
  rw [entryOrder, compareLex_eq_eq, compareOn, compareOn, Std.compare_eq_iff_eq,
    Std.compare_eq_iff_eq, Table.rank_inj, Prod.ext_iff]

theorem Tables.map_modify (tables : Tables) (table table' : Table) (f : ByteMap → ByteMap) :
    (tables.modify table f).map table' =
      if table = table' then f (tables.map table') else tables.map table' := by
  cases table <;> cases table' <;> rfl

namespace Store

theorem get_put (store : Store) (table table' : Table) (key key' value : Bytes) :
    (store.put table key value).get table' key' =
      if table = table' ∧ key = key' then some value else store.get table' key' := by
  cases store with
  | memory store =>
    show (store.entries.insert (table, key) value)[(table', key')]? = _
    simp only [Std.ExtTreeMap.getElem?_insert, entryOrder_eq_iff, Prod.mk.injEq]
    rfl
  | durable store =>
    show ((store.tables.modify table (·.insert key value)).map table')[key']? = _
    rw [Tables.map_modify]
    -- each table has a map of its own
    by_cases ht : table = table'
    · simp only [ht, if_true, true_and, Std.ExtTreeMap.getElem?_insert, Std.compare_eq_iff_eq]
      rfl
    · simp only [ht, if_false, false_and]
      rfl

theorem get_delete (store : Store) (table table' : Table) (key key' : Bytes) :
    (store.delete table key).get table' key' =
      if table = table' ∧ key = key' then none else store.get table' key' := by
  cases store with
  | memory store =>
    show (store.entries.erase (table, key))[(table', key')]? = _
    simp only [Std.ExtTreeMap.getElem?_erase, entryOrder_eq_iff, Prod.mk.injEq]
    rfl
  | durable store =>
    show ((store.tables.modify table (·.erase key)).map table')[key']? = _
    rw [Tables.map_modify]
    by_cases ht : table = table'
    · simp only [ht, if_true, true_and, Std.ExtTreeMap.getElem?_erase, Std.compare_eq_iff_eq]
      rfl
    · simp only [ht, if_false, false_and]
      rfl

theorem get_empty (table : Table) (key : Bytes) : (memory {}).get table key = none :=
  Std.ExtTreeMap.getElem?_empty

end Store

/-! ## 2. Calls and faults -/

namespace StoreFault

variable {call : StoreCall} {table : Table} {faults : List StoreFault}

/-- A call that no fault is for goes through. -/
theorem check_eq_ok (h : ∀ fault ∈ faults, fault.call = call → fault.table ≠ table) :
    (check call table faults).1 = .ok () := by
  induction faults with
  | nil => rfl
  | cons fault rest ih =>
    rw [List.forall_mem_cons] at h
    rw [check, if_neg fun hfor => h.1 hfor.1 hfor.2]
    exact ih h.2

/-- The faults that are left are for calls that faults were for. -/
theorem exists_of_mem_check {fault : StoreFault} (h : fault ∈ (check call table faults).2) :
    ∃ fault' ∈ faults, fault'.call = fault.call ∧ fault'.table = fault.table := by
  induction faults with
  | nil => cases h
  | cons first rest ih =>
    have hrest : fault ∈ (check call table rest).2 →
        ∃ fault' ∈ first :: rest, fault'.call = fault.call ∧ fault'.table = fault.table := by
      intro h
      obtain ⟨fault', hmem, hsame⟩ := ih h
      exact ⟨fault', List.mem_cons_of_mem _ hmem, hsame⟩
    rw [check] at h
    split at h
    · split at h
      · exact ⟨fault, h, rfl, rfl⟩
      · obtain rfl | h := List.mem_cons.1 h
        · exact ⟨first, List.mem_cons_self .., rfl, rfl⟩
        · exact hrest h
    · obtain rfl | h := List.mem_cons.1 h
      · exact ⟨fault, List.mem_cons_self .., rfl, rfl⟩
      · exact hrest h

end StoreFault

namespace FaultyStore

variable {α : Type}

/-- A call is either made or fails without an effect. -/
theorem attempt_cases (s : FaultyStore) (call : StoreCall) (table : Table)
    (action : Store → α × Store) :
    (∃ faults, s.attempt call table action =
      (.ok (action s.store).1, { store := (action s.store).2, faults })) ∨
    ∃ e faults, s.attempt call table action = (.error e, { s with faults }) := by
  rw [attempt]
  split
  · next e faults hcheck => exact .inr ⟨e, faults, rfl⟩
  · next faults hcheck => exact .inl ⟨faults, rfl⟩

/-- Without faults every call is made. -/
theorem attempt_of_faultless {s : FaultyStore} (h : s.faults = []) (call : StoreCall)
    (table : Table) (action : Store → α × Store) :
    s.attempt call table action =
      (.ok (action s.store).1, { store := (action s.store).2, faults := [] }) := by
  rw [attempt, h]
  rfl

theorem attempt_faults (s : FaultyStore) (call : StoreCall) (table : Table)
    (action : Store → α × Store) :
    (s.attempt call table action).2.faults = (StoreFault.check call table s.faults).2 := by
  rw [attempt]
  split
  · next hcheck => rw [hcheck]
  · next hcheck => rw [hcheck]

/-- A call that no fault is for is made. -/
theorem attempt_eq_ok {s : FaultyStore} {call : StoreCall} {table : Table}
    (h : ∀ fault ∈ s.faults, fault.call = call → fault.table ≠ table)
    (action : Store → α × Store) :
    (s.attempt call table action).1 = .ok (action s.store).1 := by
  have hcheck := StoreFault.check_eq_ok h
  rw [attempt]
  split
  · next heq =>
    rw [heq] at hcheck
    cases hcheck
  · rfl

end FaultyStore

end ObjectMeta
