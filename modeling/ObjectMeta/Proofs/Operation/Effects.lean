import ObjectMeta.Proofs.Operation.Discipline
import ObjectMeta.Proofs.Store.Contents

/-!
# What actions do to the world

The answer to an action says what the action did to the tables (`perform_store`) and, for a read,
what the tables hold (`perform_stands`).  In surroundings that stay the same, a settled program ends
in the same result from every world, and leaves behind exactly the open key that it owes
(`Settled.result`, `Settled.contents`).
-/

namespace ObjectMeta

def Access.applied (store : Store) : Access → Store
  | ⟨.put table key value, .ok _⟩ => store.put table key value
  | ⟨.delete table key, .ok _⟩ => store.delete table key
  | _ => store

variable {S : SignatureScheme} {A : AllocationService} {τ α : Type} [DecidableEq τ]

namespace World

variable (w : World S A τ) (t : τ)

/-! ## 1. Single actions -/

/-- A read answers what the tables hold, and the tables change as the answer says. -/
theorem perform_spec (action : Action) :
    (Access.mk action (w.perform t action).1).Stands w.store.store ∧
      (w.perform t action).2.store.store =
        (Access.mk action (w.perform t action).1).applied w.store.store := by
  cases action with
  | get table key =>
    obtain ⟨faults, h⟩ | ⟨e, faults, h⟩ :=
      w.store.attempt_cases .get table fun store => (store.get table key, store)
    · simp only [perform, FaultyStore.get, h, Access.Stands, Access.applied, and_self]
    · simp only [perform, FaultyStore.get, h, Access.Stands, Access.applied, and_self]
  | contains table key =>
    obtain ⟨faults, h⟩ | ⟨e, faults, h⟩ :=
      w.store.attempt_cases .get table fun store => (store.contains table key, store)
    · simp only [perform, FaultyStore.contains, h, Access.Stands, Access.applied, and_self]
    · simp only [perform, FaultyStore.contains, h, Access.Stands, Access.applied, and_self]
  | put table key value =>
    obtain ⟨faults, h⟩ | ⟨e, faults, h⟩ :=
      w.store.attempt_cases .put table fun store => ((), store.put table key value)
    · simp only [perform, FaultyStore.put, h, Access.Stands, Access.applied, and_self]
    · simp only [perform, FaultyStore.put, h, Access.Stands, Access.applied, and_self]
  | delete table key =>
    obtain ⟨faults, h⟩ | ⟨e, faults, h⟩ :=
      w.store.attempt_cases .delete table fun store => ((), store.delete table key)
    · simp only [perform, FaultyStore.delete, h, Access.Stands, Access.applied, and_self]
    · simp only [perform, FaultyStore.delete, h, Access.Stands, Access.applied, and_self]
  | _ => exact ⟨trivial, rfl⟩

theorem perform_stands (action : Action) :
    (Access.mk action (w.perform t action).1).Stands w.store.store :=
  (w.perform_spec t action).1

theorem perform_store (action : Action) : (w.perform t action).2.store.store =
    (Access.mk action (w.perform t action).1).applied w.store.store :=
  (w.perform_spec t action).2

variable {w t}

/-- The lock table stays right about the guards in hand if a lock is taken when the table grants it
and given back by a thread that has it. -/
theorem perform_tracks {held : τ → List LockGuard} {action : Action} (h : w.locks.Tracks held)
    (hready : w.isReady t action = true)
    (hrelease : ∀ path mode, action = .release path mode → ⟨path, mode⟩ ∈ held t) :
    (w.perform t action).2.locks.Tracks (Function.update held t
      (Access.heldAfter (held t) ⟨action, (w.perform t action).1⟩)) := by
  cases action with
  | acquire path mode => exact h.grant hready
  | release path mode => exact h.release (hrelease path mode rfl)
  | _ =>
    show w.locks.Tracks (Function.update held t (held t))
    rwa [Function.update_eq_self]

end World

/-- Every open record is filed under the names it carries. -/
def Store.WellFiled (store : Store) : Prop :=
  ∀ table key value, store.get table key = some value → Filed table key value

def Action.isHarmless : Action → Bool
  | release .. | put .. | delete .. => false
  | _ => true

/-- Nothing was written and no lock given back. -/
def Trace.Intact (trace : Trace) : Prop := ∀ access ∈ trace, access.action.isHarmless = true

/-! ## 2. Accesses and the tables -/

theorem Access.applied_of_harmless {access : Access} (h : access.action.isHarmless = true)
    (store : Store) : access.applied store = store := by
  obtain ⟨action, answer⟩ := access
  cases action with
  | put | delete => cases h
  | _ => rfl

theorem Access.heldAfter_of_harmless {access : Access} (h : access.action.isHarmless = true)
    {held : List LockGuard} {g : LockGuard} (hg : g ∈ held) : g ∈ access.heldAfter held := by
  obtain ⟨action, answer⟩ := access
  cases action with
  | release => cases h
  | acquire path mode => exact List.mem_cons_of_mem _ hg
  | _ => exact hg

def Access.Spares (table : Table) (key : Bytes) (access : Access) : Prop :=
  ∀ store : Store, (access.applied store).get table key = store.get table key

theorem Access.spares_of {access : Access} {table : Table} {key : Bytes}
    (hput : ∀ value, access.put? ≠ some (table, key, value))
    (hdelete : access.action ≠ .delete table key) : access.Spares table key := by
  intro store
  obtain ⟨action, answer⟩ := access
  cases action with
  | put table' key' value =>
    cases answer with
    | error e => rfl
    | ok u =>
      rw [applied, Store.get_put, if_neg]
      rintro ⟨rfl, rfl⟩
      exact hput value rfl
  | delete table' key' =>
    cases answer with
    | error e => rfl
    | ok u =>
      rw [applied, Store.get_delete, if_neg]
      rintro ⟨rfl, rfl⟩
      exact hdelete rfl
  | _ => rfl

/-- Locks taken in an intact stretch are still in hand at its end. -/
theorem Trace.Intact.held_mono {trace' : Trace} (h : Intact trace') (trace : Trace) :
    ∀ g ∈ held trace, g ∈ held (trace ++ trace') := by
  induction trace' generalizing trace with
  | nil =>
    intro g hg
    rwa [List.append_nil]
  | cons access rest ih =>
    intro g hg
    have hg' : g ∈ held (trace ++ [access]) := by
      rw [held_append]
      exact Access.heldAfter_of_harmless (h access (List.mem_cons_self ..)) hg
    have hrest := ih (fun a ha => h a (List.mem_cons_of_mem _ ha)) (trace ++ [access]) g hg'
    rwa [List.append_assoc] at hrest

theorem Access.credible_of_stands {access : Access} {store : Store} (hs : access.Stands store)
    (hf : store.WellFiled) : access.Credible := by
  obtain ⟨action, answer⟩ := access
  cases action with
  | get table key =>
    obtain e | (_ | value) := answer
    · trivial
    · trivial
    · exact hf table key value hs
  | _ => trivial

theorem Store.WellFiled.put {store : Store} (hf : store.WellFiled) {table : Table}
    {key value : Bytes} (h : Filed table key value) : (store.put table key value).WellFiled := by
  intro table' key' value' hget
  rw [Store.get_put] at hget
  by_cases hsame : table = table' ∧ key = key'
  · obtain ⟨rfl, rfl⟩ := hsame
    rw [if_pos ⟨rfl, rfl⟩, Option.some.injEq] at hget
    exact hget ▸ h
  · rw [if_neg hsame] at hget
    exact hf table' key' value' hget

theorem Store.WellFiled.delete {store : Store} (hf : store.WellFiled) (table : Table)
    (key : Bytes) : (store.delete table key).WellFiled := by
  intro table' key' value' hget
  rw [Store.get_delete] at hget
  split at hget
  · cases hget
  · exact hf table' key' value' hget

theorem Access.applied_wellFiled {access : Access} {store : Store} (hf : store.WellFiled)
    (hfiles : access.action.Files) : (access.applied store).WellFiled := by
  obtain ⟨action, answer⟩ := access
  cases action with
  | put table key value =>
    cases answer with
    | error e => exact hf
    | ok u => exact hf.put hfiles
  | delete table key =>
    cases answer with
    | error e => exact hf
    | ok u => exact hf.delete table key
  | _ => exact hf

/-- What persists under some locks still stands after an access of a thread whose locks are
compatible. -/
theorem Access.Stands.applied {read access : Access} {store : Store} {held held' : List LockGuard}
    (hs : read.Stands store) (hp : read.Persists held) (hfair : access.action.Fair held')
    (hapart : ∀ table key, Covers held' .write table key → ¬Covers held .read table key) :
    read.Stands (access.applied store) := by
  obtain ⟨action, answer⟩ := access
  cases action with
  | put table key value =>
    cases answer with
    | error e => exact hs
    | ok u =>
      obtain ⟨action, answer⟩ := read
      cases action with
      | get table' key' =>
        cases answer with
        | error e => trivial
        | ok found =>
          show (store.put table key value).get table' key' = found
          rw [Store.get_put, if_neg]
          · exact hs
          · -- the entry that was written is not one that was read
            rintro ⟨rfl, rfl⟩
            obtain hkeys | hcover := hp
            · exact hfair.1.table_ne_keys hkeys
            · exact hapart _ _ hfair.1 hcover
      | contains table' key' =>
        cases answer with
        | error e => trivial
        | ok found =>
          have hbefore : (store.get table' key').isSome = found := hs
          show ((store.put table key value).get table' key').isSome = found
          rw [Store.get_put]
          -- a volume that was found is found again after any write
          by_cases hsame : table = table' ∧ key = key'
          · obtain ⟨rfl, rfl⟩ := hsame
            rw [if_pos ⟨rfl, rfl⟩]
            obtain ⟨-, hfound⟩ | hcover := hp
            · exact hfound.symm
            · exact absurd hcover (hapart _ _ hfair.1)
          · rw [if_neg hsame]
            exact hbefore
      | _ => trivial
  | delete table key => exact hfair.elim
  | _ => exact hs

/-! ## 3. Surroundings that stay the same -/

/-- What surrounds the operations and may change between their actions. -/
structure Surroundings (S : SignatureScheme) (A : AllocationService) where
  faults : List StoreFault
  allocator : A.State
  clock : Int64
  ownTokenClock : Option Int64
  authority : Option (TokenAuthority S)

def World.within (w : World S A τ)
    (around : Surroundings S A) : World S A τ :=
  { w with
    store := { w.store with faults := around.faults }
    allocator := around.allocator
    clock := around.clock
    ownTokenClock := around.ownTokenClock
    authority := around.authority }

def World.surroundings (w : World S A τ) : Surroundings S A where
  faults := w.store.faults
  allocator := w.allocator
  clock := w.clock
  ownTokenClock := w.ownTokenClock
  authority := w.authority

namespace World

/-- The store does not fail, and clocks and authority are those of the world `w₀`. -/
structure Steady (w w₀ : World S A τ) : Prop where
  faults : w.store.faults = []
  clock : w.clock = w₀.clock
  ownTokenClock : w.ownTokenClock = w₀.ownTokenClock
  authority : w.authority = w₀.authority

variable {w w' w₀ : World S A τ}

omit [DecidableEq τ] in
theorem Steady.mint_eq (h : w.Steady w₀) (owner : String) (block : BlockId) (maxLength : Int64) :
    w.mint owner block maxLength = w₀.mint owner block maxLength := by
  rw [World.mint, World.mint, tokenClock, tokenClock, h.clock, h.ownTokenClock, h.authority]

omit [DecidableEq τ] in
theorem withStore_self (w : World S A τ) (h : w.store.faults = []) :
    { w with store := { store := w.store.store, faults := [] } } = w := by
  rw [← h]

theorem perform_get (h : w.store.faults = []) (t : τ) (table : Table) (key : Bytes) :
    w.perform t (.get table key) = (.ok (w.store.store.get table key), w) := by
  simp only [World.perform, FaultyStore.get, FaultyStore.attempt_of_faultless h, withStore_self w h]

theorem perform_contains (h : w.store.faults = []) (t : τ) (table : Table) (key : Bytes) :
    w.perform t (.contains table key) = (.ok (w.store.store.contains table key), w) := by
  simp only [World.perform, FaultyStore.contains, FaultyStore.attempt_of_faultless h,
    withStore_self w h]

theorem perform_put (h : w.store.faults = []) (t : τ) (table : Table) (key value : Bytes) :
    w.perform t (.put table key value) =
      (.ok (), { w with
        store := { store := w.store.store.put table key value, faults := [] } }) := by
  simp only [World.perform, FaultyStore.put, FaultyStore.attempt_of_faultless h]

theorem perform_delete (h : w.store.faults = []) (t : τ) (table : Table) (key : Bytes) :
    w.perform t (.delete table key) =
      (.ok (), { w with store := { store := w.store.store.delete table key, faults := [] } }) := by
  simp only [World.perform, FaultyStore.delete, FaultyStore.attempt_of_faultless h]

theorem Steady.perform (h : w.Steady w₀) (t : τ) (action : Action) :
    (w.perform t action).2.Steady w₀ := by
  cases action with
  | get table key => rwa [perform_get h.faults]
  | contains table key => rwa [perform_contains h.faults]
  | put table key value =>
    rw [perform_put h.faults]
    exact ⟨rfl, h.clock, h.ownTokenClock, h.authority⟩
  | delete table key =>
    rw [perform_delete h.faults]
    exact ⟨rfl, h.clock, h.ownTokenClock, h.authority⟩
  | _ => exact ⟨h.faults, h.clock, h.ownTokenClock, h.authority⟩

end World

/-! ## 4. Settled programs -/

/-- The tables after an open key was written, if one is still to be written. -/
def overlay (owed : Option (Bytes × Bytes)) (contents : Table → Bytes → Option Bytes)
    (table : Table) (key : Bytes) : Option Bytes :=
  match owed with
  | none => contents table key
  | some (key', value) => if .openKeys = table ∧ key' = key then some value else contents table key

theorem overlay_none (contents : Table → Bytes → Option Bytes) :
    overlay none contents = contents := rfl

theorem overlay_some (key' value : Bytes) (contents : Table → Bytes → Option Bytes)
    (table : Table) (key : Bytes) : overlay (some (key', value)) contents table key =
      if .openKeys = table ∧ key' = key then some value else contents table key := rfl

namespace Program

open World

variable {w w' w₀ : World S A τ} {p : Program α} {mayPut : Bool}

theorem runAlone_steady (t : τ) (h : w.Steady w₀) (p : Program α) :
    (p.runAlone t w).2.Steady w₀ := by
  induction p generalizing w with
  | done value => exact h
  | step action next ih => exact ih _ (h.perform t action)

def owes (w₀ : World S A τ) : Program α → Option (Bytes × Bytes)
  | step (.put _ key value) _ => some (key, value)
  | step (.release ..) next => (next ()).owes w₀
  | step .now next => (next w₀.clock).owes w₀
  | step (.mint owner block maxLength) next => (next (w₀.mint owner block maxLength)).owes w₀
  | _ => none

omit [DecidableEq τ] in
theorem Settled.owes_eq_none (h : p.Settled false) : p.owes w₀ = none := by
  induction p with
  | done value => rfl
  | step action next ih =>
    cases action with
    | release path mode => exact ih () h
    | now => exact ih _ (h _)
    | mint owner block maxLength => exact ih _ (h _)
    | put table key value => exact absurd h.1 (by decide)
    | _ => exact h.elim

/-- A settled program ends alike in all worlds with the same surroundings. -/
theorem Settled.result (h : p.Settled mayPut) (hw : w.Steady w₀) (hw' : w'.Steady w₀) (t t' : τ) :
    (p.runAlone t w).1 = (p.runAlone t' w').1 := by
  induction p generalizing w w' mayPut with
  | done value => rfl
  | step action next ih =>
    have hnext := hw.perform t action
    have hnext' := hw'.perform t' action
    cases action with
    | release path mode => exact ih () h hnext hnext'
    | now =>
      show ((next w.clock).runAlone t _).1 = ((next w'.clock).runAlone t' _).1
      rw [hw.clock, hw'.clock]
      exact ih _ (h _) hnext hnext'
    | mint owner block maxLength =>
      show ((next (w.mint ..)).runAlone t _).1 = ((next (w'.mint ..)).runAlone t' _).1
      rw [hw.mint_eq, hw'.mint_eq]
      exact ih _ (h _) hnext hnext'
    | put table key value =>
      rw [runAlone, runAlone, perform_put hw.faults, perform_put hw'.faults]
      rw [perform_put hw.faults] at hnext
      rw [perform_put hw'.faults] at hnext'
      exact ih _ (h.2.2 _) hnext hnext'
    | _ => exact h.elim

theorem Settled.allocator (h : p.Settled mayPut) (w : World S A τ) (t : τ) :
    (p.runAlone t w).2.allocator = w.allocator := by
  induction p generalizing w mayPut with
  | done value => rfl
  | step action next ih =>
    cases action with
    | release path mode => exact ih () h _
    | now => exact ih _ (h _) _
    | mint owner block maxLength => exact ih _ (h _) _
    | put table key value => exact ih _ (h.2.2 _) _
    | _ => exact h.elim

/-- A settled program changes the tables by what it owes. -/
theorem Settled.contents (h : p.Settled mayPut) (hw : w.Steady w₀) (t : τ) :
    (p.runAlone t w).2.store.store.get = overlay (p.owes w₀) w.store.store.get := by
  induction p generalizing w mayPut with
  | done value => rfl
  | step action next ih =>
    have hnext := hw.perform t action
    cases action with
    | release path mode => exact ih () h hnext
    | now =>
      show ((next w.clock).runAlone t _).2.store.store.get = _
      rw [hw.clock]
      exact ih _ (h _) hnext
    | mint owner block maxLength =>
      show ((next (w.mint ..)).runAlone t _).2.store.store.get = _
      rw [hw.mint_eq]
      exact ih _ (h _) hnext
    | put table key value =>
      -- this is the open key that is owed, and after it nothing is
      obtain ⟨-, rfl, hrest⟩ := h
      rw [perform_put hw.faults] at hnext
      rw [runAlone, perform_put hw.faults, ih _ (hrest _) hnext, (hrest _).owes_eq_none]
      funext table' key'
      exact Store.get_put ..
    | _ => exact h.elim

/-- After its next action a settled program is settled, and what it comes to is the same. -/
theorem Settled.perform {action : Action} {next : action.Answer → Program α}
    (h : (step action next).Settled mayPut) (hw : w.Steady w₀) (t : τ) :
    (∃ mayPut', (next (w.perform t action).1).Settled mayPut') ∧
      (w.perform t action).2.allocator = w.allocator ∧
      (∀ owed ∈ (next (w.perform t action).1).owes w₀, owed ∈ (step action next).owes w₀) ∧
      overlay ((step action next).owes w₀) w.store.store.get =
        overlay ((next (w.perform t action).1).owes w₀)
          (w.perform t action).2.store.store.get := by
  cases action with
  | release path mode => exact ⟨⟨_, h⟩, rfl, fun _ ho => ho, rfl⟩
  | now =>
    refine ⟨⟨_, h _⟩, rfl, ?_⟩
    -- what is owed was told from the clock of `w₀`, which is the one that answers
    rw [owes, ← hw.clock]
    exact ⟨fun _ ho => ho, rfl⟩
  | mint owner block maxLength =>
    refine ⟨⟨_, h _⟩, rfl, ?_⟩
    rw [owes, ← hw.mint_eq]
    exact ⟨fun _ ho => ho, rfl⟩
  | put table key value =>
    obtain ⟨-, rfl, hrest⟩ := h
    rw [perform_put hw.faults, (hrest _).owes_eq_none]
    refine ⟨⟨_, hrest _⟩, rfl, fun _ ho => absurd ho (Option.not_mem_none _), ?_⟩
    funext table' key'
    exact (Store.get_put ..).symm
  | _ => exact h.elim

end Program

end ObjectMeta
