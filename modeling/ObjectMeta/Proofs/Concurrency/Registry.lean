import ObjectMeta.Proofs.Concurrency.Exclusion
import ObjectMeta.Proofs.Concurrency.HandedOut
import ObjectMeta.Proofs.Operation.Creation

/-!
# Volumes and buckets are created once and stay

Threads may create the same volume or bucket at the same time, but only one of them succeeds: what a
call has found free stays free while it has the lock (`System.Registered`), and what was written
stays.  From then on the entry is what that call returned, every later attempt is told that it is
there already, and a check that has found a bucket goes on finding it
(`System.run_createdForGood`).  Other calls may run along, the clocks and all other surroundings may
change, and the store may fail at any point.
-/

namespace ObjectMeta

open Operation Program

variable {service : KeyService} {S : SignatureScheme} {A : AllocationService} {τ : Type}
  [DecidableEq τ]

/-! ## 1. What calls rely on -/

def Move.Unfailing : Move S A τ → Prop
  | disturb around => around.faults = []
  | _ => True

def Event.put? (e : Event τ) : Option (Table × Bytes × Bytes) := e.access?.bind Access.put?

/-- Who has found that nothing is there yet has the lock still, as long as it has not written. -/
theorem Activity.mem_held_of_free {a : Activity service} {c : Creation}
    (hcreates : a.call.creates? = some c) (hintact : a.trace.Intact)
    (hfree : ⟨.contains c.table c.key, .ok false⟩ ∈ a.trace) : ⟨c.path, .write⟩ ∈ a.trace.held := by
  obtain ⟨before, after, htrace⟩ := List.append_of_mem hfree
  have hleads := a.leads
  rw [htrace] at hleads hintact
  have hkeeps := (Call.keepsTo service a.call).fair_at hleads fun _ _ => trivial
  -- it had all its locks when it looked, and has given none back
  have hheld : Trace.held before = a.call.lockStack := hkeeps.1
  have hmono := Trace.Intact.held_mono
    (fun access ha => hintact access (List.mem_append_right _ ha)) before
  rw [htrace]
  apply hmono
  rw [hheld]
  exact Call.mem_lockStack_of_creates hcreates

namespace System

variable {s s' : System service S A τ}

/-- The tables of volumes and buckets are what the calls have made of them, and what calls on their
way have found is still so. -/
structure Registered (s : System service S A τ) : Prop where
  kept : ∀ e ∈ s.history, ∀ table key value, e.put? = some (table, key, value) →
    table.isRegistry = true → s.world.store.store.get table key = some value
  once : ∀ e ∈ s.history, ∀ e' ∈ s.history, ∀ table key value value',
    e.put? = some (table, key, value) → e'.put? = some (table, key, value') →
    table.isRegistry = true → e.index = e'.index
  seen : ∀ e ∈ s.history, ∀ table key, e.access? = some ⟨.contains table key, .ok true⟩ →
    table.isRegistry = true → s.world.store.store.contains table key = true
  free : ∀ t a c, s.running t = some a → a.call.creates? = some c → a.trace.Intact →
    ⟨.contains c.table c.key, .ok false⟩ ∈ a.trace →
    s.world.store.store.contains c.table c.key = false
  placed : ∀ key, s.world.store.store.contains .buckets key = true →
    ∃ v b, ValidName v ∧ ValidName b ∧ key = (Creation.bucket v b).key ∧
      s.world.store.store.contains .volumes (Creation.volume v).key = true

omit [DecidableEq τ] in
theorem registered_empty {w : World S A τ}
    (hempty : ∀ table key, table.isRegistry = true → w.store.store.get table key = none) :
    ({ world := w } : System service S A τ).Registered where
  kept _ he := absurd he List.not_mem_nil
  once _ he := absurd he List.not_mem_nil
  seen _ he := absurd he List.not_mem_nil
  free _ _ _ hrun := nomatch hrun
  placed key hcontains := by
    have hnone := hempty .buckets key rfl
    unfold Store.contains at hcontains
    rw [hnone] at hcontains
    cases hcontains

/-! ## 2. One action -/

section Acting

variable {t : τ} {a : Activity service} {action : Action}

omit [DecidableEq τ]

/-- An action changes no entry of volumes or buckets that is there. -/
theorem Registered.get_applied (h : s.Registered) (hrun : s.running t = some a)
    (hregisters : action.Registers a.call a.trace) (answer : action.Answer) {table : Table}
    {key value : Bytes} (htable : table.isRegistry = true)
    (hget : s.world.store.store.get table key = some value) :
    (Access.applied s.world.store.store ⟨action, answer⟩).get table key = some value := by
  have hspares : Access.Spares table key ⟨action, answer⟩ := by
    refine hregisters.spares answer htable ?_
    rintro c hcreates hcleared hintact rfl rfl
    -- the entry was found free
    have hfree := h.free t a c hrun hcreates hintact hcleared.free
    unfold Store.contains at hfree
    rw [hget] at hfree
    cases hfree
  rw [hspares, hget]

theorem Registered.contains_applied (h : s.Registered) (hrun : s.running t = some a)
    (hregisters : action.Registers a.call a.trace) (answer : action.Answer) {table : Table}
    {key : Bytes} (htable : table.isRegistry = true)
    (hcontains : s.world.store.store.contains table key = true) :
    (Access.applied s.world.store.store ⟨action, answer⟩).contains table key = true := by
  obtain ⟨value, hget⟩ := Option.isSome_iff_exists.1 hcontains
  unfold Store.contains
  rw [h.get_applied hrun hregisters answer htable hget]
  rfl

/-- What another thread has found free, and has the lock of, stays free. -/
theorem Registered.free_applied [DecidableEq τ] (h : s.Registered) (hl : s.LocksKept)
    (hrun : s.running t = some a) (hregisters : action.Registers a.call a.trace)
    (answer : action.Answer) {t' : τ} {a' : Activity service} (ht : t' ≠ t)
    (hrun' : s.running t' = some a') {c : Creation} (hcreates : a'.call.creates? = some c)
    (hintact : a'.trace.Intact) (hfree : ⟨.contains c.table c.key, .ok false⟩ ∈ a'.trace) :
    (Access.applied s.world.store.store ⟨action, answer⟩).contains c.table c.key = false := by
  have hspares : Access.Spares c.table c.key ⟨action, answer⟩ := by
    refine hregisters.spares answer c.isRegistry_table ?_
    intro c₁ hcreates₁ hcleared hintact₁ _ hkey
    -- both threads would have the lock of the entry
    have hheld : ⟨c₁.path, .write⟩ ∈ s.held t := by
      rw [held_of_running hrun]
      exact Activity.mem_held_of_free hcreates₁ hintact₁ hcleared.free
    have hheld' : ⟨c.path, .write⟩ ∈ s.held t' := by
      rw [held_of_running hrun']
      exact Activity.mem_held_of_free hcreates hintact hfree
    rw [ResourcePath.tableKey_inj.1 hkey] at hheld'
    exact hl.tracked.compatible (Ne.symm ht) hheld hheld'
  unfold Store.contains
  rw [hspares]
  exact h.free t' a' c hrun' hcreates hintact hfree

/-- What is written to the tables of volumes and buckets was not there before. -/
theorem Registered.get_eq_none (h : s.Registered) (hrun : s.running t = some a)
    (hregisters : action.Registers a.call a.trace) {answer : action.Answer} {table : Table}
    {key value : Bytes} (hput : Access.put? ⟨action, answer⟩ = some (table, key, value))
    (htable : table.isRegistry = true) : s.world.store.store.get table key = none := by
  have haction : action = _ := Access.action_of_put? hput
  subst haction
  obtain ⟨c, hcreates, -, rfl, rfl, hcleared, hintact⟩ := hregisters htable
  have hfree := h.free t a c hrun hcreates hintact hcleared.free
  unfold Store.contains at hfree
  exact Option.isSome_eq_false_iff.1 hfree |> Option.isNone_iff_eq_none.1

/-- What a call that goes on relies on is still so. -/
theorem Registered.free_answered (h : s.Registered) (hrun : s.running t = some a)
    {answer : action.Answer} (hstands : Access.Stands s.world.store.store ⟨action, answer⟩)
    {c : Creation} (hcreates : a.call.creates? = some c)
    (hintact : Trace.Intact (a.trace ++ [⟨action, answer⟩]))
    (hfree : ⟨.contains c.table c.key, .ok false⟩ ∈ a.trace ++ [⟨action, answer⟩]) :
    (Access.applied s.world.store.store ⟨action, answer⟩).contains c.table c.key = false := by
  have hharmless : action.isHarmless = true :=
    hintact ⟨action, answer⟩ (List.mem_append_right _ (List.mem_singleton_self _))
  rw [Access.applied_of_harmless hharmless]
  rcases List.mem_append.1 hfree with hbefore | hnow
  · exact h.free t a c hrun hcreates (fun access ha => hintact access (List.mem_append_left _ ha))
      hbefore
  · rw [← List.mem_singleton.1 hnow] at hstands
    exact hstands

/-- The volume of a bucket that is written is there. -/
theorem Registered.placed_applied (h : s.Registered) (hc : s.Consistent)
    (hrun : s.running t = some a) (hregisters : action.Registers a.call a.trace)
    (answer : action.Answer) {key : Bytes}
    (hcontains :
      (Access.applied s.world.store.store ⟨action, answer⟩).contains .buckets key = true) :
    ∃ v b, ValidName v ∧ ValidName b ∧ key = (Creation.bucket v b).key ∧
      (Access.applied s.world.store.store ⟨action, answer⟩).contains .volumes
        (Creation.volume v).key = true := by
  by_cases hput : ∃ value, Access.put? ⟨action, answer⟩ = some (.buckets, key, value)
  · obtain ⟨value, hput⟩ := hput
    have haction : action = _ := Access.action_of_put? hput
    subst haction
    obtain ⟨c, hcreates, hvalid, htable, hkey, hcleared, -⟩ := hregisters rfl
    cases c with
    | volume v => cases htable
    | bucket v b =>
      have hvolume := hcleared.inVolume v b rfl
      rw [← hc.trace t a hrun, History.mem_trace] at hvolume
      obtain ⟨e, he, -, haccess⟩ := hvolume
      exact ⟨v, b, hvalid.1, hvalid.2, hkey,
        h.contains_applied hrun hregisters answer rfl (h.seen e he _ _ haccess rfl)⟩
  · have hspares : Access.Spares .buckets key ⟨action, answer⟩ := by
      refine Access.spares_of (fun value hv => hput ⟨value, hv⟩) fun hdelete => ?_
      have haction : action = _ := hdelete
      subst haction
      cases hregisters
    unfold Store.contains at hcontains
    rw [hspares] at hcontains
    obtain ⟨v, b, hv, hb, hkey, hvolume⟩ := h.placed key hcontains
    exact ⟨v, b, hv, hb, hkey, h.contains_applied hrun hregisters answer rfl hvolume⟩

end Acting

/-! ## 3. Every run -/

variable {t : τ} {a : Activity service}

theorem Registered.act (h : s.Registered) (hl : s.LocksKept) (hc : s.Consistent) {action : Action}
    {next : action.Answer → Program CallResult} (hrun : s.running t = some a)
    (hrest : a.rest = .step action next) : (s.act t a hrest).Registered := by
  have hregisters : action.Registers a.call a.trace := Call.registers (hrest ▸ a.leads)
  have hstands := s.world.perform_stands t action
  have hstore : (s.act t a hrest).world.store.store =
      Access.applied s.world.store.store ⟨action, (s.world.perform t action).1⟩ :=
    s.world.perform_store t action
  constructor
  · intro e he table key value hput htable
    rw [hstore]
    rcases List.mem_append.1 he with hold | hnew
    · exact h.get_applied hrun hregisters _ htable (h.kept e hold table key value hput htable)
    · rw [List.mem_singleton.1 hnew] at hput
      rw [Access.applied_of_put? hput, Store.get_put, if_pos ⟨rfl, rfl⟩]
  · intro e he e' he' table key value value' hput hput' htable
    -- what is written now was not written before
    have hfirst : ∀ e ∈ s.history, ∀ value value', e.put? = some (table, key, value) →
        Access.put? ⟨action, (s.world.perform t action).1⟩ ≠ some (table, key, value') := by
      intro e hold value value' hput hput'
      have hget := h.kept e hold table key value hput htable
      rw [h.get_eq_none hrun hregisters hput' htable] at hget
      cases hget
    rcases List.mem_append.1 he with hold | hnew <;> rcases List.mem_append.1 he' with hold' | hnew'
    · exact h.once e hold e' hold' table key value value' hput hput' htable
    · rw [List.mem_singleton.1 hnew'] at hput'
      exact absurd hput' (hfirst e hold value value' hput)
    · rw [List.mem_singleton.1 hnew] at hput
      exact absurd hput (hfirst e' hold' value' value hput')
    · rw [List.mem_singleton.1 hnew, List.mem_singleton.1 hnew']
  · intro e he table key haccess htable
    rw [hstore]
    apply h.contains_applied hrun hregisters _ htable
    rcases List.mem_append.1 he with hold | hnew
    · exact h.seen e hold table key haccess htable
    · rw [List.mem_singleton.1 hnew] at haccess
      rw [Option.some.inj haccess] at hstands
      exact hstands
  · intro t' a' c hrun' hcreates hintact hfree
    rw [hstore]
    obtain ⟨rfl, ha⟩ | ⟨ht, hrun'⟩ := update_eq_some_iff.1 hrun'
    · cases ha
      exact h.free_answered hrun hstands hcreates hintact hfree
    · exact h.free_applied hl hrun hregisters _ ht hrun' hcreates hintact hfree
  · intro key hcontains
    rw [hstore] at hcontains ⊢
    exact h.placed_applied hc hrun hregisters _ hcontains

omit [DecidableEq τ] in
/-- What is no access changes nothing. -/
theorem Registered.silent (h : s.Registered) (hstore : s'.world.store.store = s.world.store.store)
    (hhistory : ∀ e ∈ s'.history, e ∈ s.history ∨ e.access? = none)
    (hrunning : ∀ t a, s'.running t = some a → s.running t = some a ∨ a.trace = []) :
    s'.Registered := by
  have hput : ∀ {e}, e ∈ s'.history → ∀ {x}, e.put? = some x → e ∈ s.history := by
    intro e he x hx
    refine (hhistory e he).resolve_right fun hnone => ?_
    unfold Event.put? at hx
    rw [hnone] at hx
    cases hx
  constructor
  · intro e he table key value hx htable
    rw [hstore]
    exact h.kept e (hput he hx) table key value hx htable
  · intro e he e' he' table key value value' hx hx' htable
    exact h.once e (hput he hx) e' (hput he' hx') table key value value' hx hx' htable
  · intro e he table key haccess htable
    rw [hstore]
    refine h.seen e ((hhistory e he).resolve_right fun hnone => ?_) table key haccess htable
    rw [hnone] at haccess
    cases haccess
  · intro t a c hrun hcreates hintact hfree
    rw [hstore]
    rcases hrunning t a hrun with hrun | hnil
    · exact h.free t a c hrun hcreates hintact hfree
    · rw [hnil] at hfree
      exact absurd hfree List.not_mem_nil
  · rw [hstore]
    exact h.placed

theorem Registered.transition {m : Move S A τ} (h : s.Registered) (hl : s.LocksKept)
    (hc : s.Consistent) (ht : Transition m s s') : s'.Registered := by
  have hconcat : ∀ {e : Event τ}, e.access? = none →
      ∀ e' ∈ s.history ++ [e], e' ∈ s.history ∨ e'.access? = none := by
    intro e he e' he'
    rcases List.mem_append.1 he' with hold | hnew
    · exact .inl hold
    · rw [List.mem_singleton.1 hnew]
      exact .inr he
  cases ht with
  | begin =>
    refine h.silent rfl (hconcat rfl) fun t a hrun => ?_
    obtain ⟨-, ha⟩ | ⟨-, hrun⟩ := update_eq_some_iff.1 hrun
    · cases ha
      exact .inr rfl
    · exact .inl hrun
  | act hrun hrest => exact h.act hl hc hrun hrest
  | finish =>
    refine h.silent rfl (hconcat rfl) fun t a hrun => ?_
    obtain ⟨-, ha⟩ | ⟨-, hrun⟩ := update_eq_some_iff.1 hrun
    · cases ha
    · exact .inl hrun
  | disturb => exact h.silent rfl (fun _ => .inl) fun _ _ => .inl

structure Listed (s : System service S A τ) : Prop where
  locks : s.LocksKept
  consistent : s.Consistent
  registered : s.Registered

theorem listed_empty {w : World S A τ} (hlocks : w.locks = {})
    (hempty : ∀ table key, table.isRegistry = true → w.store.store.get table key = none) :
    ({ world := w } : System service S A τ).Listed :=
  ⟨locksKept_empty hlocks, consistent_empty w, registered_empty hempty⟩

theorem Listed.transition {m : Move S A τ} (h : s.Listed) (ht : Transition m s s') : s'.Listed :=
  ⟨h.locks.transition ht, h.consistent.transition ht,
    h.registered.transition h.locks h.consistent ht⟩

theorem Listed.run (h : s.Listed) (moves : List (Move S A τ)) : (s.run moves).Listed :=
  run_induction (fun _ => True) (fun _ _ _ _ ht hs => hs.transition ht) h fun _ _ => trivial

/-! ## 4. From one state on -/

variable {table : Table} {key value : Bytes}

/-- An entry of volumes or buckets stays. -/
theorem Listed.get_run (h : s.Listed) (htable : table.isRegistry = true)
    (hget : s.world.store.store.get table key = some value) (moves : List (Move S A τ)) :
    (s.run moves).world.store.store.get table key = some value := by
  have hkept : (s.run moves).Listed ∧
      (s.run moves).world.store.store.get table key = some value := by
    refine run_induction (P := fun s => s.Listed ∧ s.world.store.store.get table key = some value)
      (fun _ => True) ?_ ⟨h, hget⟩ fun _ _ => trivial
    rintro m - s s' ht ⟨h, hget⟩
    refine ⟨h.transition ht, ?_⟩
    cases ht with
    | @act _ t a action next hrun hrest =>
      show (s.world.perform t action).2.store.store.get table key = some value
      rw [World.perform_store]
      exact h.registered.get_applied hrun (Call.registers (hrest ▸ a.leads)) _ htable hget
    | _ => exact hget
  exact hkept.2

theorem Listed.contains_run (h : s.Listed) (htable : table.isRegistry = true)
    (hcontains : s.world.store.store.contains table key = true) (moves : List (Move S A τ)) :
    (s.run moves).world.store.store.contains table key = true := by
  obtain ⟨value, hget⟩ := Option.isSome_iff_exists.1 hcontains
  unfold Store.contains
  rw [h.get_run htable hget moves]
  rfl

/-- What is there is found by every call that begins later. -/
theorem Listed.not_missed (h : s.Listed) (htable : table.isRegistry = true)
    (hcontains : s.world.store.store.contains table key = true) {moves : List (Move S A τ)}
    {i : Nat} (hi : s.history.length ≤ i) :
    (⟨.contains table key, .ok false⟩ : Access) ∉ History.trace (s.run moves).history i := by
  intro hmissed
  obtain ⟨e, he, rfl, haccess⟩ := History.mem_trace.1 hmissed
  rcases answered_run he haccess with hbefore | ⟨past, -, t, action, hanswer⟩
  · -- what happened before has a lower index
    exact absurd (h.consistent.fresh e hbefore) (Nat.not_lt.2 hi)
  · have hstands := (s.run past).world.perform_stands t action
    rw [← hanswer] at hstands
    have hmissing : (s.run past).world.store.store.contains table key = false := hstands
    rw [h.contains_run htable hcontains past] at hmissing
    cases hmissing

/-! ## 5. Created for good -/

structure Created (s : System service S A τ) (e : Event τ) (c : Creation) (outcome : Outcome) :
    Prop where
  mem : e ∈ s.history
  creates : e.call.creates? = some c
  result : History.result? s.history e.index = some (.ok outcome)

/-- Why a call does not create what another one has created. -/
inductive TurnedAway (c : Creation) (trace : Trace) : OperationError → Prop where
  | alreadyThere : TurnedAway c trace c.alreadyThere
  /-- The store failed on the way. -/
  | failed {e : OperationError} (failed : trace.FailedBy e) : TurnedAway c trace e
  /-- The call is for a bucket, and looked for the volume before that was there. -/
  | early {v b : String} (bucket : c = .bucket v b)
      (missed : ⟨.contains .volumes (Creation.volume v).key, .ok false⟩ ∈ trace) :
      TurnedAway c trace (.resourceNotFound .volume v)

/-- What was created, or was found there, in one state, and what becomes of it in a later one. -/
structure CreatedForGood (s s' : System service S A τ) : Prop where
  /-- No two calls create the same. -/
  once : ∀ e e' c outcome outcome', s.Created e c outcome → s'.Created e' c outcome' →
    e.index = e'.index
  /-- The entry is what the call returned, with the names and the owner that the call was given. -/
  stored : ∀ e c outcome, s.Created e c outcome → c.Valid ∧ ∃ value,
    e.call.Describes outcome value ∧ s'.world.store.store.get c.table c.key = some value
  readBack : ∀ e c outcome, s.Created e c outcome → outcome.Fits → s'.world.store.faults = [] →
    ∀ t, ((c.getCall.program service).runAlone t s'.world).1 = .ok outcome
  /-- Whoever else asks for the same is told that it is there. -/
  refused : ∀ e c outcome, s.Created e c outcome → ∀ e' ∈ s'.history, e'.call.creates? = some c →
    e'.index ≠ e.index → ∀ result, History.result? s'.history e'.index = some result →
      ∃ x, result = .error x ∧ TurnedAway c (History.trace s'.history e'.index) x
  /-- Whoever asks later is past all checks for the volume. -/
  refusedLater : ∀ e c outcome, s.Created e c outcome → ∀ e' ∈ s'.history,
    e'.call.creates? = some c → s.history.length ≤ e'.index →
      ∀ result, History.result? s'.history e'.index = some result →
        result = .error c.alreadyThere ∨
          ∃ x, result = .error x ∧ (History.trace s'.history e'.index).FailedBy x
  /-- A bucket is in a volume. -/
  placed : ∀ key, s.world.store.store.contains .buckets key = true →
    ∃ v b, ValidName v ∧ ValidName b ∧ key = (Creation.bucket v b).key ∧
      s.world.store.store.contains .volumes (Creation.volume v).key = true
  /-- Calls that begin later do not miss what is there. -/
  found : ∀ table key, table.isRegistry = true → s.world.store.store.contains table key = true →
    ∀ e ∈ s'.history, s.history.length ≤ e.index →
      (⟨.contains table key, .ok false⟩ : Access) ∉ History.trace s'.history e.index
  /-- A check for a bucket that passes has found the bucket and its volume. -/
  passes : ∀ e ∈ s.history, ∀ v b, e.call = .checkBucket v b →
    ∀ outcome, History.result? s.history e.index = some (.ok outcome) →
      (History.trace s.history e.index).Passes v b
  /-- Where a call has found both, the check passes. -/
  checked : ∀ e ∈ s.history, ∀ v b, (History.trace s.history e.index).Passes v b →
    s'.world.store.faults = [] →
      ∀ t, (((Call.checkBucket v b).program service).runAlone t s'.world).1 = .ok .unit
  /-- A check that begins later passes too, or fails with the store. -/
  checkedAgain : ∀ e ∈ s.history, ∀ v b, (History.trace s.history e.index).Passes v b →
    ∀ e' ∈ s'.history, s.history.length ≤ e'.index → e'.call = .checkBucket v b →
      ∀ result, History.result? s'.history e'.index = some result → result = .ok .unit ∨
        ∃ x, result = .error x ∧ (History.trace s'.history e'.index).FailedBy x

/-- What a call has created, it has written, after it had found that it may. -/
theorem Listed.exists_put (h : s.Listed) {e : Event τ} {c : Creation} {outcome : Outcome}
    (hcreated : s.Created e c outcome) :
    c.Valid ∧ c.Cleared (History.trace s.history e.index) ∧ ∃ value,
      e.call.Describes outcome value ∧
        ∃ put ∈ s.history, put.index = e.index ∧ put.put? = some (c.table, c.key, value) := by
  have hleads := h.consistent.complete e hcreated.mem _ hcreated.result
  obtain ⟨hvalid, hcleared, value, hdescribes, hput⟩ := Call.decides hcreated.creates hleads
  refine ⟨hvalid, hcleared, value, hdescribes, ?_⟩
  obtain ⟨access, haccess, hput⟩ := List.mem_filterMap.1 hput
  obtain ⟨put, hmem, hindex, hacted⟩ := History.mem_trace.1 haccess
  refine ⟨put, hmem, hindex, ?_⟩
  unfold Event.put?
  rw [hacted]
  exact hput

theorem Created.run {e : Event τ} {c : Creation} {outcome : Outcome} (h : s.Created e c outcome)
    (moves : List (Move S A τ)) : (s.run moves).Created e c outcome where
  mem := (s.history_prefix_run moves).subset h.mem
  creates := h.creates
  result := History.result?_of_prefix (s.history_prefix_run moves) h.result

theorem Listed.once (h : s.Listed) {e e' : Event τ} {c : Creation} {outcome outcome' : Outcome}
    (hcreated : s.Created e c outcome) (hcreated' : s.Created e' c outcome') :
    e.index = e'.index := by
  obtain ⟨-, -, value, -, put, hmem, hindex, hput⟩ := h.exists_put hcreated
  obtain ⟨-, -, value', -, put', hmem', hindex', hput'⟩ := h.exists_put hcreated'
  rw [← hindex, ← hindex']
  exact h.registered.once put hmem put' hmem' c.table c.key value value' hput hput'
    c.isRegistry_table

theorem Listed.stored (h : s.Listed) {e : Event τ} {c : Creation} {outcome : Outcome}
    (hcreated : s.Created e c outcome) : c.Valid ∧ ∃ value,
      e.call.Describes outcome value ∧ s.world.store.store.get c.table c.key = some value := by
  obtain ⟨hvalid, -, value, hdescribes, put, hmem, -, hput⟩ := h.exists_put hcreated
  exact ⟨hvalid, value, hdescribes,
    h.registered.kept put hmem c.table c.key value hput c.isRegistry_table⟩

/-- Only one call creates; every other one is turned away. -/
theorem Listed.refused (h : s.Listed) {e e' : Event τ} {c : Creation} {outcome : Outcome}
    (hcreated : s.Created e c outcome) (he' : e' ∈ s.history) (hcreates : e'.call.creates? = some c)
    (hne : e'.index ≠ e.index) {result : CallResult}
    (hresult : History.result? s.history e'.index = some result) :
    ∃ x, result = .error x ∧ TurnedAway c (History.trace s.history e'.index) x := by
  cases result with
  | ok outcome' => exact absurd (h.once ⟨he', hcreates, hresult⟩ hcreated) hne
  | error x =>
    refine ⟨x, rfl, ?_⟩
    obtain hinvalid | hfailed | hthere | ⟨v, b, hbucket, hx, hmissed⟩ :=
      Call.decides hcreates (h.consistent.complete e' he' _ hresult)
    · exact absurd (h.exists_put hcreated).1 hinvalid
    · exact .failed hfailed
    · rw [hthere]
      exact .alreadyThere
    · rw [hx]
      exact .early hbucket hmissed

/-- What a call has found is there. -/
theorem Listed.contains_of_passes (h : s.Listed) {i : Nat} {v b : String}
    (hpasses : (History.trace s.history i).Passes v b) :
    ∀ c ∈ [Creation.volume v, Creation.bucket v b],
      s.world.store.store.contains c.table c.key = true := by
  intro c hc
  obtain ⟨e, he, -, haccess⟩ := History.mem_trace.1 (hpasses c hc)
  exact h.registered.seen e he c.table c.key haccess c.isRegistry_table

theorem Listed.createdForGood (h : s.Listed) (moves : List (Move S A τ)) :
    s.CreatedForGood (s.run moves) where
  once _ _ _ _ _ hcreated hcreated' := (h.run moves).once (hcreated.run moves) hcreated'
  stored _ _ _ hcreated := (h.run moves).stored (hcreated.run moves)
  readBack e c outcome hcreated hfits hfaults t := by
    obtain ⟨-, value, hdescribes, hget⟩ := (h.run moves).stored (hcreated.run moves)
    exact hdescribes.runAlone_getCall hcreated.creates hfits hfaults hget
  refused _ _ _ hcreated _ he' hcreates hne _ hresult :=
    (h.run moves).refused (hcreated.run moves) he' hcreates hne hresult
  refusedLater e c outcome hcreated e' he' hcreates hi result hresult := by
    have hne : e'.index ≠ e.index := by
      have hlt := h.consistent.fresh e hcreated.mem
      omega
    obtain ⟨x, rfl, hx⟩ := (h.run moves).refused (hcreated.run moves) he' hcreates hne hresult
    cases hx with
    | alreadyThere => exact .inl rfl
    | failed hfailed => exact .inr ⟨x, rfl, hfailed⟩
    | early hbucket hmissed =>
      -- the volume was found by the call that has created the bucket
      have hfound := (h.exists_put hcreated).2.1.inVolume _ _ hbucket
      obtain ⟨seen, hseen, -, haccess⟩ := History.mem_trace.1 hfound
      have hvolume := h.registered.seen seen hseen _ _ haccess rfl
      exact absurd hmissed (h.not_missed rfl hvolume hi)
  placed := h.registered.placed
  found _ _ htable hcontains _ _ hi := h.not_missed htable hcontains hi
  passes e he v b hcall outcome hresult := by
    have hleads := h.consistent.complete e he _ hresult
    rw [hcall] at hleads
    exact (checkBucket_checks hleads).2
  checked e he v b hpasses hfaults t := by
    have hthere := h.contains_of_passes hpasses
    have hvolume := hthere (.volume v) (List.mem_cons_self ..)
    have hbucket := hthere (.bucket v b) (List.mem_cons_of_mem _ (List.mem_cons_self ..))
    exact checkBucket_runAlone hfaults (h.contains_run rfl hvolume moves)
      (h.contains_run rfl hbucket moves)
  checkedAgain e he v b hpasses e' he' hi hcall result hresult := by
    have hleads := (h.run moves).consistent.complete e' he' _ hresult
    rw [hcall] at hleads
    have hchecks := checkBucket_checks hleads
    cases result with
    | ok outcome => exact .inl (congrArg Except.ok hchecks.1)
    | error x =>
      refine .inr ⟨x, rfl, hchecks.resolve_right ?_⟩
      rintro ⟨c, hc, hmissed⟩
      exact h.not_missed c.isRegistry_table (h.contains_of_passes hpasses c hc) hi hmissed

/-! ## 6. Where the store does not fail -/

/-- A store without faults does not fail, and gets none. -/
theorem perform_faultless {w : World S A τ} (hfaults : w.store.faults = []) (t : τ)
    (action : Action) :
    (w.perform t action).2.store.faults = [] ∧
      Access.storeError? ⟨action, (w.perform t action).1⟩ = none := by
  cases action with
  | get =>
    rw [World.perform_get hfaults]
    exact ⟨hfaults, rfl⟩
  | contains =>
    rw [World.perform_contains hfaults]
    exact ⟨hfaults, rfl⟩
  | put =>
    rw [World.perform_put hfaults]
    exact ⟨rfl, rfl⟩
  | delete =>
    rw [World.perform_delete hfaults]
    exact ⟨rfl, rfl⟩
  | _ => exact ⟨hfaults, rfl⟩

structure Untroubled (s : System service S A τ) : Prop where
  faults : s.world.store.faults = []
  answers : ∀ e ∈ s.history, ∀ access, e.access? = some access → access.storeError? = none

theorem Untroubled.transition {m : Move S A τ} (h : s.Untroubled) (hm : m.Unfailing)
    (ht : Transition m s s') : s'.Untroubled := by
  have hconcat : ∀ {e : Event τ}, (∀ access, e.access? = some access → access.storeError? = none) →
      ∀ e' ∈ s.history ++ [e], ∀ access, e'.access? = some access → access.storeError? = none :=
    fun he => List.forall_mem_append.2 ⟨h.answers, List.forall_mem_singleton.2 he⟩
  cases ht with
  | begin => exact ⟨h.faults, hconcat nofun⟩
  | @act _ t _ action =>
    obtain ⟨hfaults, hanswer⟩ := perform_faultless h.faults t action
    refine ⟨hfaults, hconcat fun access haccess => ?_⟩
    cases haccess
    exact hanswer
  | finish => exact ⟨h.faults, hconcat nofun⟩
  | disturb => exact ⟨hm, h.answers⟩

theorem untroubled_run {w : World S A τ} (hfaults : w.store.faults = [])
    {moves : List (Move S A τ)} (hunfailing : ∀ m ∈ moves, m.Unfailing) :
    (({ world := w } : System service S A τ).run moves).Untroubled :=
  run_induction Move.Unfailing (fun _ hm _ _ ht h => h.transition hm ht)
    ⟨hfaults, fun _ he => absurd he List.not_mem_nil⟩ hunfailing

omit [DecidableEq τ] in
theorem Untroubled.not_failedBy (h : s.Untroubled) (i : Nat) (x : OperationError) :
    ¬(History.trace s.history i).FailedBy x := by
  rintro ⟨access, haccess, y, hy, -⟩
  obtain ⟨e, he, -, hacted⟩ := History.mem_trace.1 haccess
  rw [h.answers e he access hacted] at hy
  cases hy

/-- Whatever calls threads make, in whatever order their actions come, and whatever happens around
them: a volume or a bucket is created by one call only.  From then on its entry is what that call
returned, and all who ask for it again are told that it is there; buckets are in volumes, and a
check that has found a bucket goes on finding it.  Only a store that fails can get in the way, and
where no failures are asked for there are none. -/
theorem run_createdForGood {w : World S A τ} (hlocks : w.locks = {})
    (hempty : ∀ table key, table.isRegistry = true → w.store.store.get table key = none)
    (earlier later : List (Move S A τ)) :
    let s := ({ world := w } : System service S A τ).run earlier
    s.CreatedForGood (s.run later) ∧
      (w.store.faults = [] → (∀ m ∈ earlier ++ later, m.Unfailing) →
        ∀ i x, ¬(History.trace (s.run later).history i).FailedBy x) := by
  intro s
  refine ⟨((listed_empty hlocks hempty).run earlier).createdForGood later, ?_⟩
  intro hfaults hunfailing
  have huntroubled : (s.run later).Untroubled := by
    have hrun : (({ world := w } : System service S A τ).run (earlier ++ later)).Untroubled :=
      untroubled_run hfaults hunfailing
    rwa [run, List.foldl_append] at hrun
  exact huntroubled.not_failedBy

/-- Alice and Bob create the same volume at the same time, and Bob has to wait.  When he gets his
turn the volume is there, and so it is for Carol later, though the clock has been set back. -/
theorem run_createdForGood_race :
    let w : World ed25519 localAllocation Bool :=
      { store := { store := .memory {} }
        allocator := (⟨1, 1, false⟩ : LocalAllocator)
        clock := 5 }
    let acts : Bool → Nat → List (Move ed25519 localAllocation Bool) :=
      fun t n => List.replicate n (.act t)
    let around : Surroundings ed25519 localAllocation :=
      { faults := [], allocator := (⟨1, 1, false⟩ : LocalAllocator), clock := 3
        ownTokenClock := none, authority := none }
    let earlier : List (Move ed25519 localAllocation Bool) :=
      .begin false (.createVolume "v" "alice") :: .begin true (.createVolume "v" "bob") ::
        acts false 2 ++ acts true 1 ++ acts false 3 ++ acts true 3 ++
        .begin true (.createBucket "v" "b") :: acts true 8 ++
        .begin false (.checkBucket "v" "b") :: acts false 2
    let later : List (Move ed25519 localAllocation Bool) :=
      .disturb around :: .begin true (.createVolume "v" "carol") :: acts true 3 ++
        .begin false (.checkBucket "v" "b") :: acts false 2
    let s := ({ world := w } : System {} ed25519 localAllocation Bool).run earlier
    let result? := History.result? (s.run later).history
    (w.locks = {} ∧ ∀ table key, table.isRegistry = true → w.store.store.get table key = none) ∧
      (result? 0 = some (.ok (.volume ⟨"v", "alice", 5⟩)) ∧
        result? 1 = some (.error (.resourceExists .volume "v")) ∧
        result? 12 = some (.ok (.bucket ⟨"v", "b", 5⟩)) ∧ result? 22 = some (.ok .unit) ∧
        result? 26 = some (.error (.resourceExists .volume "v")) ∧
        result? 31 = some (.ok .unit)) ∧
      s.CreatedForGood (s.run later) ∧
      ∀ i x, ¬(History.trace (s.run later).history i).FailedBy x := by
  intro w acts around earlier later s result?
  have hunfailing : ∀ m ∈ earlier ++ later, m.Unfailing := by
    simp [earlier, later, acts, around, Move.Unfailing]
  have hgood : s.CreatedForGood (s.run later) ∧ _ :=
    run_createdForGood rfl (fun _ _ _ => rfl) earlier later
  exact ⟨⟨rfl, fun _ _ _ => rfl⟩, by decide +kernel, hgood.1, hgood.2 rfl hunfailing⟩

end System

end ObjectMeta
