import ObjectMeta.Crypto.Ed25519
import ObjectMeta.Proofs.Concurrency.Order
import ObjectMeta.Proofs.Operation.Nesting

/-!
# A call is made or has no effect

A thread that may hold locks already runs a guarded call on any tables, among threads that take and
give back locks of their own and in surroundings that change between its actions (`World.Runs`).
However the call ends, the thread has the locks that it had; a call that fails has left all tables
alone, one that succeeds has changed its one entry and no other, and one that is refused has done
nothing at all (`World.Runs.allOrNothing`).  The one entry of an extension is the one that the
record which it found names, and a record can be found where it does not belong.
-/

namespace ObjectMeta

open Operation

variable {service : KeyService} {S : SignatureScheme} {A : AllocationService} {τ α : Type}
  [DecidableEq τ]

/-! ## 1. Runs among other threads -/

namespace World

/-- The lock table is right about the threads, and these are the locks of one of them. -/
def HasInHand (w : World S A τ) (t : τ) (own : List LockGuard) : Prop :=
  ∃ held, w.locks.Tracks held ∧ held t = own

/-- What happens while a thread pauses: it keeps its locks and the tables stay, but other threads
take and give back locks, and the surroundings change. -/
structure Pauses (t : τ) (w w' : World S A τ) : Prop where
  store : w'.store.store = w.store.store
  locks : ∀ own, w.HasInHand t own → w'.HasInHand t own

/-- A thread runs a program from a world to its value and the world at the end.  It pauses before
each action until it can take it. -/
inductive Runs (t : τ) : World S A τ → Program α → α → World S A τ → Prop where
  | done {w : World S A τ} {value : α} : Runs t w (.done value) value w
  | step {w w₁ w' : World S A τ} {action : Action} {next : action.Answer → Program α} {value : α}
      (pause : w.Pauses t w₁) (ready : w₁.isReady t action = true)
      (rest : Runs t (w₁.perform t action).2 (next (w₁.perform t action).1) value w') :
      Runs t w (.step action next) value w'

end World

/-! ## 2. What a run has done so far -/

def Store.putAll (store : Store) (entries : List (Table × Bytes × Bytes)) : Store :=
  entries.foldl (fun store (table, key, value) => store.put table key value) store

theorem Store.putAll_append (store : Store) (entries entries' : List (Table × Bytes × Bytes)) :
    store.putAll (entries ++ entries') = (store.putAll entries).putAll entries' :=
  List.foldl_append

/-- Only what is put, and not what is deleted, changes the tables of a program that nests. -/
theorem Access.applied_eq_putAll {trace : Trace} {access : Access}
    (h : access.action.Nests trace) (store : Store) :
    access.applied store = store.putAll (Trace.puts [access]) := by
  obtain ⟨action, answer⟩ := access
  cases action with
  | put table key value => cases answer <;> rfl
  | delete table key => exact h.elim
  | _ => rfl

/-- Locks that were there before stay below those that a program which nests takes and gives back. -/
theorem Access.heldAfter_append {trace : Trace} {access : Access} (h : access.action.Nests trace)
    (own : List LockGuard) :
    access.heldAfter (trace.held ++ own) = access.heldAfter trace.held ++ own := by
  obtain ⟨action, answer⟩ := access
  cases action with
  | release path mode =>
    obtain ⟨rest, hheld⟩ := h
    show (trace.held ++ own).erase ⟨path, mode⟩ = trace.held.erase ⟨path, mode⟩ ++ own
    rw [hheld, List.cons_append, List.erase_cons_head, List.erase_cons_head]
  | _ => rfl

namespace World

/-- What the accesses of a thread have made of a world: what they put is in the tables, what they
found as open keys was there from the start, and the thread has the locks that they took on top of
those that it had. -/
structure Reaches (t : τ) (w₀ : World S A τ) (trace : Trace) (w : World S A τ) : Prop where
  store : w.store.store = w₀.store.store.putAll trace.puts
  found : ∀ key bytes, trace.Found key bytes → w₀.store.store.get .openKeys key = some bytes
  locks : ∀ own, w₀.HasInHand t own → w.HasInHand t (trace.held ++ own)

variable {t : τ} {w₀ w w₁ w' : World S A τ} {trace : Trace} {action : Action}
  {held : τ → List LockGuard} {own : List LockGuard}

/-- After an action that nests, a thread has what its trace took on top of what it had before, and
the other threads have what they had. -/
theorem perform_inHand (htracks : w.locks.Tracks held) (hheld : held t = trace.held ++ own)
    (hnests : action.Nests trace) (hready : w.isReady t action = true) :
    ∃ held', (w.perform t action).2.locks.Tracks held' ∧
      held' t = Trace.held (trace ++ [⟨action, (w.perform t action).1⟩]) ++ own ∧
      ∀ t', t' ≠ t → held' t' = held t' := by
  have hrelease : ∀ path mode, action = .release path mode → ⟨path, mode⟩ ∈ held t := by
    intro path mode haction
    subst haction
    rcases hnests with ⟨rest, hlatest⟩
    rw [hheld, hlatest]
    exact List.mem_cons_self ..
  refine ⟨_, perform_tracks htracks hready hrelease, ?_, fun t' ht => Function.update_of_ne ht ..⟩
  rw [Function.update_self, hheld, Access.heldAfter_append hnests, Trace.held_append]
  rfl

theorem reaches_nil (t : τ) (w : World S A τ) : w.Reaches t [] w where
  store := rfl
  found _ _ hfound := absurd hfound List.not_mem_nil
  locks _ hown := hown

theorem Reaches.pause (h : w₀.Reaches t trace w) (hp : w.Pauses t w₁) :
    w₀.Reaches t trace w₁ where
  store := hp.store.trans h.store
  found := h.found
  locks own hown := hp.locks _ (h.locks own hown)

theorem Reaches.perform (h : w₀.Reaches t trace w) (hnests : action.Nests trace)
    (hready : w.isReady t action = true) :
    w₀.Reaches t (trace ++ [⟨action, (w.perform t action).1⟩]) (w.perform t action).2 where
  store := by
    rw [perform_store, Access.applied_eq_putAll hnests, h.store, Trace.puts_append,
      Store.putAll_append]
  found key bytes hfound := by
    obtain hfound | hlast := List.mem_append.1 hfound
    · exact h.found key bytes hfound
    · -- a read comes before all that is put
      have haccess := List.mem_singleton.1 hlast
      have haction := congrArg Access.action haccess
      subst haction
      have hputs : trace.puts = [] := hnests
      have hstands := w.perform_stands t (.get .openKeys key)
      rw [← haccess] at hstands
      rw [h.store, hputs] at hstands
      exact hstands
  locks own hown := by
    obtain ⟨held, htracks, hheld⟩ := h.locks own hown
    obtain ⟨held', htracks', hheld', -⟩ := perform_inHand htracks hheld hnests hready
    exact ⟨held', htracks', hheld'⟩

/-- A program that nests ends with what its accesses have made of the world. -/
theorem Runs.reaches {p : Program α} {value : α} {good : Trace → α → Prop}
    (h : w.Runs t p value w') (hn : p.Nested good trace) (hr : w₀.Reaches t trace w) :
    ∃ trace', w₀.Reaches t trace' w' ∧ good trace' value := by
  induction h generalizing trace with
  | done => exact ⟨trace, hr, hn⟩
  | step pause ready rest ih =>
    rw [Program.nested_step] at hn
    exact ih (hn.2 _) ((hr.pause pause).perform hn.1 ready)

/-- While no other thread has a lock, a program that nests runs to its end without a pause. -/
theorem Runs.alone {p : Program α} {good : Trace → α → Prop} (hn : p.Nested good trace)
    (htracks : w.locks.Tracks held) (hheld : held t = trace.held ++ own)
    (hothers : ∀ t', t' ≠ t → held t' = []) :
    w.Runs t p (p.runAlone t w).1 (p.runAlone t w).2 := by
  induction p generalizing trace w held with
  | done value => exact .done
  | step action next ih =>
    rw [Program.nested_step] at hn
    have hready : w.isReady t action = true := by
      cases action with
      | acquire path mode =>
        show w.locks.canGrant path mode t = true
        rw [htracks.canGrant_iff]
        intro t' ht m _
        rw [hothers t' ht]
        exact List.not_mem_nil
      | _ => rfl
    obtain ⟨held', htracks', hheld', hsame⟩ := perform_inHand htracks hheld hn.1 hready
    apply Runs.step ⟨rfl, fun _ hown => hown⟩ hready
    apply ih _ (hn.2 _) htracks' hheld'
    intro t' ht
    rw [hsame t' ht]
    exact hothers t' ht

end World

/-! ## 3. Calls -/

def Call.validate : Call → Except RequestError Unit
  | createVolume volume _ => validateVolumeName volume
  | createBucket volume bucket => do
    validateVolumeName volume
    validateBucketName bucket
  | openKey request | allocateBlock request _ | lookupKey request => request.validate
  | _ => .ok ()

theorem Call.program_of_refused {call : Call} {reason : RequestError}
    (h : call.validate = .error reason) :
    call.program service = .done (.error (.invalidRequest reason)) := by
  cases call with
  | createVolume volume owner =>
    have hv : validateVolumeName volume = .error reason := h
    rw [Call.program, run_eq_followedBy, Call.operation]
    simp [Operation.createVolume, hv, Except.mapError]
  | createBucket volume bucket =>
    have hvb : (do validateVolumeName volume; validateBucketName bucket) = .error reason := h
    rw [Call.program, run_eq_followedBy, Call.operation]
    cases hv : validateVolumeName volume with
    | error e =>
      rw [hv] at hvb
      cases hvb
      simp [Operation.createBucket, hv, Except.mapError]
    | ok u =>
      rw [hv] at hvb
      have hb : validateBucketName bucket = .error reason := hvb
      simp [Operation.createBucket, hv, hb, Except.mapError]
  | openKey request | allocateBlock request number | lookupKey request =>
    have hv : request.validate = .error reason := h
    rw [Call.program, run_eq_followedBy, Call.operation]
    simp [KeyService.openKey, KeyService.allocateBlock, KeyService.lookupKey, hv,
      Except.mapError]
  | _ => cases h

/-- The second store is the first with one entry changed, if there is one to change. -/
def Store.DiffersBy (store store' : Store) : Option (Table × Bytes × Bytes) → Prop
  | none => store' = store
  | some (table, key, value) => ∀ table' key', store'.get table' key' =
      if table = table' ∧ key = key' then some value else store.get table' key'

theorem Store.differsBy_putAll (store : Store) (change? : Option (Table × Bytes × Bytes)) :
    store.DiffersBy (store.putAll change?.toList) change? := by
  obtain - | ⟨table, key, value⟩ := change?
  · rfl
  · exact fun table' key' => store.get_put table table' key key' value

/-- How a call of a thread takes a world to another: all of it is done or nothing, and the thread
has the locks that it had. -/
structure Call.AllOrNothing (call : Call) (t : τ) (w : World S A τ) (result : CallResult)
    (w' : World S A τ) : Prop where
  failed : ∀ e, result = .error e → w'.store.store = w.store.store
  done : ∀ outcome, result = .ok outcome → ∃ change?,
    call.Leaves (fun key bytes => w.store.store.get .openKeys key = some bytes) outcome change? ∧
      w.store.store.DiffersBy w'.store.store change?
  locks : ∀ own, w.HasInHand t own → w'.HasInHand t own
  refused : ∀ reason, call.validate = .error reason →
    result = .error (.invalidRequest reason) ∧ w' = w

/-- However a guarded call ends, it is done as a whole or not at all. -/
theorem World.Runs.allOrNothing {call : Call} {t : τ} {w w' : World S A τ} {result : CallResult}
    (hg : call.isGuarded = true) (h : w.Runs t (call.program service) result w') :
    call.AllOrNothing t w result w' := by
  obtain ⟨trace, hr, hheld, hends⟩ := h.reaches (Call.nested service hg) (reaches_nil t w)
  refine ⟨?_, ?_, fun own hown => ?_, fun reason hrefused => ?_⟩
  · intro e he
    subst he
    have hputs : trace.puts = [] := hends
    rw [hr.store, hputs]
    rfl
  · intro outcome ho
    subst ho
    rcases hends with ⟨change?, hleaves, hputs⟩
    have hdiffers := w.store.store.differsBy_putAll change?
    rw [← hputs, ← hr.store] at hdiffers
    exact ⟨change?, hleaves.mono hr.found, hdiffers⟩
  · have hlocks := hr.locks own hown
    rwa [hheld] at hlocks
  · -- a call that is refused has no action to take
    rw [Call.program_of_refused hrefused] at h
    cases h
    exact ⟨rfl, rfl⟩

/-- A volume is made by a thread that has the lock of a bucket and keeps it. -/
theorem World.Runs.allOrNothing_createVolume :
    let w : World ed25519 localAllocation Bool :=
      { store := { store := .memory {} }
        locks := ({} : LockTable Bool).grant (.bucket "w" "b") .write true
        allocator := (⟨1, 1, false⟩ : LocalAllocator)
        clock := 5 }
    let call := Call.createVolume "v" "alice"
    let run := (call.program {}).runAlone true w
    (call.isGuarded = true ∧ w.Runs true (call.program {}) run.1 run.2) ∧
      run.1 = .ok (.volume { name := "v", owner := "alice", creationTime := 5 }) ∧
      w.HasInHand true [⟨.bucket "w" "b", .write⟩] ∧ call.AllOrNothing true w run.1 run.2 := by
  intro w call run
  have htracks := LockTable.Tracks.empty.grant
    (rfl : ({} : LockTable Bool).canGrant (.bucket "w" "b") .write true = true)
  have hruns : w.Runs true (call.program {}) run.1 run.2 :=
    Runs.alone (Call.nested {} rfl) htracks rfl fun t' ht => Function.update_of_ne ht ..
  have hdone : run.1 = .ok (.volume { name := "v", owner := "alice", creationTime := 5 }) := by
    decide +kernel
  exact ⟨⟨rfl, hruns⟩, hdone, ⟨_, htracks, rfl⟩, allOrNothing rfl hruns⟩

/-- Key `x` is extended where its record is one of key `k`, and another entry than that of `x`
changes. -/
theorem World.misfiled_extension_strays : ∃ outcome w',
    System.misfiledWorld.Runs true ((System.extend "x").program {}) (.ok outcome) w' ∧
      ∀ value, ¬System.misfiledWorld.store.store.DiffersBy w'.store.store
        (some (.openKeys, (ResourcePath.key "v" "b" "x").tableKey, value)) := by
  let run := ((System.extend "x").program {}).runAlone true System.misfiledWorld
  have hruns : System.misfiledWorld.Runs true ((System.extend "x").program {}) run.1 run.2 :=
    Runs.alone (Call.nested {} rfl) LockTable.Tracks.empty rfl fun _ _ => rfl
  have hdone : run.1 = .ok (.location (KeyService.locationOf ⟨1, 1⟩ 268435456 none)) := by
    decide +kernel
  have hkey : run.2.store.store.get .openKeys (ResourcePath.key "v" "b" "k").tableKey ≠
      System.misfiledWorld.store.store.get .openKeys (ResourcePath.key "v" "b" "k").tableKey := by
    decide +kernel
  rw [hdone] at hruns
  refine ⟨_, _, hruns, fun value hdiffers => ?_⟩
  have hsame := hdiffers .openKeys (ResourcePath.key "v" "b" "k").tableKey
  rw [if_neg (by decide)] at hsame
  exact hkey hsame

end ObjectMeta
