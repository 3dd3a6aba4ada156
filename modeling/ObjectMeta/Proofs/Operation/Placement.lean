import ObjectMeta.Proofs.Operation.Conduct
import ObjectMeta.Proofs.Operation.Effects
import ObjectMeta.Proofs.Operation.Nesting

/-!
# Where blocks are placed

A call that opens or extends a key asks for one block, writes one entry at most, and writes the block
that it was given into a record that otherwise has the blocks of one that it found under the same
names (`Trace.Places`).  It returns this block if it succeeds.  As in the rules for nesting, nothing
is assumed of what the call reads.
-/

namespace ObjectMeta

open Operation Program

/-- One entry at most was written, if every entry was written before all others. -/
theorem Trace.length_puts_le {trace : Trace}
    (h : ∀ before access after, trace = before ++ access :: after → access.put?.isSome = true →
      Trace.puts before = []) : trace.puts.length ≤ 1 := by
  induction trace with
  | nil => exact Nat.zero_le 1
  | cons access rest ih =>
    unfold puts at ih ⊢
    rw [List.filterMap_cons]
    cases hput : access.put? with
    | none =>
      refine ih fun before access' after hrest hput' => ?_
      have hbefore := h (access :: before) access' after (by rw [hrest]; rfl) hput'
      unfold puts at hbefore
      rwa [List.filterMap_cons, hput] at hbefore
    | some entry =>
      -- any other entry would have been written after this one
      have hnone : rest.filterMap Access.put? = [] := by
        rw [List.filterMap_eq_nil_iff]
        intro access' hmem
        by_contra hput'
        have ⟨before, after, hrest⟩ := List.append_of_mem hmem
        have hbefore := h (access :: before) access' after (by rw [hrest]; rfl)
          (Option.isSome_iff_ne_none.2 hput')
        unfold puts at hbefore
        rw [List.filterMap_cons, hput] at hbefore
        cases hbefore
      simp only [hnone, List.length_singleton, Nat.le_refl]

/-- After a trace with one block given, a record has this block and, apart from it, the blocks of a
record that was found under the same names, or none. -/
inductive Trace.Places (trace : Trace) (block : BlockId) : KeyRecord → Prop where
  | first {record : KeyRecord} (blocks : record.blocks = [block]) : Places trace block record
  | next {key bytes : Bytes} {found record : KeyRecord} (read : trace.Found key bytes)
      (decoded : Stored.decode KeyRecord bytes = .ok found) (path : record.path = found.path)
      (blocks : record.blocks.Perm (block :: found.blocks)) : Places trace block record

/-- Only one block is asked for, and one entry written with the block that was given. -/
def Action.Places (trace : Trace) : Action → Prop
  | allocate _ => trace.blocks = []
  | put table key value => trace.puts = [] ∧ table = .openKeys ∧ ∃ record block,
    trace.Places block record ∧ trace.blocks = [block] ∧ key = record.path.tableKey ∧
      value = Stored.encode record
  | delete .. => False
  | _ => True

def Trace.Gives (trace : Trace) (result : Except OperationError Outcome) : Prop :=
  ∀ outcome, result = .ok outcome → ∃ block, outcome.blocks = [block] ∧ trace.blocks = [block]

variable {α : Type}

def Program.Places (good : Trace → α → Prop) : Trace → Program α → Prop :=
  Always (fun _ => True) (fun trace action => action.Places trace) good

variable {good : Trace → α → Prop} {trace : Trace} {path : ResourcePath} {mode : LockMode}
  {wrap : α → Outcome}

@[simp] theorem Program.places_done {value : α} :
    (done value).Places good trace ↔ good trace value := Iff.rfl

@[simp] theorem Program.places_step {action : Action} {next : action.Answer → Program α} :
    (step action next).Places good trace ↔ action.Places trace ∧
      ∀ answer, (next answer).Places good (trace ++ [⟨action, answer⟩]) := by
  unfold Program.Places
  rw [Always]
  simp only [forall_true_left]

/-- Of what is put, there is one entry at most. -/
theorem Program.Places.length_puts_le {p q : Program α} (h : p.Places good [])
    (hl : p.Leads trace q) : trace.puts.length ≤ 1 := by
  refine Trace.length_puts_le fun before access after htrace hput => ?_
  rw [htrace] at hl
  have hplaces := Always.fair_at h hl fun _ _ => trivial
  have ⟨entry, hentry⟩ := Option.isSome_iff_exists.1 hput
  rw [Access.action_of_put? hentry] at hplaces
  exact hplaces.1

theorem Trace.gives_error (trace : Trace) (e : OperationError) : trace.Gives (.error e) :=
  fun _ h => nomatch h

/-- Locks have nothing to do with blocks. -/
theorem locked_places {body : Operation α}
    (hbody : body.run.Places (fun trace r => trace.Gives (r.map wrap))
      (trace ++ [⟨.acquire path mode, ()⟩])) :
    (locked path mode body).run.Places (fun trace r => trace.Gives (r.map wrap)) trace := by
  refine locked_always trivial hbody fun trace' r hgives => ⟨trivial, ?_⟩
  intro outcome houtcome
  have ⟨block, hblock, hgiven⟩ := hgives outcome houtcome
  refine ⟨block, hblock, ?_⟩
  rw [Trace.blocks_append, hgiven]
  rfl

variable (service : KeyService)

theorem openKey_places (request : KeyRequest) :
    ((Call.openKey request).program service).Places Trace.Gives [] := by
  refine Call.always_of_operation rfl ?_
  rw [KeyService.openKey_eq]
  refine checked_always (Trace.gives_error _) fun _ => locked_places ?_
  rw [run_eq_followedBy]
  -- Nothing is asked for before the committed key was read.
  simp [Except.mapError, Except.map, checkBucketExists, getKey, Action.Places, Trace.gives_error]
  intro value
  cases readRecord KeyRecord (.ok value) with
  | error e => exact Trace.gives_error _ _
  | ok committed? =>
    simp [KeyService.writeFirst, putOpenKey, Except.mapError, Except.map, Action.Places,
      Trace.gives_error, Trace.puts, Access.put?, Trace.blocks, Access.block?]
    intro block token time
    let record := KeyService.firstRecord request committed?
      (KeyService.locationOf block (service.firstBlockSize request) token) time
    refine ⟨⟨record, block, .first rfl, rfl, rfl, rfl⟩, fun _ outcome houtcome => ?_⟩
    cases houtcome
    exact ⟨block, rfl, rfl⟩

theorem allocateBlock_places (request : KeyRequest) (number : UInt64) :
    ((Call.allocateBlock request number).program service).Places Trace.Gives [] := by
  refine Call.always_of_operation rfl ?_
  rw [KeyService.allocateBlock_eq]
  refine checked_always (Trace.gives_error _) fun _ => locked_places (locked_places ?_)
  rw [run_eq_followedBy, bind_followedBy, getOpenKey, getRecord_followedBy, places_step]
  refine ⟨trivial, fun answer => ?_⟩
  cases hr : readRecord KeyRecord answer with
  | error e => exact Trace.gives_error _ _
  | ok found =>
    rw [onSuccess_ok]
    split
    · next record hrecord =>
      obtain ⟨bytes, rfl, hdecode, hversion⟩ := readRecord_filter_eq_some hr hrecord
      simp [KeyService.writeNext, putOpenKey, Except.mapError, Except.map, Action.Places,
        Trace.gives_error, Trace.puts, Access.put?, Trace.blocks, Access.block?]
      intro block token time
      let extended := KeyService.extendedRecord record number
        (KeyService.locationOf block service.blockSize token) time
      refine ⟨⟨extended, block, ?_, rfl, rfl, rfl⟩, fun _ outcome houtcome => ?_⟩
      · -- the record was read after the two locks were taken
        exact .next (List.mem_cons_of_mem _ (List.mem_cons_of_mem _ (List.mem_cons_self ..))) hdecode
          (extendedRecord_path ..) (KeyService.blocks_extendedRecord hversion _ time)
      · cases houtcome
        exact ⟨block, rfl, rfl⟩
    · exact Trace.gives_error _ _

/-- A call that opens or extends a key places the block that it is given, and returns it. -/
theorem Call.places {call : Call} (h : call.writesOpenKeys = true) :
    (call.program service).Places Trace.Gives [] := by
  cases call with
  | openKey request => exact openKey_places service request
  | allocateBlock request number => exact allocateBlock_places service request number
  | _ => cases h

/-- An access of a guarded call leaves open keys as they are, or it writes one with the block that
the call was given. -/
theorem Call.spares_or_places {service : KeyService} {call : Call} (hg : call.isGuarded = true)
    {trace : Trace} {action : Action}
    {next : action.Answer → Program (Except OperationError Outcome)}
    (hl : (call.program service).Leads trace (.step action next)) (answer : action.Answer) :
    (∀ key, Access.Spares .openKeys key ⟨action, answer⟩) ∨
      ∃ record block, Access.mk action answer = ⟨record.putOpen, Except.ok ()⟩ ∧
        trace.Places block record ∧ trace.blocks = [block] ∧ trace.puts = [] := by
  cases hwrites : call.writesOpenKeys with
  | false =>
    have hspares := Program.Always.of_leads (Call.spares_openKeys service hg hwrites) hl
      fun _ _ => trivial
    have haction : action.SparesOpenKeys := hspares.1
    refine .inl fun key => Access.spares_of (fun value hput => ?_) (fun hdelete => ?_)
    · have hput' : action = _ := Access.action_of_put? hput
      rw [hput'] at haction
      exact haction rfl
    · have hdelete' : action = _ := hdelete
      rw [hdelete'] at haction
      exact haction rfl
  | true =>
    have hplaces := Program.Always.of_leads (Call.places service hwrites) hl fun _ _ => trivial
    have haction : action.Places trace := hplaces.1
    cases action with
    | put table key value =>
      rcases haction with ⟨hputs, rfl, record, block, hrecord, hgiven, rfl, rfl⟩
      cases answer with
      | error e => exact .inl fun _ _ => rfl
      | ok u => exact .inr ⟨record, block, rfl, hrecord, hgiven, hputs⟩
    | delete table key => exact haction.elim
    | _ => exact .inl fun _ _ => rfl

/-- A guarded call writes open keys under one key at most. -/
theorem Call.eq_of_mem_puts {service : KeyService} {call : Call} (hg : call.isGuarded = true)
    {trace : Trace} {rest : Program (Except OperationError Outcome)}
    (hl : (call.program service).Leads trace rest) {key key' value value' : Bytes}
    (h : (.openKeys, key, value) ∈ trace.puts) (h' : (.openKeys, key', value') ∈ trace.puts) :
    key = key' := by
  cases hwrites : call.writesOpenKeys with
  | false =>
    have ⟨access, haccess, hput⟩ := List.mem_filterMap.1 h
    have ⟨before, after, htrace⟩ := List.append_of_mem haccess
    rw [htrace] at hl
    have hspares := (Call.spares_openKeys service hg hwrites).fair_at hl fun _ _ => trivial
    rw [Access.action_of_put? hput] at hspares
    exact absurd rfl hspares
  | true =>
    have hlength := (Call.places service hwrites).length_puts_le hl
    have ⟨first, hputs⟩ := List.length_eq_one_iff.1
      (Nat.le_antisymm hlength (List.length_pos_of_mem h))
    rw [hputs, List.mem_singleton] at h h'
    exact congrArg (fun entry : Table × Bytes × Bytes => entry.2.1) (h.trans h'.symm)

end ObjectMeta
