import ObjectMeta.Proofs.Operation.Conduct
import ObjectMeta.Proofs.Operation.Effects

/-!
# Calls one at a time

A program that runs by itself leaves a trace of what its actions did to the world
(`World.Plays`), so what is known of all its traces is known of the run.  What a trace does to the
tables can be told from the trace (`Trace.Through`).  From this follows what each call does to the
records of keys, whatever the store's faults, the clocks, the allocations and the authority are: a
call that fails changes none, and one that succeeds changes the record it is about.
-/

namespace ObjectMeta

variable {S : SignatureScheme} {A : AllocationService} {τ α : Type} [DecidableEq τ]

/-! ## 1. The trace of a run -/

/-- The accesses are what a thread's actions do to a world, one after the other. -/
def World.Plays (t : τ) : World S A τ → Trace → World S A τ → Prop
  | w, [], w' => w = w'
  | w, access :: rest, w' => access.answer = (w.perform t access.action).1 ∧
    (w.perform t access.action).2.Plays t rest w'

/-- The accesses lead from one store to another: each stands in the store it meets. -/
def Trace.Through : Trace → Store → Store → Prop
  | [], store, store' => store = store'
  | access :: rest, store, store' => access.Stands store ∧ Through rest (access.applied store) store'

namespace Trace.Through

variable {before trace trace' : Trace} {store store' : Store} {table : Table} {key : Bytes}

theorem append (h : Through (trace ++ trace') store store') :
    ∃ mid, Through trace store mid ∧ Through trace' mid store' := by
  induction trace generalizing store with
  | nil => exact ⟨store, rfl, h⟩
  | cons access rest ih =>
    obtain ⟨hstands, hrest⟩ := h
    obtain ⟨mid, hmid, hmid'⟩ := ih hrest
    exact ⟨mid, ⟨hstands, hmid⟩, hmid'⟩

/-- What every access keeps of the tables is kept of them by all. -/
theorem keeps (kept : Store → Prop) (h : trace.Through store store') (hkept : kept store)
    (hkeeps : ∀ access ∈ trace, ∀ store, kept store → kept (access.applied store)) :
    kept store' := by
  induction trace generalizing store with
  | nil => exact (show store' = store from h.symm) ▸ hkept
  | cons access rest ih =>
    rw [List.forall_mem_cons] at hkeeps
    exact ih h.2 (hkeeps.1 _ hkept) hkeeps.2

theorem get (h : trace.Through store store')
    (hspares : ∀ access ∈ trace, access.Spares table key) :
    store'.get table key = store.get table key :=
  h.keeps (fun mid => mid.get table key = store.get table key) rfl
    fun access haccess mid hget => (hspares access haccess mid).trans hget

/-- What a program that files its records reads from a well-filed store can be believed, and it
leaves the store well filed. -/
theorem wellFiled {p q : Program α} {fair : Trace → Action → Prop} {good : Trace → α → Prop}
    (h : trace.Through store store') (ha : p.Always Access.Credible fair good before)
    (hfiles : ∀ trace action, fair trace action → action.Files)
    (hl : p.Leads trace q) (hf : store.WellFiled) :
    (∀ access ∈ trace, access.Credible) ∧ store'.WellFiled := by
  induction trace generalizing store p before with
  | nil => exact ⟨fun _ ha => absurd ha List.not_mem_nil, h ▸ hf⟩
  | cons access rest ih =>
    cases p with
    | done value => exact hl.elim
    | step action next =>
      obtain ⟨answer, rfl, hrest⟩ := hl
      -- What is read from a well-filed store can be believed, so the next action is fair as well.
      have hcredible := Access.credible_of_stands h.1 hf
      have hfiled : (Access.applied store ⟨action, answer⟩).WellFiled :=
        Access.applied_wellFiled hf (hfiles _ _ ha.1)
      obtain ⟨hall, hfiled'⟩ := ih h.2 (ha.2 answer hcredible) hrest hfiled
      exact ⟨List.forall_mem_cons.2 ⟨hcredible, hall⟩, hfiled'⟩

end Trace.Through

section Plays

variable {t : τ} {w w' : World S A τ} {trace : Trace}

theorem World.plays_runAlone (p : Program α) (t : τ) (w : World S A τ) :
    ∃ trace, p.Leads trace (.done (p.runAlone t w).1) ∧ w.Plays t trace (p.runAlone t w).2 := by
  induction p generalizing w with
  | done value => exact ⟨[], rfl, rfl⟩
  | step action next ih =>
    obtain ⟨trace, hleads, hplays⟩ := ih (w.perform t action).1 (w.perform t action).2
    exact ⟨⟨action, (w.perform t action).1⟩ :: trace, ⟨_, rfl, hleads⟩, rfl, hplays⟩

theorem World.Plays.through (h : w.Plays t trace w') :
    trace.Through w.store.store w'.store.store := by
  induction trace generalizing w with
  | nil => exact congrArg (·.store.store) h
  | cons access rest ih =>
    obtain ⟨hanswer, hplays⟩ := h
    obtain ⟨hstands, hstore⟩ := w.perform_spec t access.action
    rw [← hanswer] at hstands hstore
    exact ⟨hstands, hstore ▸ ih hplays⟩

theorem World.perform_clock (w : World S A τ) (t : τ) (action : Action) :
    (w.perform t action).2.clock = w.clock := by
  cases action <;> rfl

theorem World.Plays.clock (h : w.Plays t trace w') :
    ∀ time, ⟨.now, time⟩ ∈ trace → time = w.clock := by
  induction trace generalizing w with
  | nil => exact fun _ ha => absurd ha List.not_mem_nil
  | cons access rest ih =>
    obtain ⟨hanswer, hplays⟩ := h
    intro time hmem
    obtain rfl | hmem := List.mem_cons.1 hmem
    · exact hanswer
    · rw [ih hplays time hmem, w.perform_clock]

end Plays

/-! ## 2. Guarded calls -/

section Calls

variable {service : KeyService} {call : Call} {trace : Trace}
  {result : Except OperationError Outcome} {store store' : Store}

/-- The trace of a guarded call from one store, a well-filed one, to another. -/
structure Call.RunsBy (service : KeyService) (call : Call) (store : Store) (trace : Trace)
    (result : Except OperationError Outcome) (store' : Store) : Prop where
  leads : (call.program service).Leads trace (.done result)
  through : trace.Through store store'
  credible : ∀ access ∈ trace, access.Credible
  fair : ∀ access ∈ trace, ∃ before, access.action.Fair (Trace.held before)

/-- A guarded call leaves the committed keys as they are, and the store well filed. -/
theorem Call.runsBy (hg : call.isGuarded = true)
    (hfits : ∀ request, call.request? = some request → LawfulStored.fits request.path.text)
    (hleads : (call.program service).Leads trace (.done result))
    (hthrough : trace.Through store store') (hf : store.WellFiled) :
    call.RunsBy service store trace result store' ∧ store'.WellFiled ∧
      ∀ key, store'.get .keys key = store.get .keys key := by
  have hd := Call.disciplined service hg hfits
  obtain ⟨hcredible, hfiled⟩ := hthrough.wellFiled hd (fun _ _ hfair => hfair.files) hleads hf
  have hfair : ∀ access ∈ trace, ∃ before, access.action.Fair (Trace.held before) := by
    intro access ha
    obtain ⟨before, after, rfl⟩ := List.append_of_mem ha
    exact ⟨_, hd.fair_at hleads hcredible⟩
  refine ⟨⟨hleads, hthrough, hcredible, hfair⟩, hfiled,
    fun key => hthrough.get fun access ha => ?_⟩
  obtain ⟨before, hfair⟩ := hfair access ha
  refine Access.spares_of (fun value hput => ?_) (fun hdelete => ?_)
  · rw [Access.action_of_put? hput] at hfair
    exact hfair.1.table_ne_keys rfl
  · rw [hdelete] at hfair
    exact hfair

/-- Where nothing was written, an entry is as it was. -/
theorem Call.RunsBy.spares (h : call.RunsBy service store trace result store') {part : Trace}
    (hpart : ∀ access ∈ part, access ∈ trace) (hputs : part.puts = []) (table : Table)
    (key : Bytes) : ∀ access ∈ part, access.Spares table key := by
  intro access ha
  obtain ⟨before, hfair⟩ := h.fair access (hpart access ha)
  refine Access.spares_of (fun value hput => ?_) (fun hdelete => ?_)
  · rw [List.filterMap_eq_nil_iff.1 hputs access ha] at hput
    cases hput
  · rw [hdelete] at hfair
    exact hfair

/-- A call that does not write open keys leaves them as they are. -/
theorem Call.RunsBy.get_openKeys (h : call.RunsBy service store trace result store')
    (hg : call.isGuarded = true) (hw : call.writesOpenKeys = false) (key : Bytes) :
    store'.get .openKeys key = store.get .openKeys key := by
  refine h.through.get fun access ha => ?_
  obtain ⟨before, after, rfl⟩ := List.append_of_mem ha
  have hspares := (Call.spares_openKeys service hg hw).fair_at h.leads h.credible
  refine Access.spares_of (fun value hput => ?_) (fun hdelete => ?_)
  · rw [Access.action_of_put? hput] at hspares
    exact hspares rfl
  · rw [hdelete] at hspares
    exact hspares rfl

theorem Call.RunsBy.ends (h : call.RunsBy service store trace result store')
    (hw : call.writesOpenKeys = true) : call.Ends service trace result :=
  (Call.conducts service hw).of_leads h.leads h.credible

/-- A call that fails leaves open keys as they are. -/
theorem Call.RunsBy.get_of_error {e : OperationError}
    (h : call.RunsBy service store trace (.error e) store') (hw : call.writesOpenKeys = true)
    (table : Table) (key : Bytes) : store'.get table key = store.get table key :=
  h.through.get (h.spares (fun _ ha => ha) (h.ends hw) table key)

/-- A call that opens or extends a key and succeeds writes what it made of the store that it found
and of the times that it was given. -/
theorem Call.RunsBy.get_of_ok {outcome : Outcome}
    (h : call.RunsBy service store trace (.ok outcome) store') (hw : call.writesOpenKeys = true) :
    ∃ before record, call.Writes service before record outcome ∧
      (∀ request, call.request? = some request → request.validate = .ok ()) ∧
      (∀ access ∈ before, access ∈ trace) ∧
      (∀ table key found, ⟨.get table key, .ok found⟩ ∈ before → store.get table key = found) ∧
      ∀ key, store'.get .openKeys key =
        if record.path.tableKey = key then some (Stored.encode record)
        else store.get .openKeys key := by
  obtain ⟨before, record, after, hwrites, rfl, hafter, -⟩ := h.ends hw
  -- Nothing is written before the record is, so whatever was read is what the store held at first.
  have hbefore : ∀ part, (∃ rest, before = part ++ rest) → ∀ table key, ∀ access ∈ part,
      access.Spares table key := by
    rintro part ⟨rest, rfl⟩ table key
    have hputs := hwrites.puts
    rw [Trace.puts_append, List.append_eq_nil_iff] at hputs
    exact h.spares (fun access ha => List.mem_append_left _ (List.mem_append_left _ ha)) hputs.1
      table key
  refine ⟨before, record, hwrites, hwrites.validate hw h.leads h.credible,
    fun access ha => List.mem_append_left _ ha, ?_, ?_⟩
  · intro table key found ha
    obtain ⟨part, rest, rfl⟩ := List.append_of_mem ha
    have hthrough := h.through
    rw [List.append_assoc] at hthrough
    obtain ⟨mid, hmid, hstands, -⟩ := hthrough.append
    rw [← hmid.get (hbefore part ⟨_, rfl⟩ table key)]
    exact hstands
  · -- of all accesses only the write of the record changes an open key
    intro key
    obtain ⟨mid, hmid, -, hrest⟩ := h.through.append
    rw [hrest.get (h.spares (fun access ha => List.mem_append_right _ (List.mem_cons_of_mem _ ha))
      hafter .openKeys key), ← hmid.get (hbefore before ⟨[], (List.append_nil _).symm⟩
      .openKeys key)]
    show (mid.put .openKeys record.path.tableKey (Stored.encode record)).get .openKeys key = _
    rw [Store.get_put]
    simp

variable {w : World S A τ} {t : τ}

/-- The trace of a guarded call that runs alone. -/
theorem Call.runsBy_runAlone (hg : call.isGuarded = true)
    (hfits : ∀ request, call.request? = some request → LawfulStored.fits request.path.text)
    (hf : w.store.store.WellFiled) :
    let run := (call.program service).runAlone t w
    ∃ trace, call.RunsBy service w.store.store trace run.1 run.2.store.store ∧
      w.Plays t trace run.2 ∧ run.2.store.store.WellFiled ∧
      ∀ key, run.2.store.store.get .keys key = w.store.store.get .keys key := by
  obtain ⟨trace, hleads, hplays⟩ := World.plays_runAlone (call.program service) t w
  obtain ⟨hruns, hfiled, hkeys⟩ := Call.runsBy hg hfits hleads hplays.through hf
  exact ⟨trace, hruns, hplays, hfiled, hkeys⟩

end Calls

/-! ## 3. Calls that take no locks -/

section Plain

open Operation Program

/-- The path of the entries that a call that takes no locks may change. -/
def Call.changedPath? : Call → Option ResourcePath
  | putOpenKey record | putKey record => some record.path
  | deleteOpenKey path | commit path => some path
  | _ => none

/-- The action changes no entry under a key, and files what it writes where its record says. -/
def Action.Avoids (key : Bytes) : Action → Prop
  | put table key' value => key' ≠ key ∧ Filed table key' value
  | delete _ key' => key' ≠ key
  | _ => True

theorem Action.Avoids.files {key : Bytes} {action : Action} (h : action.Avoids key) :
    action.Files := by
  cases action with
  | put table key' value => exact h.2
  | _ => trivial

theorem Access.spares_of_avoids {access : Access} {key : Bytes} (h : access.action.Avoids key)
    (table : Table) : access.Spares table key := by
  refine Access.spares_of (fun value hput => ?_) (fun hdelete => ?_)
  · rw [Access.action_of_put? hput] at h
    exact h.1 rfl
  · rw [hdelete] at h
    exact h rfl

variable {service : KeyService} {w : World S A τ} {t : τ}

/-- A program that avoids a key leaves its entries as they are, and the store well filed. -/
theorem World.get_of_avoids {p : Program α} {good : Trace → α → Prop} {key : Bytes}
    (h : p.Always Access.Credible (fun _ action => action.Avoids key) good [])
    (hf : w.store.store.WellFiled) : (p.runAlone t w).2.store.store.WellFiled ∧
      ∀ table, (p.runAlone t w).2.store.store.get table key = w.store.store.get table key := by
  obtain ⟨trace, hleads, hplays⟩ := World.plays_runAlone p t w
  obtain ⟨hcredible, hfiled⟩ := hplays.through.wellFiled h (fun _ _ h => h.files) hleads hf
  refine ⟨hfiled, fun table => hplays.through.get fun access ha => ?_⟩
  obtain ⟨before, after, rfl⟩ := List.append_of_mem ha
  exact Access.spares_of_avoids (h.fair_at hleads hcredible) table

def ofWrite (answer : Except StoreError Unit) : Except OperationError Outcome :=
  (answer.mapError .store).map fun _ => .unit

theorem putKey_program (record : KeyRecord) : (Call.putKey record).program service =
    .step (.put .keys record.path.tableKey (Stored.encode record)) fun answer =>
      .done (ofWrite answer) := by
  rw [Call.program, run_eq_followedBy, Call.operation, map_followedBy, putKey, putRecord_followedBy]
  rfl

theorem putOpenKey_program (record : KeyRecord) : (Call.putOpenKey record).program service =
    .step record.putOpen fun answer => .done (ofWrite answer) := by
  rw [Call.program, run_eq_followedBy, Call.operation, map_followedBy, putOpenKey,
    putRecord_followedBy]
  rfl

theorem deleteOpenKey_program (path : ResourcePath) : (Call.deleteOpenKey path).program service =
    .step (.delete .openKeys path.tableKey) fun answer => .done (ofWrite answer) := by
  rw [Call.program, run_eq_followedBy, Call.operation, map_followedBy, deleteOpenKey,
    delete_followedBy]
  rfl

/-- A commit reads, writes under the path that the record says, and deletes. -/
theorem commit_program (path : ResourcePath) : (Call.commit path).program service =
    .step (.get .openKeys path.tableKey) fun answer =>
      match readRecord KeyRecord answer with
      | .error e => .done (.error e)
      | .ok none => .done (.ok (.committed false))
      | .ok (some record) =>
        .step (.put .keys record.path.tableKey (Stored.encode record)) fun answer =>
          match answer with
          | .error e => .done (.error (.store e))
          | .ok () => .step (.delete .openKeys path.tableKey) fun answer =>
            .done ((answer.mapError .store).map fun _ => .committed true) := by
  rw [Call.program, run_eq_followedBy, Call.operation, map_followedBy, commit,
    bind_followedBy, getOpenKey, getRecord_followedBy]
  congr 1
  funext answer
  obtain e | (_ | record) := readRecord KeyRecord answer
  · rfl
  · rfl
  · simp only [onSuccess_ok, bind_followedBy, putKey, putRecord_followedBy]
    congr 1
    funext answer
    obtain e | u := answer
    · rfl
    · simp only [Except.mapError, onSuccess_ok, bind_followedBy, deleteOpenKey, delete_followedBy]
      congr 1
      funext answer
      obtain e | u := answer <;> rfl

theorem commit_avoids {path : ResourcePath} {key : Bytes} (h : path.tableKey ≠ key) :
    ((Call.commit path).program service).Always Access.Credible (fun _ action => action.Avoids key)
      (fun _ _ => True) [] := by
  rw [commit_program]
  refine ⟨trivial, fun answer hanswer => ?_⟩
  dsimp only
  cases hr : readRecord KeyRecord answer with
  | error e => trivial
  | ok found =>
    cases found with
    | none => trivial
    | some record =>
      -- the record is committed under its own path, which is where it was found
      obtain ⟨bytes, rfl, hdecode⟩ := readRecord_eq_ok_some hr
      have hkey : record.path.tableKey = path.tableKey := hanswer rfl record hdecode
      refine ⟨⟨hkey ▸ h, nofun⟩, fun answer _ => ?_⟩
      cases answer with
      | error e => trivial
      | ok u => exact ⟨h, fun _ _ => trivial⟩

/-- A call that takes no locks avoids the keys that it does not name. -/
theorem Call.avoids {call : Call} {key : Bytes} (hg : call.isGuarded = false)
    (hchanged : ∀ path, call.changedPath? = some path → path.tableKey ≠ key)
    (hfits : ∀ record, call = .putOpenKey record → LawfulStored.fits record) :
    (call.program service).Always Access.Credible (fun _ action => action.Avoids key)
      (fun _ _ => True) [] := by
  cases call with
  | commit path => exact commit_avoids (hchanged path rfl)
  | putKey record =>
    rw [putKey_program]
    exact ⟨⟨hchanged _ rfl, nofun⟩, fun _ _ => trivial⟩
  | putOpenKey record =>
    obtain ⟨hvol, hbucket, hkey, -⟩ := hfits record rfl
    rw [putOpenKey_program]
    exact ⟨⟨hchanged _ rfl, filed_encode record ⟨hvol, hbucket, hkey⟩⟩, fun _ _ => trivial⟩
  | deleteOpenKey path =>
    rw [deleteOpenKey_program]
    exact ⟨hchanged _ rfl, fun _ _ => trivial⟩
  | getVolume | getBucket | checkBucket | getOpenKey | getKey =>
    rw [Call.program, run_eq_followedBy, Call.operation]
    simp [Operation.getVolume, Operation.getBucket, Operation.checkBucketExists,
      Operation.getOpenKey, Operation.getKey, Except.mapError, Always, Action.Avoids]
  | _ => cases hg

/-- A single write either fails and has no effect, or is made. -/
theorem runAlone_put (table : Table) (key value : Bytes) :
    let run := (step (.put table key value) fun answer => done (ofWrite answer)).runAlone t w
    (∃ e, run.1 = .error e ∧ run.2.store.store = w.store.store) ∨
      run.1 = .ok .unit ∧ run.2.store.store = w.store.store.put table key value := by
  have hstore := w.perform_store t (.put table key value)
  simp only [runAlone]
  cases hanswer : (w.perform t (.put table key value)).1 with
  | error e =>
    rw [hanswer] at hstore
    exact .inl ⟨_, rfl, hstore⟩
  | ok u =>
    rw [hanswer] at hstore
    exact .inr ⟨rfl, hstore⟩

theorem runAlone_delete (table : Table) (key : Bytes) :
    let run := (step (.delete table key) fun answer => done (ofWrite answer)).runAlone t w
    (∃ e, run.1 = .error e ∧ run.2.store.store = w.store.store) ∨
      run.1 = .ok .unit ∧ run.2.store.store = w.store.store.delete table key := by
  have hstore := w.perform_store t (.delete table key)
  simp only [runAlone]
  cases hanswer : (w.perform t (.delete table key)).1 with
  | error e =>
    rw [hanswer] at hstore
    exact .inl ⟨_, rfl, hstore⟩
  | ok u =>
    rw [hanswer] at hstore
    exact .inr ⟨rfl, hstore⟩

end Plain

end ObjectMeta
