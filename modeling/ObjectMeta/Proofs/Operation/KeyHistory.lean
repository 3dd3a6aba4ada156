import ObjectMeta.Proofs.Operation.Alone

/-!
# The history of a key

Calls are taken one at a time, each in surroundings of its own.  What has happened to a key is read
off the calls that name it and succeeded (`Entry.effect?`): it was committed, a session was started,
extended or closed.  The tables reflect what this comes to (`KeyState`, `Reflects`), whatever calls
fail and whatever calls name other keys, so a look-up answers from the history of its own key alone
(`lookupKey_of_history`).
-/

namespace ObjectMeta

/-! ## 1. Histories -/

structure KeyName where
  volume : String
  bucket : String
  key : String
  deriving DecidableEq

namespace KeyName

def path (name : KeyName) : ResourcePath := .key name.volume name.bucket name.key

structure Valid (name : KeyName) : Prop where
  volume : ValidName name.volume
  bucket : ValidName name.bucket

theorem tableKey_inj {name name' : KeyName} (h : name.Valid) (h' : name'.Valid) :
    name.path.tableKey = name'.path.tableKey ↔ name = name' := by
  rw [ResourcePath.tableKey_inj, path, path,
    ResourcePath.key_inj h.volume h.bucket h'.volume h'.bucket]
  cases name
  cases name'
  simp

end KeyName

def KeyRequest.name (request : KeyRequest) : KeyName :=
  ⟨request.volume, request.bucket, request.key⟩

def KeyRecord.name (record : KeyRecord) : KeyName := ⟨record.volume, record.bucket, record.key⟩

inductive KeyEffect where
  | commit (record : KeyRecord)
  /-- A session is started, in place of an earlier one. -/
  | start (record : KeyRecord)
  /-- A block is added to a version of the open key. -/
  | extend (number : UInt64) (location : BlockLocation) (time : Int64)
  | close
  deriving DecidableEq

/-- A call as it turned out: what the clock said and what was returned. -/
structure Entry where
  call : Call
  time : Int64
  result : Except OperationError Outcome
  deriving DecidableEq

/-- What a call did to a key, if it named the key and succeeded. -/
def Entry.effect? (name : KeyName) (entry : Entry) : Option KeyEffect :=
  match entry.call, entry.result with
  | .putKey record, .ok _ => if record.name = name then some (.commit record) else none
  | .putOpenKey record, .ok _ => if record.name = name then some (.start record) else none
  | .openKey request, .ok (.record record) =>
    if request.name = name then some (.start record) else none
  | .allocateBlock request number, .ok (.location location) =>
    if request.name = name then some (.extend number location entry.time) else none
  | .deleteOpenKey path, .ok _ => if path = name.path then some .close else none
  | _, _ => none

theorem Entry.effect?_of_error {name : KeyName} {call : Call} {time : Int64}
    {e : OperationError} : Entry.effect? name ⟨call, time, .error e⟩ = none := by
  cases call <;> rfl

/-- The record with a block added to its first version of a number, if it has one, and changed at a
time. -/
def KeyRecord.extended (record : KeyRecord) (number : UInt64) (location : BlockLocation)
    (time : Int64) : KeyRecord :=
  let place := record.versions.findIdx fun version => version.number = number
  { record with
    modificationTime := time
    versions := record.versions.modify place fun version =>
      { version with locations := version.locations ++ [location] } }

/-- This is how a service extends a record. -/
theorem KeyRecord.extended_eq (record : KeyRecord) (number : UInt64) (location : BlockLocation)
    (time : Int64) : record.extended number location time =
      KeyService.extendedRecord record number location time := by
  show { record with
    modificationTime := time
    versions := record.versions.modify _ (·.append location) } = _
  rw [← LocationVersion.getD_appendTo]
  unfold KeyService.extendedRecord KeyRecord.appendLocation?
  cases LocationVersion.appendTo number location record.versions <;> rfl

def ownHistory (name : KeyName) (entries : List Entry) : List KeyEffect :=
  entries.filterMap (Entry.effect? name)

/-- What a history comes to: the last committed record, and the record of the open session. -/
structure KeyState where
  committed : Option KeyRecord := none
  opened : Option KeyRecord := none

namespace KeyState

def after (state : KeyState) : KeyEffect → KeyState
  | .commit record => { state with committed := some record }
  | .start record => { state with opened := some record }
  | .extend number location time =>
    { state with
      opened := state.opened.map fun record => record.extended number location time }
  | .close => { state with opened := none }

def ofHistory (history : List KeyEffect) : KeyState := history.foldl after {}

/-- What a look-up of the key answers: the committed record, else the open one if the service looks
there, else that there is none. -/
def answer (service : KeyService) (name : KeyName) (state : KeyState) :
    Except OperationError Outcome :=
  match state.committed with
  | some record => .ok (.record record)
  | none =>
    match if service.lookupOpenKeys then state.opened else none with
    | some record => .ok (.record record)
    | none => .error (.keyNotFound name.path.text)

end KeyState

structure Occasion (S : SignatureScheme) (A : AllocationService) (τ : Type) where
  thread : τ
  around : Surroundings S A
  call : Call

section Chronicle

variable {S : SignatureScheme} {A : AllocationService} {τ : Type} [DecidableEq τ]

def World.attend (service : KeyService) (w : World S A τ) (occasion : Occasion S A τ) :
    Entry × World S A τ :=
  let done := (occasion.call.program service).runAlone occasion.thread (w.within occasion.around)
  (⟨occasion.call, occasion.around.clock, done.1⟩, done.2)

def World.chronicle (service : KeyService) :
    World S A τ → List (Occasion S A τ) → List Entry × World S A τ
  | w, [] => ([], w)
  | w, occasion :: rest =>
    let (entry, w) := w.attend service occasion
    let (entries, w) := World.chronicle service w rest
    (entry :: entries, w)

end Chronicle

/-- What may happen between calls on a key: any call with valid names whose texts can be stored,
other than a commit of the key by the store itself. -/
def Call.Admitted (name : KeyName) : Call → Prop
  | openKey request | allocateBlock request _ | lookupKey request =>
    LawfulStored.fits request.path.text
  | putKey record | putOpenKey record => record.name.Valid ∧ LawfulStored.fits record
  | deleteOpenKey path => ∃ other : KeyName, other.Valid ∧ path = other.path
  | commit path => ∃ other : KeyName, other.Valid ∧ other ≠ name ∧ path = other.path
  | _ => True

/-! ## 2. What the tables reflect -/

/-- The tables hold what the history of a key comes to, as long as its records can be stored. -/
structure Reflects (store : Store) (name : KeyName) (state : KeyState) : Prop where
  committed : store.get .keys name.path.tableKey = state.committed.map Stored.encode
  fits : ∀ record, state.committed = some record → LawfulStored.fits record
  closed : state.opened = none → store.get .openKeys name.path.tableKey = none
  opened : ∀ record, state.opened = some record → LawfulStored.fits record →
    store.get .openKeys name.path.tableKey = some (Stored.encode record)

/-- An open key is only extended in a version that it has. -/
def KeyState.Admits (state : KeyState) : KeyEffect → Prop
  | .extend number location time => ∃ record, state.opened = some record ∧
    (LawfulStored.fits (record.extended number location time) →
      (record.version? number).isSome = true)
  | _ => True

def KeyState.Follows : KeyState → List KeyEffect → Prop
  | _, [] => True
  | state, effect :: rest => state.Admits effect ∧ (state.after effect).Follows rest

def Entry.OpensOnce (entry : Entry) : Prop :=
  ∀ request record, entry.call = .openKey request → entry.result = .ok (.record record) →
    ∃ number location, record.versions = [⟨number, [location]⟩]

theorem Entry.opensOnce {call : Call} (h : call.writesOpenKeys = false) {time : Int64}
    {result : Except OperationError Outcome} : OpensOnce ⟨call, time, result⟩ := by
  rintro request record rfl
  cases h

/-- A version could be stored before a block was added if it can be afterwards. -/
theorem LocationVersion.fits_of_append {version : LocationVersion} {location : BlockLocation}
    (h : LawfulStored.fits (version.append location)) : LawfulStored.fits version := by
  obtain ⟨hlength, hlocations⟩ := h
  rw [append, List.length_append] at hlength
  exact ⟨Nat.lt_of_le_of_lt (Nat.le_add_right ..) hlength,
    fun l hl => hlocations l (List.mem_append_left _ hl)⟩

theorem KeyService.fits_of_extendedRecord {record : KeyRecord} {number : UInt64}
    {location : BlockLocation} {time : Int64}
    (h : LawfulStored.fits (extendedRecord record number location time)) :
    LawfulStored.fits record := by
  cases hversion : record.version? number with
  | none =>
    rw [extendedRecord_of_absent hversion] at h
    exact h
  | some version =>
    obtain ⟨before, after, hfirst⟩ := LocationVersion.find?_eq_some_iff.1 hversion
    rw [extendedRecord_of_isFirst hfirst] at h
    obtain ⟨hvol, hbucket, hkey, hlength, hall⟩ := h
    rw [List.forall_mem_append, List.forall_mem_cons] at hall
    refine ⟨hvol, hbucket, hkey, ?_, ?_⟩
    · rw [hfirst.split]
      simpa using hlength
    · rw [hfirst.split, List.forall_mem_append, List.forall_mem_cons]
      exact ⟨hall.1, LocationVersion.fits_of_append hall.2.1, hall.2.2⟩

/-! ## 3. One call -/

structure Attended (name : KeyName) (state : KeyState) (entry : Entry) (store : Store) : Prop where
  filed : store.WellFiled
  reflects : Reflects store name ((entry.effect? name).elim state state.after)
  admits : ∀ effect, entry.effect? name = some effect → state.Admits effect
  opens : entry.OpensOnce

section Attend

variable {name : KeyName} {state : KeyState} {entry : Entry} {store store' : Store}

/-- Tables that are as they were reflect what they did. -/
theorem Reflects.congr (h : Reflects store name state)
    (hkeys : store'.get .keys name.path.tableKey = store.get .keys name.path.tableKey)
    (hopen : store'.get .openKeys name.path.tableKey = store.get .openKeys name.path.tableKey) :
    Reflects store' name state :=
  ⟨hkeys.trans h.committed, h.fits, fun hnone => hopen.trans (h.closed hnone),
    fun record hsome hfits => hopen.trans (h.opened record hsome hfits)⟩

/-- A call that did nothing to the key. -/
theorem Attended.of_none (h : Reflects store name state) (hfiled : store'.WellFiled)
    (hkeys : store'.get .keys name.path.tableKey = store.get .keys name.path.tableKey)
    (hopen : store'.get .openKeys name.path.tableKey = store.get .openKeys name.path.tableKey)
    (heffect : entry.effect? name = none) (hopens : entry.OpensOnce) :
    Attended name state entry store' where
  filed := hfiled
  reflects := by
    rw [heffect]
    exact h.congr hkeys hopen
  admits effect hsome := by
    rw [heffect] at hsome
    cases hsome
  opens := hopens

/-- A call that wrote the record of an open key and so started a session. -/
theorem Attended.of_start {record : KeyRecord} (h : Reflects store name state)
    (hfiled : store'.WellFiled)
    (hkeys : store'.get .keys name.path.tableKey = store.get .keys name.path.tableKey)
    (hopen : store'.get .openKeys name.path.tableKey = some (Stored.encode record))
    (heffect : entry.effect? name = some (.start record)) (hopens : entry.OpensOnce) :
    Attended name state entry store' where
  filed := hfiled
  reflects := by
    rw [heffect]
    exact ⟨hkeys.trans h.committed, h.fits, nofun, fun _ hsome _ => Option.some.inj hsome ▸ hopen⟩
  admits effect hsome := by
    rw [heffect] at hsome
    cases hsome
    trivial
  opens := hopens

/-- A call that added a block to the record that it read. -/
theorem Attended.of_extend {bytes : Bytes} {found : KeyRecord} {number : UInt64}
    {location : BlockLocation} {time : Int64} (h : Reflects store name state)
    (hfiled : store'.WellFiled)
    (hkeys : store'.get .keys name.path.tableKey = store.get .keys name.path.tableKey)
    (hbytes : store.get .openKeys name.path.tableKey = some bytes)
    (hread : Stored.decode KeyRecord bytes = .ok found)
    (hversion : (found.version? number).isSome = true)
    (hopen : store'.get .openKeys name.path.tableKey =
      some (Stored.encode (KeyService.extendedRecord found number location time)))
    (heffect : entry.effect? name = some (.extend number location time))
    (hopens : entry.OpensOnce) : Attended name state entry store' := by
  obtain ⟨record, hopened⟩ : ∃ record, state.opened = some record := by
    refine Option.ne_none_iff_exists'.1 fun hnone => ?_
    rw [h.closed hnone] at hbytes
    cases hbytes
  -- A record that can still be stored when it is longer was read back as it was written.
  have hfound : LawfulStored.fits (KeyService.extendedRecord record number location time) →
      found = record := by
    intro hfits
    have hrecord := KeyService.fits_of_extendedRecord hfits
    rw [h.opened record hopened hrecord, Option.some.injEq] at hbytes
    rw [← hbytes, Stored.decode_encode hrecord] at hread
    exact (Except.ok.inj hread).symm
  have hafter : (state.after (.extend number location time)).opened =
      some (KeyService.extendedRecord record number location time) := by
    rw [KeyState.after, hopened, Option.map_some, KeyRecord.extended_eq]
  refine ⟨hfiled, ?_, fun effect hsome => ?_, hopens⟩
  · rw [heffect]
    refine ⟨hkeys.trans h.committed, h.fits, fun hnone => ?_, fun record' hsome hfits => ?_⟩
    · rw [Option.elim_some, hafter] at hnone
      cases hnone
    · rw [Option.elim_some, hafter, Option.some.injEq] at hsome
      subst hsome
      rw [hopen, hfound hfits]
  · rw [heffect, Option.some.injEq] at hsome
    subst hsome
    exact ⟨record, hopened, fun hfits => hfound (record.extended_eq .. ▸ hfits) ▸ hversion⟩

variable {S : SignatureScheme} {A : AllocationService} {τ : Type} [DecidableEq τ]
  {service : KeyService} {w : World S A τ} {t : τ} {call : Call} {request : KeyRequest}

/-- A guarded call that fails, or that writes no open keys, does nothing to any key. -/
theorem attended_of_guarded (h : Reflects w.store.store name state) (hf : w.store.store.WellFiled)
    (hg : call.isGuarded = true)
    (hfits : ∀ request, call.request? = some request → LawfulStored.fits request.path.text)
    (hspare : call.writesOpenKeys = false ∨ ∃ e, ((call.program service).runAlone t w).1 = .error e)
    {time : Int64} : Attended name state ⟨call, time, ((call.program service).runAlone t w).1⟩
      ((call.program service).runAlone t w).2.store.store := by
  obtain ⟨trace, hruns, -, hfiled, hkeys⟩ := Call.runsBy_runAlone (t := t) hg hfits hf
  cases hw : call.writesOpenKeys with
  | false =>
    refine .of_none h hfiled (hkeys _) (hruns.get_openKeys hg hw _) ?_ (Entry.opensOnce hw)
    cases call with
    | createVolume | createBucket | lookupKey => rfl
    | openKey | allocateBlock => cases hw
    | _ => cases hg
  | true =>
    obtain hnot | ⟨e, hr⟩ := hspare
    · rw [hw] at hnot
      cases hnot
    · rw [hr] at hruns ⊢
      refine .of_none h hfiled (hkeys _) (hruns.get_of_error hw _ _) ?_ ?_
      · cases call with
        | openKey | allocateBlock => rfl
        | _ => cases hw
      · exact fun _ _ _ hresult => nomatch hresult

omit [DecidableEq τ] in
theorem KeyRequest.name_valid (hv : request.validate = .ok ()) : request.name.Valid :=
  ⟨(request.validate_eq_ok hv).1, (request.validate_eq_ok hv).2.1⟩

omit [DecidableEq τ] in
/-- What a call that opens or extends a key and succeeds has written, seen from a key. -/
theorem Call.Writes.get_of_name {before : Trace} {record : KeyRecord} {outcome : Outcome}
    (hwrites : call.Writes service before record outcome) (hr : call.request? = some request)
    (hv : request.validate = .ok ()) (hn : name.Valid) (found : Option Bytes) :
    (if record.path.tableKey = name.path.tableKey then some (Stored.encode record) else found) =
      if request.name = name then some (Stored.encode record) else found := by
  have hpath : record.path = request.name.path := hwrites.path hr
  simp only [hpath, KeyName.tableKey_inj (KeyRequest.name_valid hv) hn]

theorem attended_openKey (h : Reflects w.store.store name state) (hf : w.store.store.WellFiled)
    (hn : name.Valid) (hfits : LawfulStored.fits request.path.text) :
    Attended name state
      ⟨.openKey request, w.clock, (((Call.openKey request).program service).runAlone t w).1⟩
      (((Call.openKey request).program service).runAlone t w).2.store.store := by
  have hfits' : ∀ r, (Call.openKey request).request? = some r → LawfulStored.fits r.path.text :=
    fun r hr => Option.some.inj hr ▸ hfits
  obtain ⟨trace, hruns, -, hfiled, hkeys⟩ := Call.runsBy_runAlone (t := t) rfl hfits' hf
  cases hr : (((Call.openKey request).program service).runAlone t w).1 with
  | error e => exact hr ▸ attended_of_guarded h hf rfl hfits' (.inr ⟨e, hr⟩)
  | ok outcome =>
    rw [hr] at hruns
    obtain ⟨before, record, hwrites, hvalid, -, -, hget⟩ := hruns.get_of_ok rfl
    have hopen := (hget name.path.tableKey).trans
      (hwrites.get_of_name rfl (hvalid request rfl) hn _)
    -- What it returns is what it has written, so the entry speaks of the record in the store.
    cases hwrites with
    | @first _ _ committed? block token time =>
      have hopens : Entry.OpensOnce ⟨.openKey request, w.clock, .ok (.record
          (KeyService.firstRecord request committed?
            (KeyService.locationOf block (service.firstBlockSize request) token) time))⟩ := by
        rintro _ _ - ⟨⟩
        exact ⟨_, _, rfl⟩
      by_cases hname : request.name = name
      · exact .of_start h hfiled (hkeys _) (hopen.trans (if_pos hname)) (if_pos hname) hopens
      · exact .of_none h hfiled (hkeys _) (hopen.trans (if_neg hname)) (if_neg hname) hopens

theorem attended_allocateBlock {number : UInt64} (h : Reflects w.store.store name state)
    (hf : w.store.store.WellFiled) (hn : name.Valid)
    (hfits : LawfulStored.fits request.path.text) :
    Attended name state ⟨.allocateBlock request number, w.clock,
        (((Call.allocateBlock request number).program service).runAlone t w).1⟩
      (((Call.allocateBlock request number).program service).runAlone t w).2.store.store := by
  have hfits' : ∀ r, (Call.allocateBlock request number).request? = some r →
      LawfulStored.fits r.path.text :=
    fun r hr => Option.some.inj hr ▸ hfits
  obtain ⟨trace, hruns, hplays, hfiled, hkeys⟩ := Call.runsBy_runAlone (t := t) rfl hfits' hf
  cases hr : (((Call.allocateBlock request number).program service).runAlone t w).1 with
  | error e => exact hr ▸ attended_of_guarded h hf rfl hfits' (.inr ⟨e, hr⟩)
  | ok outcome =>
    rw [hr] at hruns
    obtain ⟨before, record, hwrites, hvalid, hpart, hread, hget⟩ := hruns.get_of_ok rfl
    have hopen := (hget name.path.tableKey).trans
      (hwrites.get_of_name rfl (hvalid request rfl) hn _)
    cases hwrites with
    | @next _ _ bytes found block token time hdecode hpath hversion =>
      have hopens : Entry.OpensOnce ⟨.allocateBlock request number, w.clock, .ok (.location
          (KeyService.locationOf block service.blockSize token))⟩ := nofun
      by_cases hname : request.name = name
      · obtain rfl := hplays.clock time (hpart _ (by simp [KeyService.extending]))
        have hbytes := hread .openKeys request.path.tableKey (some bytes)
          (by simp [KeyService.extending])
        subst hname
        exact .of_extend h hfiled (hkeys _) hbytes hdecode hversion (hopen.trans (if_pos rfl))
          (if_pos rfl) hopens
      · exact .of_none h hfiled (hkeys _) (hopen.trans (if_neg hname)) (if_neg hname) hopens

/-- A call that takes no locks and names another key does nothing to the key. -/
theorem attended_of_other (h : Reflects w.store.store name state) (hf : w.store.store.WellFiled)
    (hg : call.isGuarded = false)
    (hchanged : ∀ path, call.changedPath? = some path → path.tableKey ≠ name.path.tableKey)
    (hfits : ∀ record, call = .putOpenKey record → LawfulStored.fits record) {time : Int64} :
    Attended name state ⟨call, time, ((call.program service).runAlone t w).1⟩
      ((call.program service).runAlone t w).2.store.store := by
  have havoids : (call.program service).Always Access.Credible
      (fun _ action => action.Avoids name.path.tableKey) (fun _ _ => True) [] :=
    Call.avoids hg hchanged hfits
  obtain ⟨hfiled, hget⟩ := World.get_of_avoids (t := t) havoids hf
  have hw : call.writesOpenKeys = false := by
    cases call with
    | openKey | allocateBlock => cases hg
    | _ => rfl
  refine .of_none h hfiled (hget _) (hget _) ?_ (Entry.opensOnce hw)
  · -- whatever the call returned, it speaks of another key
    generalize ((call.program service).runAlone t w).1 = result
    obtain e | outcome := result
    · exact Entry.effect?_of_error
    · cases call with
      | putKey record | putOpenKey record =>
        have hname : record.name ≠ name := by
          rintro rfl
          exact hchanged record.path rfl rfl
        simp only [Entry.effect?, if_neg hname]
      | deleteOpenKey path =>
        have hpath : path ≠ name.path := by
          rintro rfl
          exact hchanged name.path rfl rfl
        simp only [Entry.effect?, if_neg hpath]
      | openKey | allocateBlock => cases hg
      | _ => rfl

theorem attended_putKey {record : KeyRecord} (h : Reflects w.store.store name state)
    (hf : w.store.store.WellFiled) (hname : record.name = name) (hfits : LawfulStored.fits record)
    {time : Int64} : Attended name state
      ⟨.putKey record, time, (((Call.putKey record).program service).runAlone t w).1⟩
      (((Call.putKey record).program service).runAlone t w).2.store.store := by
  subst hname
  rw [putKey_program]
  obtain ⟨e, hresult, hstore⟩ | ⟨hresult, hstore⟩ := runAlone_put (t := t) (w := w) .keys
    record.path.tableKey (Stored.encode record)
  · rw [hresult, hstore]
    exact .of_none h hf rfl rfl Entry.effect?_of_error (Entry.opensOnce rfl)
  · rw [hresult, hstore]
    have heffect : Entry.effect? record.name ⟨.putKey record, time, .ok .unit⟩ =
        some (.commit record) := if_pos rfl
    refine ⟨hf.put nofun, ?_, fun effect hsome => ?_, Entry.opensOnce rfl⟩
    · rw [heffect]
      refine ⟨?_, fun _ hsome => Option.some.inj hsome ▸ hfits, fun hnone => ?_,
        fun record' hsome hfits' => ?_⟩
      · rw [Store.get_put, if_pos ⟨rfl, rfl⟩]
        rfl
      · -- the open key is in another table
        rw [Store.get_put, if_neg fun hsame => nomatch hsame.1]
        exact h.closed hnone
      · rw [Store.get_put, if_neg fun hsame => nomatch hsame.1]
        exact h.opened record' hsome hfits'
    · rw [heffect, Option.some.injEq] at hsome
      subst hsome
      trivial

theorem attended_putOpenKey {record : KeyRecord} (h : Reflects w.store.store name state)
    (hf : w.store.store.WellFiled) (hname : record.name = name) (hfits : LawfulStored.fits record)
    {time : Int64} : Attended name state
      ⟨.putOpenKey record, time, (((Call.putOpenKey record).program service).runAlone t w).1⟩
      (((Call.putOpenKey record).program service).runAlone t w).2.store.store := by
  subst hname
  rw [putOpenKey_program]
  obtain ⟨e, hresult, hstore⟩ | ⟨hresult, hstore⟩ := runAlone_put (t := t) (w := w) .openKeys
    record.path.tableKey (Stored.encode record)
  · rw [hresult, hstore]
    exact .of_none h hf rfl rfl Entry.effect?_of_error (Entry.opensOnce rfl)
  · rw [hresult, hstore]
    obtain ⟨hvol, hbucket, hkey, -⟩ := hfits
    refine .of_start h (hf.put (filed_encode record ⟨hvol, hbucket, hkey⟩)) ?_ ?_ (if_pos rfl)
      (Entry.opensOnce rfl)
    · rw [Store.get_put, if_neg fun hsame => nomatch hsame.1]
    · rw [Store.get_put, if_pos ⟨rfl, rfl⟩]

theorem attended_deleteOpenKey (h : Reflects w.store.store name state)
    (hf : w.store.store.WellFiled) {time : Int64} : Attended name state
      ⟨.deleteOpenKey name.path, time,
        (((Call.deleteOpenKey name.path).program service).runAlone t w).1⟩
      (((Call.deleteOpenKey name.path).program service).runAlone t w).2.store.store := by
  rw [deleteOpenKey_program]
  obtain ⟨e, hresult, hstore⟩ | ⟨hresult, hstore⟩ :=
    runAlone_delete (t := t) (w := w) .openKeys name.path.tableKey
  · rw [hresult, hstore]
    exact .of_none h hf rfl rfl Entry.effect?_of_error (Entry.opensOnce rfl)
  · rw [hresult, hstore]
    have heffect : Entry.effect? name ⟨.deleteOpenKey name.path, time, .ok .unit⟩ = some .close :=
      if_pos rfl
    refine ⟨hf.delete _ _, ?_, fun effect hsome => ?_, Entry.opensOnce rfl⟩
    · rw [heffect]
      refine ⟨?_, h.fits, fun _ => ?_, fun _ hsome => nomatch hsome⟩
      · rw [Store.get_delete, if_neg fun hsame => nomatch hsame.1]
        exact h.committed
      · rw [Store.get_delete, if_pos ⟨rfl, rfl⟩]
    · rw [heffect, Option.some.injEq] at hsome
      subst hsome
      trivial

/-- Whatever call is made, the tables go on reflecting the history of the key. -/
theorem attended (h : Reflects w.store.store name state) (hf : w.store.store.WellFiled)
    (hn : name.Valid) (hcall : call.Admitted name) :
    Attended name state ⟨call, w.clock, ((call.program service).runAlone t w).1⟩
      ((call.program service).runAlone t w).2.store.store := by
  -- Names without a slash make keys of the tables that differ when the names do.
  have hapart : ∀ other : KeyName, other.Valid → other ≠ name →
      other.path.tableKey ≠ name.path.tableKey :=
    fun _ hother hne hkey => hne ((KeyName.tableKey_inj hother hn).1 hkey)
  cases call with
  | createVolume | createBucket =>
    exact attended_of_guarded h hf rfl (fun _ hr => by cases hr) (.inl rfl)
  | lookupKey request =>
    exact attended_of_guarded h hf rfl (fun _ hr => by cases hr; exact hcall) (.inl rfl)
  | openKey request => exact attended_openKey h hf hn hcall
  | allocateBlock request number => exact attended_allocateBlock h hf hn hcall
  | putKey record =>
    obtain ⟨hvalid, hfits⟩ := hcall
    by_cases hname : record.name = name
    · exact attended_putKey h hf hname hfits
    · refine attended_of_other h hf rfl (fun _ hpath => ?_) fun _ hr => by cases hr
      cases hpath
      exact hapart record.name hvalid hname
  | putOpenKey record =>
    obtain ⟨hvalid, hfits⟩ := hcall
    by_cases hname : record.name = name
    · exact attended_putOpenKey h hf hname hfits
    · refine attended_of_other h hf rfl (fun _ hpath => ?_) fun _ hr => by cases hr; exact hfits
      cases hpath
      exact hapart record.name hvalid hname
  | deleteOpenKey path =>
    obtain ⟨other, hother, rfl⟩ := hcall
    by_cases hname : other = name
    · exact hname ▸ attended_deleteOpenKey h hf
    · refine attended_of_other h hf rfl (fun _ hpath => ?_) fun _ hr => by cases hr
      cases hpath
      exact hapart other hother hname
  | commit path =>
    obtain ⟨other, hother, hne, rfl⟩ := hcall
    refine attended_of_other h hf rfl (fun _ hpath => ?_) fun _ hr => by cases hr
    cases hpath
    exact hapart other hother hne
  | getVolume | getBucket | checkBucket | getOpenKey | getKey =>
    exact attended_of_other h hf rfl (fun _ hpath => by cases hpath) fun _ hr => by cases hr

/-! ## 4. All calls -/

structure Chronicled (name : KeyName) (state : KeyState) (entries : List Entry) (store : Store) :
    Prop where
  filed : store.WellFiled
  reflects : Reflects store name ((ownHistory name entries).foldl KeyState.after state)
  follows : state.Follows (ownHistory name entries)
  opens : ∀ entry ∈ entries, entry.OpensOnce

omit [DecidableEq τ] in
/-- A call and those after it. -/
theorem Attended.chronicled {entries : List Entry} (h : Attended name state entry store)
    (hrest : Chronicled name ((entry.effect? name).elim state state.after) entries store') :
    Chronicled name state (entry :: entries) store' := by
  have hopens : ∀ entry' ∈ entry :: entries, entry'.OpensOnce :=
    List.forall_mem_cons.2 ⟨h.opens, hrest.opens⟩
  cases heffect : entry.effect? name with
  | none =>
    have hown : ownHistory name (entry :: entries) = ownHistory name entries :=
      List.filterMap_cons_none heffect
    rw [heffect] at hrest
    exact ⟨hrest.filed, hown ▸ hrest.reflects, hown ▸ hrest.follows, hopens⟩
  | some effect =>
    have hown : ownHistory name (entry :: entries) = effect :: ownHistory name entries :=
      List.filterMap_cons_some heffect
    rw [heffect] at hrest
    exact ⟨hrest.filed, hown ▸ hrest.reflects, hown ▸ ⟨h.admits effect heffect, hrest.follows⟩,
      hopens⟩

theorem chronicled {occasions : List (Occasion S A τ)} (h : Reflects w.store.store name state)
    (hf : w.store.store.WellFiled) (hn : name.Valid)
    (hcalls : ∀ occasion ∈ occasions, occasion.call.Admitted name) :
    Chronicled name state (w.chronicle service occasions).1
      (w.chronicle service occasions).2.store.store := by
  induction occasions generalizing w state with
  | nil => exact ⟨hf, h, trivial, fun _ hentry => absurd hentry List.not_mem_nil⟩
  | cons occasion rest ih =>
    rw [List.forall_mem_cons] at hcalls
    -- The other calls start from what this one left.
    have hone : Attended name state (w.attend service occasion).1
        (w.attend service occasion).2.store.store :=
      attended (w := w.within occasion.around) h hf hn hcalls.1
    exact hone.chronicled (ih hone.reflects hone.filed hcalls.2)

end Attend

end ObjectMeta
