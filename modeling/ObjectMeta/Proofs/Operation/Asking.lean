import ObjectMeta.Proofs.Operation.KeyHistory
import ObjectMeta.Proofs.Operation.Refusal

/-!
# What blocks are asked for

Calls are taken one at a time, over a store that does not fail.  Only opening and extending a key ask
for a block, and each asks once, as soon as nothing can go wrong any more before
(`openKey_asks`, `allocateBlock_asks`).  The size and the replication come from the request when a
key is opened; when it is extended, the size is that of the service and the replication is read from
the open record, where the last opening has put it (`Sessions`, `World.chronicle_asks`).
-/

namespace ObjectMeta

open Operation Program

variable {S : SignatureScheme} {A : AllocationService} {τ α β : Type} [DecidableEq τ]

/-! ## 1. What a program asks for -/

def Program.asked (t : τ) (p : Program α) (w : World S A τ) : List AllocationRequest :=
  (Trace.allocations (p.accesses t w)).map Prod.fst

namespace Program

variable {t : τ} {w : World S A τ}

theorem asked_acquire (path : ResourcePath) (mode : LockMode) (next : Unit → Program α) :
    (step (.acquire path mode) next).asked t w =
      (next ()).asked t (w.perform t (.acquire path mode)).2 := rfl

theorem asked_get (hf : w.store.faults = []) (table : Table) (key : Bytes)
    (next : Except StoreError (Option Bytes) → Program α) :
    (step (.get table key) next).asked t w =
      (next (.ok (w.store.store.get table key))).asked t w := by
  show (next (w.perform t (.get table key)).1).asked t (w.perform t (.get table key)).2 = _
  rw [World.perform_get hf]

theorem asked_contains (hf : w.store.faults = []) (table : Table) (key : Bytes)
    (next : Except StoreError Bool → Program α) :
    (step (.contains table key) next).asked t w =
      (next (.ok (w.store.store.contains table key))).asked t w := by
  show (next (w.perform t (.contains table key)).1).asked t
    (w.perform t (.contains table key)).2 = _
  rw [World.perform_contains hf]

/-- A program that heeds refusals asks for one block at most. -/
theorem Heeds.asked_eq {p : Program (Except OperationError α)} (h : p.Heeds Trace.Reports [])
    {request : AllocationRequest} {rest : List AllocationRequest}
    (hasked : p.asked t w = request :: rest) : p.asked t w = [request] := by
  unfold Program.asked at hasked ⊢
  have hmem : request ∈ (Trace.allocations (p.accesses t w)).map Prod.fst := by
    rw [hasked]
    exact List.mem_cons_self ..
  have ⟨⟨asked, answer⟩, hallocation, heq⟩ := List.mem_map.1 hmem
  cases heq
  rw [h.allocations_eq (p.leads_accesses t w) hallocation]
  rfl

end Program

/-! ## 2. Single calls -/

/-- A key can be opened: the request is acceptable, volume and bucket are there, and the committed
record can be read if there is one. -/
structure KeyRequest.Openable (request : KeyRequest) (store : Store) : Prop where
  valid : request.validate = .ok ()
  volume : store.contains .volumes (ResourcePath.volume request.volume).tableKey = true
  bucket : store.contains .buckets request.bucketPath.tableKey = true
  committed : ∀ bytes, store.get .keys request.path.tableKey = some bytes →
    ∃ record, Stored.decode KeyRecord bytes = .ok record

structure KeyRequest.Extends (request : KeyRequest) (number : UInt64) (store : Store)
    (record : KeyRecord) : Prop where
  valid : request.validate = .ok ()
  opened : ∃ bytes, store.get .openKeys request.path.tableKey = some bytes ∧
    Stored.decode KeyRecord bytes = .ok record
  version : (record.version? number).isSome = true

variable (service : KeyService) {t : τ} {w : World S A τ} {request : KeyRequest} {number : UInt64}

/-- What is asked for when a key is opened: a block of the data size if one is given that is positive,
and otherwise of the size of the service. -/
def KeyService.firstAsk (request : KeyRequest) : AllocationRequest where
  size := if 0 < request.dataSize.getD 0 then request.dataSize.getD 0 else service.blockSize
  replicationType := request.replicationType
  replicationFactor := request.replicationFactor
  owner := service.serviceId

def KeyService.nextAsk (replicationType : ReplicationType)
    (replicationFactor : ReplicationFactor) : AllocationRequest where
  size := service.blockSize
  replicationType := replicationType
  replicationFactor := replicationFactor
  owner := service.serviceId

/-- What is stored can be read if there is nothing, or bytes that a record is decoded from. -/
theorem exists_readRecord_iff {γ : Type} [Stored γ] {bytes? : Option Bytes} :
    (∃ found?, readRecord γ (.ok bytes?) = .ok found?) ↔
      ∀ bytes, bytes? = some bytes → ∃ record, Stored.decode γ bytes = .ok record := by
  cases bytes? with
  | none => exact ⟨fun _ _ h => (by cases h), fun _ => ⟨none, rfl⟩⟩
  | some bytes =>
    simp only [readRecord, Option.some.injEq, forall_eq']
    cases Stored.decode γ bytes with
    | error e => simp [Except.map, Except.mapError]
    | ok record => exact ⟨fun _ => ⟨record, rfl⟩, fun _ => ⟨some record, rfl⟩⟩

theorem asked_checkBucketExists (hf : w.store.faults = []) (volume bucket : String)
    (k : Except OperationError Unit → Program α) :
    ((checkBucketExists volume bucket).followedBy k).asked t w =
      if w.store.store.contains .volumes (ResourcePath.volume volume).tableKey = true then
        if w.store.store.contains .buckets (ResourcePath.bucket volume bucket).tableKey = true then
          (k (.ok ())).asked t w
        else (k (.error (.resourceNotFound .bucket (bucketName volume bucket)))).asked t w
      else (k (.error (.resourceNotFound .volume volume))).asked t w := by
  cases hvolume : w.store.store.contains .volumes (ResourcePath.volume volume).tableKey with
  | false => simp [checkBucketExists, asked_contains hf, hvolume, Except.mapError]
  | true =>
    cases hbucket : w.store.store.contains .buckets
        (ResourcePath.bucket volume bucket).tableKey with
    | false => simp [checkBucketExists, asked_contains hf, hvolume, hbucket, Except.mapError]
    | true => simp [checkBucketExists, asked_contains hf, hvolume, hbucket, Except.mapError]

/-- What comes of an opening under its lock, where the continuation only gives the lock back. -/
theorem openKey_body_asks (hf : w.store.faults = []) (hv : request.validate = .ok ())
    {k : Except OperationError KeyRecord → Program α}
    (hk : ∀ e (w' : World S A τ), (k (.error e)).asked t w' = []) :
    let asked := ((do
      checkBucketExists request.volume request.bucket
      service.writeFirst request (← getKey request.path) :
        Operation KeyRecord).followedBy k).asked t w
    (request.Openable w.store.store ∧ ∃ rest, asked = service.firstAsk request :: rest) ∨
      ¬request.Openable w.store.store ∧ asked = [] := by
  intro asked
  have hasked : asked = ((checkBucketExists request.volume request.bucket).followedBy _).asked t w :=
    congrArg (fun p : Program α => p.asked t w) (bind_followedBy _ _)
  rw [asked_checkBucketExists hf] at hasked
  split at hasked
  · next hvolume =>
    split at hasked
    · next hbucket =>
      rw [onSuccess_ok, bind_followedBy, getKey, getRecord_followedBy, asked_get hf] at hasked
      cases hread : readRecord KeyRecord (.ok (w.store.store.get .keys request.path.tableKey)) with
      | error e =>
        rw [hread] at hasked
        refine .inr ⟨fun hopenable => ?_, hasked.trans (hk e w)⟩
        obtain ⟨committed?, hfound⟩ := exists_readRecord_iff.2 hopenable.committed
        rw [hread] at hfound
        cases hfound
      | ok committed? =>
        rw [hread, onSuccess_ok, KeyService.writeFirst, bind_followedBy,
          KeyService.allocateLocation_followedBy] at hasked
        rw [service.firstBlockSize_eq] at hasked
        exact .inl ⟨⟨hv, hvolume, hbucket, exists_readRecord_iff.1 ⟨_, hread⟩⟩, _, hasked⟩
    · next hbucket => exact .inr ⟨fun hopenable => hbucket hopenable.bucket, hasked.trans (hk _ w)⟩
  · next hvolume => exact .inr ⟨fun hopenable => hvolume hopenable.volume, hasked.trans (hk _ w)⟩

theorem openKey_asks (hf : w.store.faults = []) :
    let asked := ((Call.openKey request).program service).asked t w
    (request.Openable w.store.store → asked = [service.firstAsk request]) ∧
      (¬request.Openable w.store.store → asked = []) := by
  intro asked
  have hheeds : ((Call.openKey request).program service).Heeds Trace.Reports [] :=
    Call.heeds service rfl
  have hprogram : asked = ((Call.openKey request).program service).asked t w := rfl
  rw [Call.program, run_eq_followedBy, Call.operation, KeyService.openKey_eq] at hprogram
  simp only [map_followedBy, bind_followedBy (checked _), checked_followedBy] at hprogram
  cases hv : request.validate with
  | error e =>
    rw [hv] at hprogram
    refine ⟨fun hopenable => ?_, fun _ => hprogram⟩
    have hvalid := hopenable.valid
    rw [hv] at hvalid
    cases hvalid
  | ok u =>
    rw [hv] at hprogram
    simp only [Except.mapError, onSuccess_ok, locked_followedBy, asked_acquire] at hprogram
    have hcases := openKey_body_asks (w := (w.perform t (.acquire request.bucketPath .write)).2)
      service hf hv (t := t) (k := fun r => .step (.release request.bucketPath .write) fun _ =>
        .done (r.map Outcome.record)) fun _ _ => rfl
    rw [← hprogram] at hcases
    rcases hcases with ⟨hopenable, rest, hrest⟩ | ⟨hnot, hnone⟩
    · exact ⟨fun _ => hheeds.asked_eq hrest, fun hnot => absurd hopenable hnot⟩
    · exact ⟨fun hopenable => absurd hopenable hnot, fun _ => hnone⟩

/-- The open record that a request extends is the one that is read. -/
theorem KeyRequest.extends_iff {store : Store} {record : KeyRecord}
    (hv : request.validate = .ok ()) : request.Extends number store record ↔
      readRecord KeyRecord (.ok (store.get .openKeys request.path.tableKey)) = .ok (some record) ∧
        (record.version? number).isSome = true := by
  constructor
  · intro h
    obtain ⟨bytes, hget, hdecode⟩ := h.opened
    rw [hget, readRecord, hdecode]
    exact ⟨rfl, h.version⟩
  · intro h
    obtain ⟨bytes, hget, hdecode⟩ := readRecord_eq_ok_some h.1
    exact ⟨hv, ⟨bytes, Except.ok.inj hget, hdecode⟩, h.2⟩

theorem allocateBlock_asks (hf : w.store.faults = []) :
    let asked := ((Call.allocateBlock request number).program service).asked t w
    (∀ record, request.Extends number w.store.store record →
      asked = [service.nextAsk record.replicationType record.replicationFactor]) ∧
      ((∀ record, ¬request.Extends number w.store.store record) → asked = []) := by
  intro asked
  have hheeds : ((Call.allocateBlock request number).program service).Heeds Trace.Reports [] :=
    Call.heeds service rfl
  have hprogram : asked = ((Call.allocateBlock request number).program service).asked t w := rfl
  rw [Call.program, run_eq_followedBy, Call.operation, KeyService.allocateBlock_eq] at hprogram
  simp only [map_followedBy, bind_followedBy (checked _), checked_followedBy] at hprogram
  cases hv : request.validate with
  | error e =>
    rw [hv] at hprogram
    refine ⟨fun record hextends => ?_, fun _ => hprogram⟩
    have hvalid := hextends.valid
    rw [hv] at hvalid
    cases hvalid
  | ok u =>
    rw [hv] at hprogram
    simp only [Except.mapError, onSuccess_ok, locked_followedBy, asked_acquire, bind_followedBy,
      getOpenKey, getRecord_followedBy] at hprogram
    -- the locks are taken at once, and the store stays as it is
    let locked := (w.perform t (.acquire request.bucketPath .read)).2.perform t
      (.acquire request.path .write)
    have hlocked : asked = _ := hprogram.trans (asked_get (w := locked.2) hf ..)
    have hstore : locked.2.store.store = w.store.store := rfl
    rw [hstore] at hlocked
    simp only [KeyRequest.extends_iff hv]
    cases hread : readRecord KeyRecord
        (.ok (w.store.store.get .openKeys request.path.tableKey)) with
    | error e =>
      rw [hread] at hlocked
      exact ⟨fun record hextends => (by cases hextends.1), fun _ => hlocked⟩
    | ok open? =>
      rw [hread, onSuccess_ok] at hlocked
      cases hfound : open?.filter fun record => (record.version? number).isSome with
      | none =>
        rw [hfound] at hlocked
        refine ⟨fun record hextends => ?_, fun _ => hlocked⟩
        cases hextends.1
        exact absurd hextends.2 (Option.filter_eq_none_iff.1 hfound record rfl)
      | some record =>
        obtain ⟨hopen, hversion⟩ := Option.filter_eq_some_iff.1 hfound
        subst hopen
        simp only [hfound, KeyService.writeNext, bind_followedBy,
          KeyService.allocateLocation_followedBy] at hlocked
        refine ⟨fun record' hextends => ?_, fun hnot => absurd ⟨rfl, hversion⟩ (hnot record)⟩
        cases hextends.1
        exact hheeds.asked_eq hlocked

/-- No other call asks for a block. -/
theorem Call.asked_eq_nil {call : Call} (h : call.writesOpenKeys = false) :
    (call.program service).asked t w = [] := by
  unfold Program.asked
  rw [List.map_eq_nil_iff, Trace.allocations, List.filterMap_eq_nil_iff]
  intro access haccess
  obtain ⟨before, after, htrace⟩ := List.append_of_mem haccess
  have hleads := (call.program service).leads_accesses t w
  rw [htrace] at hleads
  have hkeeps := (Call.keepsTo service call).fair_at hleads fun _ _ => trivial
  cases access with
  | mk action answer =>
    cases action with
    | allocate request =>
      have hallocates : call.writesOpenKeys = true := hkeeps.2
      rw [h] at hallocates
      cases hallocates
    | _ => rfl

/-! ## 3. Sessions -/

def Entry.opening? (name : KeyName) (entry : Entry) : Option KeyRequest :=
  match entry.call, entry.result with
  | .openKey request, .ok _ => if request.name = name then some request else none
  | _, _ => none

def lastOpening? (name : KeyName) (entries : List Entry) : Option KeyRequest :=
  entries.reverse.findSome? (Entry.opening? name)

theorem lastOpening?_concat (name : KeyName) (entries : List Entry) (entry : Entry) :
    lastOpening? name (entries ++ [entry]) =
      (entry.opening? name <|> lastOpening? name entries) := by
  unfold lastOpening?
  rw [List.reverse_append, List.reverse_singleton, List.singleton_append, List.findSome?_cons]
  cases entry.opening? name <;> rfl

theorem Entry.opening?_eq_none {name : KeyName} {entry : Entry}
    (h : ∀ request outcome, entry.call = .openKey request → entry.result ≠ .ok outcome) :
    entry.opening? name = none := by
  unfold opening?
  split
  · next request outcome hcall hresult => exact absurd hresult (h request outcome hcall)
  · rfl

structure KeyRecord.ReplicatedAs (record : KeyRecord) (opening : KeyRequest) : Prop where
  type : record.replicationType = opening.replicationType
  factor : record.replicationFactor = opening.replicationFactor

theorem KeyRecord.ReplicatedAs.extendedRecord {record : KeyRecord} {opening : KeyRequest}
    (h : record.ReplicatedAs opening) (number : UInt64) (location : BlockLocation) (time : Int64) :
    (KeyService.extendedRecord record number location time).ReplicatedAs opening := by
  rw [KeyService.extendedRecord_eq]
  exact ⟨h.type, h.factor⟩

theorem KeyRecord.ReplicatedAs.of_decode {record found : KeyRecord} {opening : KeyRequest}
    (h : record.ReplicatedAs opening) (hpath : LawfulStored.fits record.path.text)
    (hdecode : Stored.decode KeyRecord (Stored.encode record) = .ok found) :
    found.ReplicatedAs opening := by
  obtain ⟨hvol, hbucket, hkey⟩ := record.fits_names hpath
  rw [(Stored.header_of_decode_encode hvol hbucket hkey hdecode).1]
  exact ⟨h.type, h.factor⟩

/-- Every open record has the replication that its key was opened with last. -/
structure Sessions (entries : List Entry) (store : Store) : Prop where
  filed : store.WellFiled
  opened : ∀ name : KeyName, name.Valid → ∀ bytes,
    store.get .openKeys name.path.tableKey = some bytes → ∃ record : KeyRecord,
      bytes = Stored.encode record ∧ LawfulStored.fits record.path.text ∧
      ∃ opening, lastOpening? name entries = some opening ∧ record.ReplicatedAs opening

/-- What is read of an open record has this replication, too. -/
theorem Sessions.read {entries : List Entry} {store : Store} (h : Sessions entries store)
    {name : KeyName} (hn : name.Valid) {bytes : Bytes} {record : KeyRecord}
    (hget : store.get .openKeys name.path.tableKey = some bytes)
    (hdecode : Stored.decode KeyRecord bytes = .ok record) :
    ∃ opening, lastOpening? name entries = some opening ∧ record.ReplicatedAs opening := by
  obtain ⟨written, hbytes, hpath, opening, hlast, hreplicated⟩ := h.opened name hn bytes hget
  subst hbytes
  exact ⟨opening, hlast, hreplicated.of_decode hpath hdecode⟩

/-- Where nothing was opened and no open record has changed, the sessions are what they were. -/
theorem Sessions.congr {entries : List Entry} {entry : Entry} {store store' : Store}
    (h : Sessions entries store) (hfiled : store'.WellFiled)
    (hopen : ∀ key, store'.get .openKeys key = store.get .openKeys key)
    (hentry : ∀ name, entry.opening? name = none) : Sessions (entries ++ [entry]) store' where
  filed := hfiled
  opened name hn bytes hget := by
    rw [hopen] at hget
    simp only [lastOpening?_concat, hentry]
    exact h.opened name hn bytes hget

variable {service} {entries : List Entry}

omit [DecidableEq τ] in
/-- What was opened or extended is a session with the replication of its opening. -/
theorem Sessions.of_writes {call : Call} {outcome : Outcome} {before : Trace} {record : KeyRecord}
    {store' : Store} (h : Sessions entries w.store.store) (hfiled : store'.WellFiled)
    (hrequest : call.request? = some request) (hv : request.validate = .ok ())
    (hfits : LawfulStored.fits request.path.text)
    (hwrites : call.Writes service before record outcome)
    (hread : ∀ table key found, ⟨.get table key, .ok found⟩ ∈ before →
      w.store.store.get table key = found)
    (hget : ∀ key, store'.get .openKeys key =
      if record.path.tableKey = key then some (Stored.encode record)
      else w.store.store.get .openKeys key) (time : Int64) :
    Sessions (entries ++ [⟨call, time, .ok outcome⟩]) store' where
  filed := hfiled
  opened name hn bytes hbytes := by
    rw [hget, hwrites.get_of_name hrequest hv hn] at hbytes
    have hpath : record.path = request.path := hwrites.path hrequest
    rw [lastOpening?_concat]
    by_cases hname : request.name = name
    · subst hname
      rw [if_pos rfl] at hbytes
      refine ⟨record, (Option.some.inj hbytes).symm, hpath ▸ hfits, ?_⟩
      cases hwrites with
      | first =>
        cases hrequest
        exact ⟨request, congrArg (· <|> _) (if_pos rfl), rfl, rfl⟩
      | @next _ _ bytes found _ _ _ hdecode _ hversion =>
        cases hrequest
        -- the record that was read is of the same session
        have hopen := hread .openKeys request.path.tableKey (some bytes)
          (by simp [KeyService.extending])
        obtain ⟨opening, hlast, hreplicated⟩ := h.read (KeyRequest.name_valid hv) hopen hdecode
        exact ⟨opening, hlast, hreplicated.extendedRecord _ _ _⟩
    · rw [if_neg hname] at hbytes
      have hnone : Entry.opening? name ⟨call, time, .ok outcome⟩ = none := by
        cases hwrites with
        | first =>
          cases hrequest
          exact if_neg hname
        | next => rfl
      rw [hnone]
      exact h.opened name hn bytes hbytes

/-- A call that opens, extends or looks up keys, creates volumes and buckets, or writes a committed
record, with texts that can be stored. -/
def Call.KeepsSessions : Call → Prop
  | putKey _ => True
  | call => call.isGuarded = true ∧
    ∀ request, call.request? = some request → LawfulStored.fits request.path.text

theorem sessions_of_guarded {call : Call} (h : Sessions entries w.store.store)
    (hg : call.isGuarded = true)
    (hfits : ∀ request, call.request? = some request → LawfulStored.fits request.path.text)
    (time : Int64) :
    Sessions (entries ++ [⟨call, time, ((call.program service).runAlone t w).1⟩])
      ((call.program service).runAlone t w).2.store.store := by
  obtain ⟨trace, hruns, -, hfiled, hkeys⟩ := Call.runsBy_runAlone (t := t) hg hfits h.filed
  cases hw : call.writesOpenKeys with
  | false =>
    refine h.congr hfiled (hruns.get_openKeys hg hw) fun name => Entry.opening?_eq_none ?_
    intro request outcome hcall
    have hopens : call = .openKey request := hcall
    rw [hopens] at hw
    cases hw
  | true =>
    cases hr : ((call.program service).runAlone t w).1 with
    | error e =>
      rw [hr] at hruns
      exact h.congr hfiled (hruns.get_of_error hw .openKeys) fun name =>
        Entry.opening?_eq_none fun _ _ _ => nofun
    | ok outcome =>
      rw [hr] at hruns
      obtain ⟨before, record, hwrites, hvalid, _, hread, hget⟩ := hruns.get_of_ok hw
      obtain ⟨request, hrequest⟩ := Call.exists_request hw
      exact h.of_writes hfiled hrequest (hvalid request hrequest) (hfits request hrequest) hwrites
        hread hget time

theorem sessions_of_putKey (h : Sessions entries w.store.store) (record : KeyRecord)
    (time : Int64) :
    Sessions (entries ++ [⟨.putKey record, time,
        (((Call.putKey record).program service).runAlone t w).1⟩])
      (((Call.putKey record).program service).runAlone t w).2.store.store := by
  rw [putKey_program]
  have hnone : ∀ result name, Entry.opening? name ⟨.putKey record, time, result⟩ = none :=
    fun _ _ => rfl
  have hput := runAlone_put (t := t) (w := w) .keys record.path.tableKey (Stored.encode record)
  rcases hput with ⟨e, -, hstore⟩ | ⟨-, hstore⟩
  · rw [hstore]
    exact h.congr h.filed (fun _ => rfl) (hnone _)
  · rw [hstore]
    refine h.congr (h.filed.put nofun) (fun key => ?_) (hnone _)
    rw [Store.get_put, if_neg fun hsame => nomatch hsame.1]

theorem sessions_attend (h : Sessions entries w.store.store) {occasion : Occasion S A τ}
    (hcall : occasion.call.KeepsSessions) :
    Sessions (entries ++ [(w.attend service occasion).1])
      (w.attend service occasion).2.store.store := by
  cases occasion with
  | mk t around call =>
    have h' : Sessions entries (w.within around).store.store := h
    cases call with
    | putKey record => exact sessions_of_putKey h' record around.clock
    | _ => exact sessions_of_guarded h' hcall.1 hcall.2 around.clock

theorem sessions_chronicle (h : Sessions entries w.store.store)
    {occasions : List (Occasion S A τ)}
    (hcalls : ∀ occasion ∈ occasions, occasion.call.KeepsSessions) :
    Sessions (entries ++ (w.chronicle service occasions).1)
      (w.chronicle service occasions).2.store.store := by
  induction occasions generalizing w entries with
  | nil =>
    show Sessions (entries ++ []) w.store.store
    rwa [List.append_nil]
  | cons occasion rest ih =>
    rw [List.forall_mem_cons] at hcalls
    have hattended : Sessions (entries ++ [(w.attend service occasion).1])
        (w.attend service occasion).2.store.store := sessions_attend h hcalls.1
    have hrest := ih hattended hcalls.2
    rw [List.append_assoc] at hrest
    exact hrest

/-! ## 4. All calls -/

/-- What a call asks for, after some entries and over a store. -/
def Call.Asks (service : KeyService) (entries : List Entry) (store : Store)
    (asked : List AllocationRequest) : Call → Prop
  | openKey request =>
    (request.Openable store → asked = [service.firstAsk request]) ∧
      (¬request.Openable store → asked = [])
  | allocateBlock request number =>
    ((∃ record, request.Extends number store record) →
      ∃ opening, lastOpening? request.name entries = some opening ∧
        asked = [service.nextAsk opening.replicationType opening.replicationFactor]) ∧
      ((∀ record, ¬request.Extends number store record) → asked = [])
  | _ => asked = []

theorem Sessions.asks (h : Sessions entries w.store.store) (hf : w.store.faults = [])
    (call : Call) : call.Asks service entries w.store.store
      ((call.program service).asked t w) := by
  cases call with
  | openKey request => exact openKey_asks service hf
  | allocateBlock request number =>
    obtain ⟨hextends, hnot⟩ := allocateBlock_asks service hf
    refine ⟨fun ⟨record, hrecord⟩ => ?_, hnot⟩
    have ⟨bytes, hget, hdecode⟩ := hrecord.opened
    have ⟨opening, hlast, hreplicated⟩ := h.read (KeyRequest.name_valid hrecord.valid) hget hdecode
    refine ⟨opening, hlast, ?_⟩
    rw [← hreplicated.type, ← hreplicated.factor]
    exact hextends record hrecord
  | _ => exact Call.asked_eq_nil service rfl

/-- A call that asks as it should asks for one block at most, in the name of the service. -/
theorem Call.Asks.once {call : Call} {store : Store} {asked : List AllocationRequest}
    (h : call.Asks service entries store asked) :
    asked = [] ∨ ∃ request, asked = [request] ∧ request.owner = service.serviceId := by
  cases call with
  | openKey request =>
    by_cases hopenable : request.Openable store
    · exact .inr ⟨_, h.1 hopenable, rfl⟩
    · exact .inl (h.2 hopenable)
  | allocateBlock request number =>
    by_cases hextends : ∃ record, request.Extends number store record
    · have ⟨opening, _, hasked⟩ := h.1 hextends
      exact .inr ⟨_, hasked, rfl⟩
    · exact .inl (h.2 fun record hrecord => hextends ⟨record, hrecord⟩)
  | _ => exact .inl h

/-- From a table without open keys on, whatever calls are made, whatever they are answered and
however they turn out: over a store that does not fail, a call asks for one block at most, in the
name of the service.  Opening a key asks for it exactly if the key can be opened, for the size that
is requested or else that of the service, and with the replication that is requested.  Extending a
key asks exactly if its open record has the version, for the size of the service, and with the
replication that the key was opened with last; whatever is open has this replication.  Nothing else
asks for a block. -/
theorem World.chronicle_asks (service : KeyService) (w : World S A τ)
    (hempty : ∀ key, w.store.store.get .openKeys key = none)
    (earlier : List (Occasion S A τ)) (occasion : Occasion S A τ)
    (hcalls : ∀ occasion' ∈ earlier, occasion'.call.KeepsSessions)
    (hfaults : occasion.around.faults = []) :
    let past := w.chronicle service earlier
    let asked := (occasion.call.program service).asked occasion.thread
      (past.2.within occasion.around)
    occasion.call.Asks service past.1 past.2.store.store asked ∧
      (asked = [] ∨ ∃ request, asked = [request] ∧ request.owner = service.serviceId) ∧
      ∀ name : KeyName, name.Valid → ∀ bytes record,
        past.2.store.store.get .openKeys name.path.tableKey = some bytes →
        Stored.decode KeyRecord bytes = .ok record →
        ∃ opening, lastOpening? name past.1 = some opening ∧ record.ReplicatedAs opening := by
  intro past asked
  have hstart : Sessions [] w.store.store := by
    constructor
    · rintro table key value hget rfl
      rw [hempty] at hget
      cases hget
    · intro name _ bytes hget
      rw [hempty] at hget
      cases hget
  have hsessions : Sessions past.1 past.2.store.store := sessions_chronicle hstart hcalls
  have hasks : occasion.call.Asks service past.1 past.2.store.store asked :=
    Sessions.asks (w := past.2.within occasion.around) hsessions hfaults occasion.call
  exact ⟨hasks, hasks.once, fun name hn bytes record hget hdecode => hsessions.read hn hget hdecode⟩

/-- A key is opened for Alice, with a block of the data size, and extended with a request that speaks
of another replication and size: the next block is asked for as the key was opened, in the size and
the name of the service. -/
theorem World.chronicle_asks_session :
    let occasion := fun localId call =>
      ({ thread := (), call, around := {
        faults := [], allocator := (⟨7, localId, false⟩ : LocalAllocator), clock := 5
        ownTokenClock := none, authority := none } } : Occasion ed25519 localAllocation Unit)
    let request : KeyRequest := {
      volume := "v", bucket := "b", key := "k", dataSize := some 60, replicationType := .ratis
      replicationFactor := .three, user := some "alice" }
    let first := occasion 1 (.openKey request)
    let earlier := [occasion 1 (.createVolume "v" "alice"), occasion 1 (.createBucket "v" "b")]
    let next := occasion 2 (.allocateBlock
      { request with dataSize := some 7, replicationType := .chained, replicationFactor := .one } 1)
    let w : World ed25519 localAllocation Unit := {
      store := { store := .memory {} }, allocator := (⟨7, 1, false⟩ : LocalAllocator), clock := 5 }
    let asked := fun (past : List Entry × World ed25519 localAllocation Unit)
        (now : Occasion ed25519 localAllocation Unit) =>
      (now.call.program {}).asked () (past.2.within now.around)
    let past := w.chronicle {} earlier
    let past' := w.chronicle {} (earlier ++ [first])
    (∀ key, w.store.store.get .openKeys key = none) ∧
      (∀ occasion' ∈ earlier ++ [first], occasion'.call.KeepsSessions) ∧
      first.around.faults = [] ∧ next.around.faults = [] ∧
      asked past first = [⟨60, .ratis, .three, "om1"⟩] ∧
      first.call.Asks {} past.1 past.2.store.store (asked past first) ∧
      asked past' next = [⟨268435456, .ratis, .three, "om1"⟩] ∧
      next.call.Asks {} past'.1 past'.2.store.store (asked past' next) := by
  intro occasion request first earlier next w asked past past'
  have hempty : ∀ key, w.store.store.get .openKeys key = none := fun _ => rfl
  have hcalls : ∀ occasion' ∈ earlier ++ [first], occasion'.call.KeepsSessions := by
    have hfits : LawfulStored.fits request.path.text :=
      (by decide : (Bytes.ofText request.path.text).length < 256 ^ 8)
    simp only [earlier, List.cons_append, List.nil_append, List.forall_mem_cons]
    refine ⟨⟨rfl, fun _ hr => (by cases hr)⟩, ⟨rfl, fun _ hr => (by cases hr)⟩, ⟨rfl, ?_⟩,
      fun _ hmem => absurd hmem List.not_mem_nil⟩
    exact fun _ hr => Option.some.inj hr ▸ hfits
  have hcalls' : ∀ occasion' ∈ earlier, occasion'.call.KeepsSessions :=
    fun occasion' hmem => hcalls occasion' (List.mem_append_left _ hmem)
  have hfirst : asked past first = [⟨60, .ratis, .three, "om1"⟩] := by decide +kernel
  have hnext : asked past' next = [⟨268435456, .ratis, .three, "om1"⟩] := by decide +kernel
  exact ⟨hempty, hcalls, rfl, rfl, hfirst, (chronicle_asks {} w hempty earlier first hcalls' rfl).1,
    hnext, (chronicle_asks {} w hempty (earlier ++ [first]) next hcalls rfl).1⟩

end ObjectMeta
