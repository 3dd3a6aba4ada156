import ObjectMeta.Proofs.Operation.Guarded
import ObjectMeta.Proofs.Path

/-!
# Calls nest their locks and write last

Whatever the answers are, a guarded call takes each lock below those that it holds and gives the
latest back first, deletes nothing, and reads nothing once it has written (`Program.Nested`).  It
comes to an end without a lock; it has written nothing if it fails, and if it succeeds one entry or,
for a look-up, none (`Call.Concludes`).  Nothing is assumed of the store here: what is read may be
misfiled or no record at all.
-/

namespace ObjectMeta

open Operation Program

/-! ## 1. Nested programs -/

/-- A lock is taken below those in hand, the latest is given back first, what is read was not
written before, and nothing is deleted. -/
def Action.Nests (trace : Trace) : Action → Prop
  | acquire path _ => ∀ guard ∈ trace.held, guard.path.depth < path.depth
  | release path mode => ∃ rest, trace.held = ⟨path, mode⟩ :: rest
  | get .. | contains .. => trace.puts = []
  | delete .. => False
  | _ => True

variable {α : Type}

namespace Program

/-- Every action from here on nests, and the value is good for the whole trace. -/
def Nested (good : Trace → α → Prop) : Trace → Program α → Prop :=
  Always (fun _ => True) (fun trace action => action.Nests trace) good

variable {good : Trace → α → Prop}

@[simp] theorem nested_done {trace : Trace} {value : α} :
    (done value).Nested good trace ↔ good trace value := Iff.rfl

@[simp] theorem nested_step {trace : Trace} {action : Action}
    {next : action.Answer → Program α} :
    (step action next).Nested good trace ↔ action.Nests trace ∧
      ∀ answer, (next answer).Nested good (trace ++ [⟨action, answer⟩]) := by
  unfold Nested
  rw [Always]
  simp only [forall_true_left]

end Program

/-! ## 2. What a call leaves behind -/

/-- The entry that a call which succeeds leaves in the tables, if it leaves one, where `found` tells
what the call may have read as open keys.  A block is added to the record that was found under the
path of the request, and the record goes where its own names say. -/
inductive Call.Leaves (found : Bytes → Bytes → Prop) :
    Call → Outcome → Option (Table × Bytes × Bytes) → Prop where
  | volume {volume owner : String} {info : VolumeInfo} (name : info.name = volume) :
      Leaves found (.createVolume volume owner) (.volume info)
        (some (.volumes, (ResourcePath.volume volume).tableKey, Stored.encode info))
  | bucket {volume bucket : String} {info : BucketInfo}
      (names : info.volume = volume ∧ info.name = bucket) :
      Leaves found (.createBucket volume bucket) (.bucket info)
        (some (.buckets, (ResourcePath.bucket volume bucket).tableKey, Stored.encode info))
  | opened {request : KeyRequest} {record : KeyRecord} (path : record.path = request.path) :
      Leaves found (.openKey request) (.record record)
        (some (.openKeys, request.path.tableKey, Stored.encode record))
  | extended {request : KeyRequest} {number : UInt64} {bytes : Bytes} {record : KeyRecord}
      {location : BlockLocation} (time : Int64) (read : found request.path.tableKey bytes)
      (decoded : Stored.decode KeyRecord bytes = .ok record)
      (version : (record.version? number).isSome = true) :
      Leaves found (.allocateBlock request number) (.location location)
        (some (.openKeys, record.path.tableKey,
          Stored.encode (KeyService.extendedRecord record number location time)))
  | lookedUp {request : KeyRequest} {record : KeyRecord} :
      Leaves found (.lookupKey request) (.record record) none

def Trace.Found (trace : Trace) (key bytes : Bytes) : Prop :=
  ⟨.get .openKeys key, .ok (some bytes)⟩ ∈ trace

/-- How a call ends: it fails and has written nothing, or it leaves its entry. -/
def Call.Concludes (call : Call) (trace : Trace) : Except OperationError Outcome → Prop
  | .error _ => trace.puts = []
  | .ok outcome => ∃ change?, call.Leaves trace.Found outcome change? ∧ trace.puts = change?.toList

variable {call : Call} {trace : Trace} {path : ResourcePath} {mode : LockMode}
  {held : List LockGuard} {wrap : α → Outcome}

theorem Call.Leaves.mono {found found' : Bytes → Bytes → Prop} {outcome : Outcome}
    {change? : Option (Table × Bytes × Bytes)} (h : call.Leaves found outcome change?)
    (hfound : ∀ key bytes, found key bytes → found' key bytes) :
    call.Leaves found' outcome change? := by
  cases h with
  | volume name => exact .volume name
  | bucket names => exact .bucket names
  | opened path => exact .opened path
  | extended time read decoded version =>
    exact .extended time (hfound _ _ read) decoded version
  | lookedUp => exact .lookedUp

theorem Call.Concludes.release {r : Except OperationError Outcome} (h : call.Concludes trace r) :
    call.Concludes (trace ++ [⟨.release path mode, ()⟩]) r := by
  have hputs : Trace.puts (trace ++ [⟨.release path mode, ()⟩]) = trace.puts := by
    rw [Trace.puts_append]
    exact List.append_nil _
  cases r with
  | error e => exact hputs.trans h
  | ok outcome =>
    obtain ⟨change?, hleaves, hchange⟩ := h
    exact ⟨change?, hleaves.mono fun _ _ => List.mem_append_left _, hputs.trans hchange⟩

def Call.Finishes (call : Call) (wrap : α → Outcome) (held : List LockGuard) (trace : Trace)
    (r : Except OperationError α) : Prop :=
  trace.held = held ∧ call.Concludes trace (r.map wrap)

/-! ## 3. Nesting -/

/-- A body that ends with the lock in hand ends without it once the lock is given back. -/
theorem locked_nested {body : Operation α}
    (hdepth : ∀ guard ∈ trace.held, guard.path.depth < path.depth)
    (hbody : body.run.Nested (call.Finishes wrap (⟨path, mode⟩ :: trace.held))
      (trace ++ [⟨.acquire path mode, ()⟩])) :
    (locked path mode body).run.Nested (call.Finishes wrap trace.held) trace := by
  refine locked_always hdepth hbody fun trace' r hends => ?_
  rcases hends with ⟨hheld, hends⟩
  -- the lock is the latest in hand still, so what was in hand before is what is left
  have hleft : Trace.held (trace' ++ [⟨.release path mode, ()⟩]) = trace.held := by
    rw [Trace.held_append, hheld]
    exact List.erase_cons_head ..
  exact ⟨⟨trace.held, hheld⟩, hleft, hends.release⟩

/-- A single lock, taken with nothing in hand. -/
theorem locked_nested_nil {body : Operation α}
    (hbody : body.run.Nested (call.Finishes wrap [⟨path, mode⟩]) [⟨.acquire path mode, ()⟩]) :
    (locked path mode body).run.Nested (call.Finishes wrap []) [] :=
  locked_nested (fun _ hg => absurd hg List.not_mem_nil) hbody

/-- Two locks, the finer one below the coarser. -/
theorem locked_locked_nested {path' : ResourcePath} {mode' : LockMode} {body : Operation α}
    (hdepth : path.depth < path'.depth)
    (hbody : body.run.Nested (call.Finishes wrap [⟨path', mode'⟩, ⟨path, mode⟩])
      [⟨.acquire path mode, ()⟩, ⟨.acquire path' mode', ()⟩]) :
    (locked path mode (locked path' mode' body)).run.Nested (call.Finishes wrap []) [] := by
  apply locked_nested_nil
  apply locked_nested _ hbody
  intro guard hg
  rw [List.mem_singleton.1 hg]
  exact hdepth

/-- From its start a call nests its locks, and it ends without any. -/
def Call.Nested (service : KeyService) (call : Call) : Prop :=
  (call.program service).Nested (fun trace r => trace.held = [] ∧ call.Concludes trace r) []

/-! ## 4. The guarded calls -/

variable (service : KeyService)

theorem KeyRequest.depth_bucketPath_lt {request : KeyRequest} (h : request.validate = .ok ()) :
    request.bucketPath.depth < request.path.depth := by
  obtain ⟨hvol, hbucket, -⟩ := request.validate_eq_ok h
  unfold bucketPath KeyRequest.path
  rw [ResourcePath.depth_bucket hvol hbucket, ResourcePath.depth_key hvol hbucket]
  decide

theorem createVolume_nested (volume owner : String) :
    (Call.createVolume volume owner).Nested service := by
  refine Call.always_of_operation rfl (checked_always (fun e => ⟨rfl, rfl⟩) fun _ =>
    locked_nested_nil ?_)
  rw [run_eq_followedBy]
  simp [Except.mapError, Except.map, Action.Nests, Call.Finishes, Call.Concludes, Trace.held,
    Trace.puts, Access.heldAfter, Access.put?]
  exact fun _ _ => ⟨_, .volume rfl, rfl⟩

theorem createBucket_nested (volume bucket : String) :
    (Call.createBucket volume bucket).Nested service := by
  refine Call.always_of_operation rfl (checked_always (fun e => ⟨rfl, rfl⟩) fun hv =>
    checked_always (fun e => ⟨rfl, rfl⟩) fun hb => locked_locked_nested ?_ ?_)
  · have hvol := validateVolumeName_eq_ok_iff.1 hv
    have hbucket := validateBucketName_eq_ok_iff.1 hb
    rw [ResourcePath.depth_volume hvol, ResourcePath.depth_bucket hvol hbucket]
    decide
  · rw [run_eq_followedBy]
    simp [Except.mapError, Except.map, Action.Nests, Call.Finishes, Call.Concludes, Trace.held,
      Trace.puts, Access.heldAfter, Access.put?]
    exact fun _ _ => ⟨_, .bucket ⟨rfl, rfl⟩, rfl⟩

theorem openKey_nested (request : KeyRequest) : (Call.openKey request).Nested service := by
  refine Call.always_of_operation rfl ?_
  rw [KeyService.openKey_eq]
  refine checked_always (fun e => ⟨rfl, rfl⟩) fun _ => locked_nested_nil ?_
  rw [run_eq_followedBy]
  -- Every way to fail before the committed key is read leaves the tables alone.
  simp [Except.mapError, Except.map, checkBucketExists, getKey, Action.Nests, Call.Finishes,
    Call.Concludes, Trace.held, Trace.puts, Access.heldAfter, Access.put?]
  intro value
  cases readRecord KeyRecord (.ok value) with
  | error e => exact ⟨rfl, rfl⟩
  | ok committed? =>
    simp [KeyService.writeFirst, putOpenKey, Except.mapError, Except.map, Action.Nests,
      Call.Concludes, Call.Finishes, Trace.held, Trace.puts, Access.heldAfter, Access.put?]
    exact fun _ _ _ _ => ⟨_, .opened rfl, rfl⟩

theorem allocateBlock_nested (request : KeyRequest) (number : UInt64) :
    (Call.allocateBlock request number).Nested service := by
  refine Call.always_of_operation rfl ?_
  rw [KeyService.allocateBlock_eq]
  refine checked_always (fun e => ⟨rfl, rfl⟩) fun hv =>
    locked_locked_nested (KeyRequest.depth_bucketPath_lt hv) ?_
  rw [run_eq_followedBy, bind_followedBy, getOpenKey, getRecord_followedBy, nested_step]
  refine ⟨rfl, fun answer => ?_⟩
  cases hr : readRecord KeyRecord answer with
  | error e => exact ⟨rfl, rfl⟩
  | ok found =>
    rw [onSuccess_ok]
    split
    · next record hrecord =>
      obtain ⟨bytes, rfl, hdecode, hversion⟩ := readRecord_filter_eq_some hr hrecord
      simp [KeyService.writeNext, putOpenKey, Except.mapError, Except.map, Action.Nests,
        Call.Concludes, Call.Finishes, Trace.held, Trace.puts, Access.heldAfter, Access.put?]
      intro block token time _
      -- whatever names the record has, it is written where they say
      have hpath := extendedRecord_path record number
        (KeyService.locationOf block service.blockSize token) time
      refine ⟨_, .extended time (by simp [Trace.Found]) hdecode hversion, ?_⟩
      rw [← hpath]
      rfl
    · exact ⟨rfl, rfl⟩

theorem refreshed_nested {request : KeyRequest} (record : KeyRecord) (hheld : trace.held = held)
    (hputs : trace.puts = []) : (service.refreshed request record).run.Nested
      ((Call.lookupKey request).Finishes .record held) trace := by
  let inv : Trace → Prop := fun trace => trace.held = held ∧ trace.puts = []
  have hinv : inv trace := ⟨hheld, hputs⟩
  rw [run_eq_followedBy, KeyService.refreshed, map_followedBy]
  refine refreshTokens_always service request record.latestLocations
    (fun _ _ _ _ _ => trivial) ?_ ?_ hinv
  · intro trace owner block length answer h
    rcases h with ⟨hheld, hputs⟩
    show Trace.held _ = held ∧ Trace.puts _ = []
    rw [Trace.held_append, Trace.puts_append, hheld, hputs]
    exact ⟨rfl, rfl⟩
  · intro trace r h
    rcases h with ⟨hheld, hputs⟩
    cases r with
    | error e => exact ⟨hheld, hputs⟩
    | ok fresh => exact ⟨hheld, none, .lookedUp, hputs⟩

theorem lookupKey_nested (request : KeyRequest) : (Call.lookupKey request).Nested service := by
  refine Call.always_of_operation rfl ?_
  rw [KeyService.lookupKey_eq]
  refine checked_always (fun e => ⟨rfl, rfl⟩) fun hv =>
    locked_locked_nested (KeyRequest.depth_bucketPath_lt hv) ?_
  rw [run_eq_followedBy, bind_followedBy, getKey, getRecord_followedBy, nested_step]
  refine ⟨rfl, fun answer => ?_⟩
  obtain e | (_ | record) := readRecord KeyRecord answer
  · exact ⟨rfl, rfl⟩
  · rw [onSuccess_ok, bind_followedBy]
    cases service.lookupOpenKeys with
    | false => exact ⟨rfl, rfl⟩
    | true =>
      rw [if_pos rfl, getOpenKey, getRecord_followedBy, nested_step]
      refine ⟨rfl, fun answer => ?_⟩
      obtain e | (_ | record) := readRecord KeyRecord answer
      · exact ⟨rfl, rfl⟩
      · exact ⟨rfl, rfl⟩
      · rw [onSuccess_ok, ← run_eq_followedBy]
        exact refreshed_nested service record rfl rfl
  · rw [onSuccess_ok, ← run_eq_followedBy]
    exact refreshed_nested service record rfl rfl

/-- A guarded call nests its locks and comes to an end without any, and it leaves nothing behind but
the entry that it returns. -/
theorem Call.nested {call : Call} (hg : call.isGuarded = true) : call.Nested service := by
  cases call with
  | createVolume volume owner => exact createVolume_nested service volume owner
  | createBucket volume bucket => exact createBucket_nested service volume bucket
  | openKey request => exact openKey_nested service request
  | allocateBlock request number => exact allocateBlock_nested service request number
  | lookupKey request => exact lookupKey_nested service request
  | _ => cases hg

/-- What a guarded call writes is what it would leave behind. -/
theorem Call.exists_leaves_of_put {call : Call} (hg : call.isGuarded = true) {trace : Trace}
    {table : Table} {key value : Bytes}
    {next : Except StoreError Unit → Program (Except OperationError Outcome)}
    (hl : (call.program service).Leads trace (.step (.put table key value) next)) :
    ∃ found outcome, call.Leaves found outcome (some (table, key, value)) := by
  -- the write may succeed, and the call then comes to some end
  obtain ⟨rest, result, hrest⟩ := exists_leads_done (next (.ok ()))
  have hends := Always.of_leads (Call.nested service hg) ((hl.concat (.ok ())).append hrest)
    fun _ _ => trivial
  rw [List.nil_append] at hends
  have hconcludes := hends.2
  have hmem : (table, key, value) ∈
      Trace.puts (trace ++ [⟨.put table key value, .ok ()⟩] ++ rest) := by
    rw [Trace.puts_append, Trace.puts_append]
    exact List.mem_append_left _ (List.mem_append_right _ (List.mem_singleton_self _))
  cases result with
  | error e =>
    rw [show Trace.puts _ = [] from hconcludes] at hmem
    exact absurd hmem List.not_mem_nil
  | ok outcome =>
    obtain ⟨change?, hleaves, hputs⟩ := hconcludes
    rw [hputs, Option.mem_toList] at hmem
    cases hmem
    exact ⟨_, outcome, hleaves⟩

end ObjectMeta
