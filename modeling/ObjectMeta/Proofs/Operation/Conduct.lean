import ObjectMeta.Proofs.Operation.Guarded

/-!
# What opening and extending a key do

A call that opens or extends a key takes its locks first, asks for one block, and writes one record
when all else has succeeded, under the path of its request (`Call.Conducts`, `Call.Writes`).  It
returns a record or a block exactly if it wrote (`Call.Ends`).  No other guarded call writes open
keys.
-/

namespace ObjectMeta

open Operation Program

namespace KeyService

variable (service : KeyService) (request : KeyRequest)

/-! ## 1. Traces up to the write -/

def opening (committed : Option Bytes) (block : BlockId) (token : Option BlockToken)
    (time : Int64) : Trace :=
  [⟨.acquire request.bucketPath .write, ()⟩,
    ⟨.contains .volumes (ResourcePath.volume request.volume).tableKey, .ok true⟩,
    ⟨.contains .buckets (ResourcePath.bucket request.volume request.bucket).tableKey, .ok true⟩,
    ⟨.get .keys request.path.tableKey, .ok committed⟩,
    ⟨.allocate {
        size := service.firstBlockSize request
        replicationType := request.replicationType
        replicationFactor := request.replicationFactor
        owner := service.serviceId }, .ok block⟩,
    ⟨.mint (service.tokenOwner request) block (service.firstBlockSize request), .ok token⟩,
    ⟨.now, time⟩]

def extending (bytes : Bytes) (record : KeyRecord) (block : BlockId) (token : Option BlockToken)
    (time : Int64) : Trace :=
  [⟨.acquire request.bucketPath .read, ()⟩,
    ⟨.acquire request.path .write, ()⟩,
    ⟨.get .openKeys request.path.tableKey, .ok (some bytes)⟩,
    ⟨.allocate {
        size := service.blockSize
        replicationType := record.replicationType
        replicationFactor := record.replicationFactor
        owner := service.serviceId }, .ok block⟩,
    ⟨.mint (service.tokenOwner request) block service.blockSize, .ok token⟩,
    ⟨.now, time⟩]

end KeyService

variable (service : KeyService)

/-- After a trace the call is about to write a record, and to return an outcome if it can. -/
inductive Call.Writes : Call → Trace → KeyRecord → Outcome → Prop where
  | first {request : KeyRequest} {committed : Option Bytes} {committed? : Option KeyRecord}
      {block : BlockId} {token : Option BlockToken} {time : Int64}
      (read : readRecord KeyRecord (.ok committed) = .ok committed?) :
      Writes (.openKey request) (service.opening request committed block token time)
        (KeyService.firstRecord request committed?
          (KeyService.locationOf block (service.firstBlockSize request) token) time)
        (.record (KeyService.firstRecord request committed?
          (KeyService.locationOf block (service.firstBlockSize request) token) time))
  | next {request : KeyRequest} {number : UInt64} {bytes : Bytes} {record : KeyRecord}
      {block : BlockId} {token : Option BlockToken} {time : Int64}
      (read : Stored.decode KeyRecord bytes = .ok record) (path : record.path = request.path)
      (version : (record.version? number).isSome = true) :
      Writes (.allocateBlock request number)
        (service.extending request bytes record block token time)
        (KeyService.extendedRecord record number
          (KeyService.locationOf block service.blockSize token) time)
        (.location (KeyService.locationOf block service.blockSize token))

abbrev KeyRecord.putOpen (record : KeyRecord) : Action :=
  .put .openKeys record.path.tableKey (Stored.encode record)

/-- The locks that a call that opens or extends a key takes, each after those before it. -/
def Call.Acquires : Call → Trace → ResourcePath → LockMode → Prop
  | openKey request, trace, path, mode => trace = [] ∧ path = request.bucketPath ∧ mode = .write
  | allocateBlock request _, trace, path, mode =>
    trace = [] ∧ path = request.bucketPath ∧ mode = .read ∨
      trace = [⟨.acquire request.bucketPath .read, ()⟩] ∧ path = request.path ∧ mode = .write
  | _, _, _, _ => False

/-- What a call that opens or extends a key may do after a trace: take its locks in order, allocate
while it holds one and before it writes, and write the record that it has made. -/
def Call.Conducts (call : Call) (trace : Trace) : Action → Prop
  | .acquire path mode => call.Acquires trace path mode ∧
    ∀ request, call.request? = some request → request.validate = .ok ()
  | .put table key value => ∃ record outcome, call.Writes service trace record outcome ∧
    Action.put table key value = record.putOpen
  | .allocate _ => trace.held ≠ [] ∧ trace.puts = []
  | _ => trace.held ≠ []

/-- How a call that opens or extends a key ends: it fails and has written nothing, or it has written
its record and returns what it made. -/
def Call.Ends (call : Call) (trace : Trace) : Except OperationError Outcome → Prop
  | .error _ => trace.puts = []
  | .ok outcome => ∃ before record after, call.Writes service before record outcome ∧
    trace = before ++ ⟨record.putOpen, .ok ()⟩ :: after ∧ Trace.puts after = [] ∧
      Trace.blocks after = []

/-! ## 2. What is known at the write -/

def KeyRecord.blocks (record : KeyRecord) : List BlockId :=
  record.versions.flatMap fun version => version.locations.map (·.block)

def Outcome.blocks : Outcome → List BlockId
  | .record found => found.blocks
  | .location added => [added.block]
  | _ => []

/-- An extended record has the blocks that it had and the new one. -/
theorem KeyService.blocks_extendedRecord {record : KeyRecord} {number : UInt64}
    (h : (record.version? number).isSome = true) (location : BlockLocation) (time : Int64) :
    (extendedRecord record number location time).blocks.Perm (location.block :: record.blocks) := by
  obtain ⟨version, hversion⟩ := Option.isSome_iff_exists.1 h
  obtain ⟨before, after, hfirst⟩ := LocationVersion.find?_eq_some_iff.1 hversion
  let blocksOf (version : LocationVersion) := version.locations.map (·.block)
  have hold : record.blocks =
      before.flatMap blocksOf ++ blocksOf version ++ after.flatMap blocksOf := by
    rw [KeyRecord.blocks, hfirst.split, List.flatMap_append, List.flatMap_cons, List.append_assoc]
  have hnew : (extendedRecord record number location time).blocks =
      before.flatMap blocksOf ++ blocksOf version ++ location.block :: after.flatMap blocksOf := by
    have hadded : blocksOf (version.append location) = blocksOf version ++ [location.block] :=
      List.map_append
    rw [extendedRecord_of_isFirst hfirst, KeyRecord.blocks, List.flatMap_append, List.flatMap_cons]
    show _ ++ (blocksOf (version.append location) ++ _) = _
    rw [hadded, List.append_assoc, List.append_assoc]
    rfl
  rw [hold, hnew]
  exact List.perm_middle

/-- A block that was added to a version is among the blocks of the key. -/
theorem KeyService.mem_blocks_extendedRecord {record : KeyRecord} {number : UInt64}
    {location : BlockLocation} {time : Int64} (h : (record.version? number).isSome = true) :
    location.block ∈ (extendedRecord record number location time).blocks :=
  (blocks_extendedRecord h location time).mem_iff.2 List.mem_cons_self

theorem KeyService.extendedRecord_versions {record : KeyRecord} {version : LocationVersion}
    {number : UInt64} (h : record.versions = [version])
    (hversion : (record.version? number).isSome = true) (location : BlockLocation) (time : Int64) :
    (extendedRecord record number location time).versions = [version.append location] := by
  have hnumber : version.number = number := by
    rw [KeyRecord.version?, h, List.find?_isSome] at hversion
    obtain ⟨v, hv, heq⟩ := hversion
    rw [List.mem_singleton.1 hv] at heq
    exact of_decide_eq_true heq
  have hfirst : LocationVersion.IsFirst number version [] [] record.versions := ⟨h, hnumber, nofun⟩
  rw [extendedRecord_of_isFirst hfirst]
  rfl

section Writes

variable {service} {call : Call} {trace : Trace} {record : KeyRecord} {outcome : Outcome}

theorem Call.Writes.path {request : KeyRequest} (h : call.Writes service trace record outcome)
    (hr : call.request? = some request) : record.path = request.path := by
  cases h with
  | first =>
    cases hr
    rfl
  | next _ path =>
    cases hr
    rw [extendedRecord_path, path]

theorem Call.Writes.blocks (h : call.Writes service trace record outcome) :
    ∃ block, trace.blocks = [block] ∧ outcome.blocks = [block] := by
  cases h <;> exact ⟨_, rfl, rfl⟩

theorem Call.Writes.mem_blocks (h : call.Writes service trace record outcome) :
    ∀ block ∈ outcome.blocks, block ∈ record.blocks := by
  cases h with
  | first => exact fun _ hblock => hblock
  | next _ _ hversion =>
    intro block hblock
    rw [List.mem_singleton.1 hblock]
    exact KeyService.mem_blocks_extendedRecord hversion

theorem Call.Writes.exists_acquire (h : call.Writes service trace record outcome) :
    ∃ lock, ⟨.acquire lock .write, ()⟩ ∈ trace := by
  cases h with
  | first => exact ⟨_, List.mem_cons_self ..⟩
  | next => exact ⟨_, List.mem_cons_of_mem _ (List.mem_cons_self ..)⟩

theorem Call.Writes.held_ne_nil (h : call.Writes service trace record outcome) :
    trace.held ≠ [] := by
  cases h <;> exact List.cons_ne_nil _ _

theorem Call.Writes.puts (h : call.Writes service trace record outcome) : trace.puts = [] := by
  cases h <;> rfl

end Writes

/-! ## 3. Conduct -/

variable {α : Type} {request : KeyRequest} {good : Trace → α → Prop}

theorem openKey_body_conducts {k : Except OperationError KeyRecord → Program α}
    (hfail : ∀ trace e, trace.held = [⟨request.bucketPath, .write⟩] → trace.puts = [] →
      (k (.error e)).Always Access.Credible ((Call.openKey request).Conducts service) good trace)
    (hdone : ∀ trace record, trace.held = [⟨request.bucketPath, .write⟩] →
      (Call.openKey request).Writes service trace record (.record record) →
      (k (.ok record)).Always Access.Credible ((Call.openKey request).Conducts service) good
        (trace ++ [⟨record.putOpen, .ok ()⟩])) :
    ((do
      checkBucketExists request.volume request.bucket
      service.writeFirst request (← getKey request.path) :
        Operation KeyRecord).followedBy k).Always Access.Credible
      ((Call.openKey request).Conducts service) good
      [⟨.acquire request.bucketPath .write, ()⟩] := by
  simp [Except.mapError, checkBucketExists, getKey, Always, Call.Conducts, Trace.held,
    Access.heldAfter, Access.Credible, Filed]
  -- volume, bucket and committed key are looked at in turn, and each may end the call
  refine ⟨fun _ => hfail _ _ rfl rfl, hfail _ _ rfl rfl, fun _ => hfail _ _ rfl rfl,
    hfail _ _ rfl rfl, fun _ => hfail _ _ rfl rfl, fun committed _ => ?_⟩
  cases hr : readRecord KeyRecord (.ok committed) with
  | error e => exact hfail _ _ rfl rfl
  | ok committed? =>
    simp [KeyService.writeFirst, putOpenKey, Except.mapError, Except.map, Always, Call.Conducts,
      Trace.held, Access.heldAfter, Access.Credible]
    -- allocation, token and write may fail too, but nothing is written before the last
    refine ⟨rfl, fun _ => hfail _ _ rfl rfl, fun block => ⟨fun _ => hfail _ _ rfl rfl,
      fun token time => ?_⟩⟩
    have hwrites : (Call.openKey request).Writes service
        (service.opening request committed block token time) _ _ := .first hr
    exact ⟨⟨_, ⟨_, hwrites⟩, rfl, rfl⟩, fun _ => hfail _ _ rfl rfl, fun _ => hdone _ _ rfl hwrites⟩

theorem openKey_conducts : ((Call.openKey request).program service).Always Access.Credible
    ((Call.openKey request).Conducts service) ((Call.openKey request).Ends service) [] := by
  rw [Call.program, run_eq_followedBy, Call.operation, KeyService.openKey_eq]
  simp only [map_followedBy, bind_followedBy (checked _), checked_followedBy]
  cases hv : request.validate with
  | error e => exact (rfl : Trace.puts [] = [])
  | ok u =>
    simp only [Except.mapError, onSuccess_ok, locked_followedBy]
    refine ⟨⟨⟨rfl, rfl, rfl⟩, fun _ h => by cases h; exact hv⟩, fun _ _ => ?_⟩
    refine openKey_body_conducts service (fun trace e hheld hputs => ⟨?_, fun _ _ => ?_⟩)
      (fun trace record hheld hwrites => ⟨?_, fun _ _ => ?_⟩)
    · simp [Call.Conducts, hheld]
    · show Trace.puts _ = []
      rw [Trace.puts_append, hputs]
      rfl
    · simp [Call.Conducts, Trace.held_append, hheld, KeyRecord.putOpen, Access.heldAfter]
    · -- after the write there is only the lock to give back
      exact ⟨trace, record, _, hwrites, List.append_assoc .., rfl, rfl⟩

theorem allocateBlock_body_conducts {number : UInt64}
    {k : Except OperationError BlockLocation → Program α}
    (hfail : ∀ trace e,
      trace.held = [⟨request.path, .write⟩, ⟨request.bucketPath, .read⟩] → trace.puts = [] →
      (k (.error e)).Always Access.Credible ((Call.allocateBlock request number).Conducts service)
        good trace)
    (hdone : ∀ trace record location,
      trace.held = [⟨request.path, .write⟩, ⟨request.bucketPath, .read⟩] →
      (Call.allocateBlock request number).Writes service trace record (.location location) →
      (k (.ok location)).Always Access.Credible
        ((Call.allocateBlock request number).Conducts service) good
        (trace ++ [⟨record.putOpen, .ok ()⟩])) :
    ((do
      match (← getOpenKey request.path).filter fun record => (record.version? number).isSome with
      | some record => service.writeNext request number record
      | none => throw (.keyNotOpen request.path.text number) :
        Operation BlockLocation).followedBy k).Always Access.Credible
      ((Call.allocateBlock request number).Conducts service) good
      [⟨.acquire request.bucketPath .read, ()⟩, ⟨.acquire request.path .write, ()⟩] := by
  rw [bind_followedBy, getOpenKey, getRecord_followedBy]
  refine ⟨List.cons_ne_nil _ _, fun answer hanswer => ?_⟩
  simp only [List.cons_append, List.nil_append]
  cases hr : readRecord KeyRecord answer with
  | error e => exact hfail _ _ rfl rfl
  | ok found =>
    rw [onSuccess_ok]
    split
    · next record hrecord =>
      -- The version is there: the only way past the check that the key is open.
      obtain ⟨bytes, rfl, hdecode, hversion⟩ := readRecord_filter_eq_some hr hrecord
      have hpath : record.path = request.path :=
        ResourcePath.tableKey_inj.1 (hanswer rfl record hdecode)
      simp [KeyService.writeNext, putOpenKey, Except.mapError, Except.map, Always, Call.Conducts,
        Trace.held, Access.heldAfter, Access.Credible]
      refine ⟨rfl, fun _ => hfail _ _ rfl rfl, fun block => ⟨fun _ => hfail _ _ rfl rfl,
        fun token time => ?_⟩⟩
      have hwrites : (Call.allocateBlock request number).Writes service
          (service.extending request bytes record block token time) _ _ :=
        .next hdecode hpath hversion
      exact ⟨⟨_, ⟨_, hwrites⟩, rfl, rfl⟩, fun _ => hfail _ _ rfl rfl,
        fun _ => hdone _ _ _ rfl hwrites⟩
    · exact hfail _ _ rfl rfl

theorem allocateBlock_conducts (number : UInt64) :
    ((Call.allocateBlock request number).program service).Always Access.Credible
      ((Call.allocateBlock request number).Conducts service)
      ((Call.allocateBlock request number).Ends service) [] := by
  rw [Call.program, run_eq_followedBy, Call.operation, KeyService.allocateBlock_eq]
  simp only [map_followedBy, checked_followedBy, bind_followedBy (checked _)]
  cases hv : request.validate with
  | error e => exact (rfl : Trace.puts [] = [])
  | ok u =>
    simp only [Except.mapError, onSuccess_ok, locked_followedBy]
    refine ⟨⟨.inl ⟨rfl, rfl, rfl⟩, fun _ h => by cases h; exact hv⟩, fun _ _ =>
      ⟨⟨.inr ⟨rfl, rfl, rfl⟩, fun _ h => by cases h; exact hv⟩, fun _ _ => ?_⟩⟩
    refine allocateBlock_body_conducts service
      (fun trace e hheld hputs => ⟨?_, fun _ _ => ⟨?_, fun _ _ => ?_⟩⟩)
      (fun trace record location hheld hwrites => ⟨?_, fun _ _ => ⟨?_, fun _ _ => ?_⟩⟩)
    · simp [Call.Conducts, hheld]
    · simp [Call.Conducts, Trace.held_append, hheld, Access.heldAfter]
    · show Trace.puts _ = []
      simp only [Trace.puts_append, hputs]
      rfl
    · simp [Call.Conducts, Trace.held_append, hheld, KeyRecord.putOpen, Access.heldAfter]
    · simp [Call.Conducts, Trace.held_append, hheld, KeyRecord.putOpen, Access.heldAfter]
    · refine ⟨trace, record, [⟨.release request.path .write, ()⟩,
        ⟨.release request.bucketPath .read, ()⟩], hwrites, ?_, rfl, rfl⟩
      rw [List.append_assoc, List.append_assoc]
      rfl

def Call.writesOpenKeys : Call → Bool
  | openKey _ | allocateBlock .. => true
  | _ => false

theorem Call.exists_request {call : Call} (h : call.writesOpenKeys = true) :
    ∃ request, call.request? = some request := by
  cases call with
  | openKey request | allocateBlock request _ => exact ⟨request, rfl⟩
  | _ => cases h

theorem Call.conducts {call : Call} (h : call.writesOpenKeys = true) :
    (call.program service).Always Access.Credible (call.Conducts service) (call.Ends service)
      [] := by
  cases call with
  | openKey request => exact openKey_conducts service
  | allocateBlock request number => exact allocateBlock_conducts service number
  | _ => cases h

/-- A call takes no lock for a request that it refuses, and writes nothing without a lock. -/
theorem Call.Writes.validate {service : KeyService} {call : Call} {trace : Trace}
    {record : KeyRecord} {outcome : Outcome} {rest : Program (Except OperationError Outcome)}
    (h : call.Writes service trace record outcome) (hw : call.writesOpenKeys = true)
    {later : Trace} (hl : (call.program service).Leads (trace ++ later) rest)
    (hc : ∀ access ∈ trace ++ later, access.Credible) :
    ∀ request, call.request? = some request → request.validate = .ok () := by
  obtain ⟨lock, hmem⟩ := h.exists_acquire
  obtain ⟨before, after, hsplit⟩ := List.append_of_mem (List.mem_append_left later hmem)
  rw [hsplit] at hl hc
  exact ((Call.conducts service hw).fair_at hl hc).2

def Action.SparesOpenKeys : Action → Prop
  | put table _ _ | delete table _ => table ≠ .openKeys
  | _ => True

variable {credible : Access → Prop}

theorem createVolume_spares (volume owner : String) :
    ((Call.createVolume volume owner).program service).Always credible
      (fun _ => Action.SparesOpenKeys) (fun _ _ => True) [] := by
  rw [Call.program, run_eq_followedBy, Call.operation]
  cases hv : validateVolumeName volume with
  | error e => simp [createVolume, hv, Except.mapError, Always]
  | ok u => simp [createVolume, hv, Except.mapError, Always, Action.SparesOpenKeys]

theorem createBucket_spares (volume bucket : String) :
    ((Call.createBucket volume bucket).program service).Always credible
      (fun _ => Action.SparesOpenKeys) (fun _ _ => True) [] := by
  rw [Call.program, run_eq_followedBy, Call.operation]
  cases hv : validateVolumeName volume with
  | error e => simp [createBucket, hv, Except.mapError, Always]
  | ok u =>
    cases hb : validateBucketName bucket with
    | error e => simp [createBucket, hv, hb, Except.mapError, Always]
    | ok u' => simp [createBucket, hv, hb, Except.mapError, Always, Action.SparesOpenKeys]

theorem refreshed_spares (record : KeyRecord) {k : Except OperationError KeyRecord → Program α}
    (hk : ∀ trace r, (k r).Always credible (fun _ => Action.SparesOpenKeys)
      (fun _ _ => True) trace) (trace : Trace) :
    ((service.refreshed request record).followedBy k).Always credible
      (fun _ => Action.SparesOpenKeys) (fun _ _ => True) trace := by
  -- minting needs no more of a trace than this
  let inv : Trace → Prop := fun _ => True
  have hinv : inv trace := trivial
  rw [KeyService.refreshed, map_followedBy]
  exact refreshTokens_always service request record.latestLocations
    (fun _ _ _ _ _ => trivial) (fun _ _ _ _ _ _ => trivial) (fun trace r _ => hk trace _) hinv

theorem lookupKey_spares : ((Call.lookupKey request).program service).Always credible
    (fun _ => Action.SparesOpenKeys) (fun _ _ => True) [] := by
  rw [Call.program, run_eq_followedBy, Call.operation, KeyService.lookupKey_eq]
  cases hv : request.validate with
  | error e => simp [Except.mapError, Always]
  | ok u =>
    have hend : ∀ trace (r : Except OperationError KeyRecord),
        (step (.release request.path .read) fun _ => step (.release request.bucketPath .read)
          fun _ => done (r.map Outcome.record)).Always credible
          (fun _ => Action.SparesOpenKeys) (fun _ _ => True) trace :=
      fun _ _ => ⟨trivial, fun _ _ => ⟨trivial, fun _ _ => trivial⟩⟩
    simp only [checked_followedBy, bind_followedBy, map_followedBy, Except.mapError, onSuccess_ok,
      locked_followedBy, getKey, getRecord_followedBy]
    refine ⟨trivial, fun _ _ => ⟨trivial, fun _ _ => ⟨trivial, fun answer _ => ?_⟩⟩⟩
    simp only []
    obtain e | (_ | record) := readRecord KeyRecord answer
    · exact hend _ _
    · rw [onSuccess_ok, bind_followedBy]
      cases service.lookupOpenKeys with
      | false => exact hend _ _
      | true =>
        simp only [if_true, getOpenKey, getRecord_followedBy]
        refine ⟨trivial, fun answer _ => ?_⟩
        simp only []
        obtain e | (_ | record) := readRecord KeyRecord answer
        · exact hend _ _
        · exact hend _ _
        · exact refreshed_spares service record hend _
    · exact refreshed_spares service record hend _

theorem Call.spares_openKeys {call : Call} (hg : call.isGuarded = true)
    (h : call.writesOpenKeys = false) :
    (call.program service).Always credible (fun _ => Action.SparesOpenKeys)
      (fun _ _ => True) [] := by
  cases call with
  | createVolume volume owner => exact createVolume_spares service volume owner
  | createBucket volume bucket => exact createBucket_spares service volume bucket
  | lookupKey request => exact lookupKey_spares service
  | openKey | allocateBlock => cases h
  | _ => cases hg

end ObjectMeta
