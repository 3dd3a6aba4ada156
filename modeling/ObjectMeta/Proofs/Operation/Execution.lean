import ObjectMeta.Operation.Call
import ObjectMeta.Proofs.Operation.Trace
import ObjectMeta.Proofs.Record.Appending

/-!
# Operations step by step

An operation followed by a continuation, rewritten as the action it takes first and what comes after
each answer.  With these equations `simp` unfolds a whole operation into the tree of its actions,
one branch for every way a check, a store call or a decoding can turn out.
-/

namespace ObjectMeta

variable {α β ε : Type}

@[simp] theorem Except.forall_iff {p : Except ε α → Prop} :
    (∀ r, p r) ↔ (∀ e, p (.error e)) ∧ ∀ a, p (.ok a) :=
  ⟨fun h => ⟨fun e => h (.error e), fun a => h (.ok a)⟩,
    fun h r => by cases r with
      | error e => exact h.1 e
      | ok a => exact h.2 a⟩

instance exceptDecidableEq [DecidableEq ε] [DecidableEq α] : DecidableEq (Except ε α)
  | .ok a, .ok a' => decidable_of_iff (a = a') ⟨congrArg _, Except.ok.inj⟩
  | .error e, .error e' => decidable_of_iff (e = e') ⟨congrArg _, Except.error.inj⟩
  | .ok _, .error _ => isFalse nofun
  | .error _, .ok _ => isFalse nofun

namespace Operation

/-- An operation in front of a continuation that is told its result. -/
def followedBy (op : Operation α) (k : Except OperationError α → Program β) : Program β :=
  op.run.bind k

theorem run_eq_followedBy (op : Operation α) : op.run = op.followedBy .done :=
  (Program.bind_done op.run).symm

variable {k : Except OperationError α → Program β}

/-! ## 1. Control -/

@[simp] theorem pure_followedBy (a : α) : (pure a : Operation α).followedBy k = k (.ok a) := rfl

@[simp] theorem throw_followedBy (e : OperationError) :
    (throw e : Operation α).followedBy k = k (.error e) := rfl

def onSuccess {γ : Type} (f : γ → Operation α) (k : Except OperationError α → Program β) :
    Except OperationError γ → Program β
  | .ok a => (f a).followedBy k
  | .error e => k (.error e)

@[simp] theorem onSuccess_ok {γ : Type} (f : γ → Operation α) (a : γ) :
    onSuccess f k (.ok a) = (f a).followedBy k := rfl

@[simp] theorem onSuccess_error {γ : Type} (f : γ → Operation α) (e : OperationError) :
    onSuccess f k (.error e) = k (.error e) := rfl

@[simp] theorem bind_followedBy {γ : Type} (op : Operation γ) (f : γ → Operation α) :
    (op >>= f).followedBy k = op.followedBy (onSuccess f k) := by
  have hrun : (op >>= f).run = op.run.bind (ExceptT.bindCont f) := rfl
  rw [followedBy, hrun, Program.bind_assoc, followedBy]
  congr 1
  funext r
  cases r <;> rfl

@[simp] theorem map_followedBy {γ : Type} (op : Operation γ) (f : γ → α) :
    (f <$> op).followedBy k = op.followedBy fun r => k (r.map f) := by
  have hmap : (f <$> op) = op >>= fun a => pure (f a) := (bind_pure_comp f op).symm
  rw [hmap, bind_followedBy]
  congr 1
  funext r
  cases r <;> rfl

@[simp] theorem ofExcept_followedBy (wrap : ε → OperationError) (r : Except ε α) :
    (ofExcept wrap r).followedBy k = k (r.mapError wrap) := by
  cases r <;> rfl

@[simp] theorem checked_followedBy {k : Except OperationError Unit → Program β}
    (r : Except RequestError Unit) :
    (checked r).followedBy k = k (r.mapError .invalidRequest) :=
  ofExcept_followedBy _ _

@[simp] theorem locked_followedBy (path : ResourcePath) (mode : LockMode) (op : Operation α) :
    (locked path mode op).followedBy k = .step (.acquire path mode) fun _ =>
      op.followedBy fun r => .step (.release path mode) fun _ => k r := by
  show (Program.step _ _ : Program _) = _
  congr 1
  funext _
  exact Program.bind_assoc op.run (fun r => .step (.release path mode) fun _ => .done r) k

/-! ## 2. Actions -/

@[simp] theorem perform_followedBy (action : Action)
    (k : Except OperationError action.Answer → Program β) :
    (perform action).followedBy k = .step action fun answer => k (.ok answer) := rfl

@[simp] theorem now_followedBy (k : Except OperationError Int64 → Program β) :
    now.followedBy k = .step .now fun time => k (.ok time) := rfl

@[simp] theorem contains_followedBy (table : Table) (path : ResourcePath)
    (k : Except OperationError Bool → Program β) :
    (contains table path).followedBy k =
      .step (.contains table path.tableKey) fun answer => k (answer.mapError .store) := by
  rw [contains, bind_followedBy, perform_followedBy]
  simp

@[simp] theorem getBytes_followedBy (table : Table) (path : ResourcePath)
    (k : Except OperationError (Option Bytes) → Program β) :
    (getBytes table path).followedBy k =
      .step (.get table path.tableKey) fun answer => k (answer.mapError .store) := by
  rw [getBytes, bind_followedBy, perform_followedBy]
  simp

@[simp] theorem delete_followedBy (table : Table) (path : ResourcePath)
    (k : Except OperationError Unit → Program β) :
    (delete table path).followedBy k =
      .step (.delete table path.tableKey) fun answer => k (answer.mapError .store) := by
  rw [delete, bind_followedBy, perform_followedBy]
  simp

@[simp] theorem putRecord_followedBy {γ : Type} [Stored γ] (table : Table) (path : ResourcePath)
    (record : γ) (k : Except OperationError Unit → Program β) :
    (putRecord table path record).followedBy k =
      .step (.put table path.tableKey (Stored.encode record)) fun answer =>
        k (answer.mapError .store) := by
  rw [putRecord, bind_followedBy, perform_followedBy]
  simp

@[simp] theorem mint_followedBy (owner : String) (block : BlockId) (maxLength : Int64)
    (k : Except OperationError (Option BlockToken) → Program β) :
    (mint owner block maxLength).followedBy k =
      .step (.mint owner block maxLength) fun answer => k (answer.mapError .token) := by
  rw [mint, bind_followedBy, perform_followedBy]
  simp

def readRecord (γ : Type) [Stored γ] :
    Except StoreError (Option Bytes) → Except OperationError (Option γ)
  | .error e => .error (.store e)
  | .ok none => .ok none
  | .ok (some bytes) => ((Stored.decode γ bytes).map some).mapError .codec

@[simp] theorem readRecord_error (γ : Type) [Stored γ] (e : StoreError) :
    readRecord γ (.error e) = .error (.store e) := rfl

@[simp] theorem getRecord_followedBy {γ : Type} [Stored γ] (table : Table) (path : ResourcePath)
    (k : Except OperationError (Option γ) → Program β) :
    (getRecord γ table path).followedBy k =
      .step (.get table path.tableKey) fun answer => k (readRecord γ answer) := by
  rw [getRecord, bind_followedBy, getBytes_followedBy]
  congr 1
  funext answer
  obtain e | (_ | bytes) := answer
  · rfl
  · rfl
  · show ((do
        return some (← ofExcept .codec (Stored.decode γ bytes)) : Operation _)).followedBy k = _
    rw [bind_followedBy, ofExcept_followedBy]
    simp only [readRecord]
    cases Stored.decode γ bytes <;> rfl

end Operation

/-! ## 3. The operations on keys in stages -/

namespace KeyService

open Operation

variable (service : KeyService) (request : KeyRequest)

def locationOf (block : BlockId) (size : Int64) (token : Option BlockToken) : BlockLocation where
  block := block
  offset := 0
  length := size
  token := token

def withToken {β : Type} (size : Int64) (k : Except OperationError BlockLocation → Program β) :
    Except AllocationError BlockId → Program β
  | .error e => k (.error (.ofAllocation e))
  | .ok block => .step (.mint (service.tokenOwner request) block size) fun token =>
    k ((token.mapError .token).map (locationOf block size))

@[simp] theorem withToken_error {β : Type} (size : Int64)
    (k : Except OperationError BlockLocation → Program β) (e : AllocationError) :
    service.withToken request size k (.error e) = k (.error (.ofAllocation e)) := rfl

@[simp] theorem withToken_ok {β : Type} (size : Int64)
    (k : Except OperationError BlockLocation → Program β) (block : BlockId) :
    service.withToken request size k (.ok block) =
      .step (.mint (service.tokenOwner request) block size) fun token =>
        k ((token.mapError .token).map (locationOf block size)) := rfl

@[simp] theorem allocateLocation_followedBy {β : Type} (size : Int64)
    (replicationType : ReplicationType) (replicationFactor : ReplicationFactor)
    (k : Except OperationError BlockLocation → Program β) :
    (service.allocateLocation request size replicationType replicationFactor).followedBy k =
      .step (.allocate { size, replicationType, replicationFactor, owner := service.serviceId })
        (service.withToken request size k) := by
  rw [allocateLocation, bind_followedBy, perform_followedBy]
  congr 1
  funext answer
  cases answer with
  | error e => rfl
  | ok block =>
    rw [onSuccess_ok, bind_followedBy, ofExcept_followedBy]
    show (_ >>= _ : Operation _).followedBy k = _
    rw [bind_followedBy, mint_followedBy, withToken_ok]
    congr 1
    funext token
    cases token <;> rfl

/-- The record that a key is opened with, after the committed one was read. -/
def firstRecord (committed? : Option KeyRecord) (location : BlockLocation) (time : Int64) :
    KeyRecord where
  volume := request.volume
  bucket := request.bucket
  key := request.key
  dataSize := request.dataSize.getD 0
  creationTime := time
  modificationTime := time
  replicationType := request.replicationType
  replicationFactor := request.replicationFactor
  versions := [{
    number := match committed? with
      | none => 1
      | some committed => committed.latestNumber + 1
    locations := [location] }]

theorem firstBlockSize_eq : service.firstBlockSize request =
    if 0 < request.dataSize.getD 0 then request.dataSize.getD 0 else service.blockSize := by
  unfold firstBlockSize
  cases request.dataSize with
  | none => exact (if_neg (by decide)).symm
  | some size => rfl

def writeFirst (committed? : Option KeyRecord) : Operation KeyRecord := do
  let location ← service.allocateLocation request (service.firstBlockSize request)
    request.replicationType request.replicationFactor
  let time ← now
  putOpenKey (firstRecord request committed? location time)
  return firstRecord request committed? location time

@[simp] theorem firstRecord_path (committed? : Option KeyRecord) (location : BlockLocation)
    (time : Int64) : (firstRecord request committed? location time).path = request.path := rfl

theorem openKey_eq : service.openKey request = (do
    checked request.validate
    locked request.bucketPath .write do
      checkBucketExists request.volume request.bucket
      service.writeFirst request (← getKey request.path)) := rfl

/-- The record of an open key with one more block in one of its versions. -/
def extendedRecord (record : KeyRecord) (number : UInt64) (location : BlockLocation)
    (time : Int64) : KeyRecord :=
  { (record.appendLocation? number location).getD record with modificationTime := time }

/-- An extension changes the versions and the time of the last change. -/
theorem extendedRecord_eq (record : KeyRecord) (number : UInt64) (location : BlockLocation)
    (time : Int64) : extendedRecord record number location time =
      { record with
        modificationTime := time
        versions := (extendedRecord record number location time).versions } :=
  congrArg ({ · with modificationTime := time }) (record.withLocation_eq number location)

theorem extendedRecord_of_isFirst {record : KeyRecord} {number : UInt64}
    {version : LocationVersion} {before after : List LocationVersion}
    (h : LocationVersion.IsFirst number version before after record.versions)
    (location : BlockLocation) (time : Int64) : extendedRecord record number location time =
      { record with
        modificationTime := time
        versions := before ++ version.append location :: after } :=
  congrArg ({ · with modificationTime := time }) (KeyRecord.withLocation_of_isFirst h location)

theorem extendedRecord_of_absent {record : KeyRecord} {number : UInt64}
    (h : record.version? number = none) (location : BlockLocation) (time : Int64) :
    extendedRecord record number location time = { record with modificationTime := time } :=
  congrArg ({ · with modificationTime := time }) (KeyRecord.withLocation_of_absent h location)

def writeNext (number : UInt64) (record : KeyRecord) : Operation BlockLocation := do
  let location ← service.allocateLocation request service.blockSize
    record.replicationType record.replicationFactor
  putOpenKey (extendedRecord record number location (← now))
  return location

theorem allocateBlock_eq (number : UInt64) : service.allocateBlock request number = (do
    checked request.validate
    locked request.bucketPath .read do
      locked request.path .write do
        match (← getOpenKey request.path).filter fun record => (record.version? number).isSome with
        | some record => service.writeNext request number record
        | none => throw (.keyNotOpen request.path.text number)) := by
  rw [allocateBlock]
  refine bind_congr fun _ => congrArg (locked _ _) (congrArg (locked _ _)
    (bind_congr fun found => ?_))
  cases found.filter fun record => (record.version? number).isSome <;> rfl

def refreshed (record : KeyRecord) : Operation KeyRecord :=
  record.withLatestLocations <$> service.refreshTokens request record.latestLocations

theorem lookupKey_eq : service.lookupKey request = (do
    checked request.validate
    locked request.bucketPath .read do
      locked request.path .read do
        match ← getKey request.path with
        | some record => service.refreshed request record
        | none =>
          match ← (if service.lookupOpenKeys then getOpenKey request.path else pure none) with
          | some record => service.refreshed request record
          | none => throw (.keyNotFound request.path.text)) := by
  rw [lookupKey]
  refine bind_congr fun _ => congrArg (locked _ _) (congrArg (locked _ _)
    (bind_congr fun found => ?_))
  cases found with
  | some record => simp only [pure_bind, refreshed, map_eq_pure_bind]
  | none =>
    cases service.lookupOpenKeys with
    | false => rfl
    | true =>
      show getOpenKey request.path >>= _ = _
      refine bind_congr fun open? => ?_
      cases open? with
      | some record => simp only [pure_bind, refreshed, map_eq_pure_bind]
      | none => rfl

end KeyService

end ObjectMeta
