import ObjectMeta.Proofs.Operation.Conduct
import ObjectMeta.Proofs.Operation.Guarded

/-!
# The locks that calls work under

Every call has a stack of locks, which is empty for the calls that take none.  It takes the locks
from the bottom of the stack to the top, works with the whole stack in hand, and gives the locks
back from the top to the bottom; only opening and extending a key ask for blocks (`Call.keepsTo`).
The rules that follow the building blocks of operations say that the work under a stack leaves the
locks alone (`Operation.Works`).
-/

namespace ObjectMeta

open Operation Program

variable {α β : Type} {allocates : Bool}

/-! ## 1. Work -/

/-- The action leaves the locks alone, and asks for a block only where that is allowed. -/
def Action.Works (allocates : Bool) : Action → Prop
  | acquire .. | release .. => False
  | allocate _ => allocates = true
  | _ => True

def Program.Works (allocates : Bool) : Program α → Prop
  | done _ => True
  | step action next => action.Works allocates ∧ ∀ answer, (next answer).Works allocates

theorem Program.Works.bind {p : Program α} {f : α → Program β} (h : p.Works allocates)
    (hf : ∀ a, (f a).Works allocates) : (p.bind f).Works allocates := by
  induction p with
  | done value => exact hf value
  | step action next ih => exact ⟨h.1, fun answer => ih answer (h.2 answer)⟩

namespace Operation

def Works (allocates : Bool) (op : Operation α) : Prop := op.run.Works allocates

theorem works_pure (a : α) : (pure a : Operation α).Works allocates := trivial

theorem works_throw (e : OperationError) : (throw e : Operation α).Works allocates := trivial

theorem Works.bind {op : Operation α} {f : α → Operation β} (h : op.Works allocates)
    (hf : ∀ a, (f a).Works allocates) : (op >>= f).Works allocates := by
  refine Program.Works.bind h fun result => ?_
  cases result with
  | error e => trivial
  | ok a => exact hf a

theorem Works.map {op : Operation α} (h : op.Works allocates) (f : α → β) :
    (f <$> op).Works allocates := by
  rw [← bind_pure_comp]
  exact h.bind fun a => works_pure (f a)

theorem works_perform (action : Action) (h : action.Works allocates) :
    (perform action).Works allocates := ⟨h, fun _ => trivial⟩

theorem works_ofExcept {ε : Type} (wrap : ε → OperationError) (r : Except ε α) :
    (ofExcept wrap r).Works allocates := by
  cases r <;> trivial

theorem works_now : now.Works allocates := works_perform .now trivial

theorem works_contains (table : Table) (path : ResourcePath) :
    (contains table path).Works allocates :=
  (works_perform (.contains table path.tableKey) trivial).bind fun _ => works_ofExcept _ _

theorem works_delete (table : Table) (path : ResourcePath) :
    (delete table path).Works allocates :=
  (works_perform (.delete table path.tableKey) trivial).bind fun _ => works_ofExcept _ _

theorem works_mint (owner : String) (block : BlockId) (maxLength : Int64) :
    (mint owner block maxLength).Works allocates :=
  (works_perform (.mint owner block maxLength) trivial).bind fun _ => works_ofExcept _ _

theorem works_putRecord {γ : Type} [Stored γ] (table : Table) (path : ResourcePath) (record : γ) :
    (putRecord table path record).Works allocates :=
  (works_perform (.put table path.tableKey (Stored.encode record)) trivial).bind fun _ =>
    works_ofExcept _ _

theorem works_getRecord (γ : Type) [Stored γ] (table : Table) (path : ResourcePath) :
    (getRecord γ table path).Works allocates := by
  have hbytes : (getBytes table path).Works allocates :=
    (works_perform (.get table path.tableKey) trivial).bind fun _ => works_ofExcept _ _
  refine hbytes.bind fun bytes? => ?_
  cases bytes? with
  | none => exact works_pure none
  | some bytes => exact (works_ofExcept _ _).bind fun _ => works_pure _

/-! ## 2. Stages of the calls -/

theorem works_checkBucketExists (volume bucket : String) :
    (checkBucketExists volume bucket).Works allocates := by
  refine (works_contains _ _).bind fun found => ?_
  cases found with
  | false => exact works_throw _
  | true =>
    refine (works_contains _ _).bind fun found => ?_
    cases found with
    | false => exact works_throw _
    | true => exact works_pure _

theorem works_commit (path : ResourcePath) : (commit path).Works allocates := by
  refine (works_getRecord _ _ _).bind fun open? => ?_
  cases open? with
  | none => exact works_pure _
  | some record =>
    exact (works_putRecord _ _ _).bind fun _ => (works_delete _ _).bind fun _ => works_pure _

variable (service : KeyService) (request : KeyRequest)

theorem works_allocateLocation (size : Int64) (replicationType : ReplicationType)
    (replicationFactor : ReplicationFactor) :
    (service.allocateLocation request size replicationType replicationFactor).Works true := by
  refine (works_perform (.allocate _) rfl).bind fun answer => ?_
  refine (works_ofExcept _ _).bind fun block => ?_
  exact (works_mint _ _ _).bind fun token => works_pure _

theorem works_writeFirst (committed? : Option KeyRecord) :
    (service.writeFirst request committed?).Works true := by
  refine (works_allocateLocation service request _ _ _).bind fun location => ?_
  refine works_now.bind fun time => ?_
  exact (works_putRecord _ _ _).bind fun _ => works_pure _

theorem works_writeNext (number : UInt64) (record : KeyRecord) :
    (service.writeNext request number record).Works true := by
  refine (works_allocateLocation service request _ _ _).bind fun location => ?_
  refine works_now.bind fun time => ?_
  exact (works_putRecord _ _ _).bind fun _ => works_pure _

theorem works_refreshTokens (locations : List BlockLocation) :
    (service.refreshTokens request locations).Works allocates := by
  induction locations with
  | nil => exact works_pure []
  | cons location rest ih =>
    exact (works_mint _ _ _).bind fun token => ih.bind fun fresh => works_pure _

/-! What a call does once it has its locks is work. -/

variable (allocates : Bool)

theorem createVolume_works (volume owner : String) : ∃ body : Operation VolumeInfo,
    body.Works allocates ∧ createVolume volume owner = (do
      checked (validateVolumeName volume)
      locked (.volume volume) .write body) := by
  refine ⟨_, ?_, rfl⟩
  refine (works_contains _ _).bind fun found => ?_
  cases found with
  | true => exact works_throw _
  | false => exact works_now.bind fun time => (works_putRecord _ _ _).bind fun _ => works_pure _

theorem createBucket_works (volume bucket : String) : ∃ body : Operation BucketInfo,
    body.Works allocates ∧ createBucket volume bucket = (do
      checked (validateVolumeName volume)
      checked (validateBucketName bucket)
      locked (.volume volume) .read (locked (.bucket volume bucket) .write body)) := by
  refine ⟨_, ?_, rfl⟩
  refine (works_contains _ _).bind fun found => ?_
  cases found with
  | false => exact works_throw _
  | true =>
    refine (works_contains _ _).bind fun found => ?_
    cases found with
    | true => exact works_throw _
    | false => exact works_now.bind fun time => (works_putRecord _ _ _).bind fun _ => works_pure _

theorem lookupKey_works : ∃ body : Operation KeyRecord,
    body.Works allocates ∧ service.lookupKey request = (do
      checked request.validate
      locked request.bucketPath .read (locked request.path .read body)) := by
  refine ⟨_, ?_, KeyService.lookupKey_eq service request⟩
  have hrefreshed : ∀ record, (service.refreshed request record).Works allocates :=
    fun record => (works_refreshTokens service request _).map _
  refine (works_getRecord _ _ _).bind fun committed? => ?_
  cases committed? with
  | some record => exact hrefreshed record
  | none =>
    cases service.lookupOpenKeys with
    | false => exact works_throw _
    | true =>
      refine (works_getRecord _ _ _).bind fun open? => ?_
      cases open? with
      | some record => exact hrefreshed record
      | none => exact works_throw _

end Operation

/-! ## 3. Under a stack of locks -/

/-- The locks that a call works under, the latest first. -/
def Call.lockStack : Call → List LockGuard
  | createVolume volume _ => [⟨.volume volume, .write⟩]
  | createBucket volume bucket => [⟨.bucket volume bucket, .write⟩, ⟨.volume volume, .read⟩]
  | openKey request => [⟨request.bucketPath, .write⟩]
  | allocateBlock request _ => [⟨request.path, .write⟩, ⟨request.bucketPath, .read⟩]
  | lookupKey request => [⟨request.path, .read⟩, ⟨request.bucketPath, .read⟩]
  | _ => []

/-- The action takes the next lock of the stack, gives the latest one back, or is work with the
whole stack in hand. -/
def Action.KeepsTo (call : Call) (trace : Trace) : Action → Prop
  | acquire path mode => ⟨path, mode⟩ :: trace.held <:+ call.lockStack
  | release path mode =>
    trace.held <:+ call.lockStack ∧ ∃ rest, trace.held = ⟨path, mode⟩ :: rest
  | action => trace.held = call.lockStack ∧ action.Works call.writesOpenKeys

variable {call : Call} {trace : Trace} {action : Action}

theorem Action.KeepsTo.isSuffix (h : action.KeepsTo call trace) :
    trace.held <:+ call.lockStack := by
  cases action with
  | acquire path mode => exact (List.suffix_cons _ _).trans h
  | release path mode => exact h.1
  | _ => exact h.1 ▸ List.suffix_rfl

theorem Action.Works.keepsTo (h : action.Works call.writesOpenKeys)
    (hheld : trace.held = call.lockStack) : action.KeepsTo call trace := by
  cases action with
  | acquire path mode => exact h.elim
  | release path mode => exact h.elim
  | _ => exact ⟨hheld, h⟩

theorem Action.Works.held (h : action.Works allocates) (trace : Trace) (answer : action.Answer) :
    Trace.held (trace ++ [⟨action, answer⟩]) = trace.held := by
  rw [Trace.held_append]
  cases action with
  | acquire path mode => exact h.elim
  | release path mode => exact h.elim
  | _ => rfl

/-- Every action from here on keeps to the stack, and some locks are in hand at the end. -/
def Program.KeepsTo (call : Call) (held : List LockGuard) : Trace → Program α → Prop :=
  Always (fun _ => True) (fun trace action => action.KeepsTo call trace)
    fun trace _ => trace.held = held

theorem Program.Works.keepsTo {p : Program α} (h : p.Works call.writesOpenKeys)
    (hheld : trace.held = call.lockStack) : p.KeepsTo call call.lockStack trace := by
  induction p generalizing trace with
  | done value => exact hheld
  | step action next ih =>
    refine ⟨h.1.keepsTo hheld, fun answer _ => ih answer (h.2 answer) ?_⟩
    rw [h.1.held trace answer, hheld]

/-- A body that ends with the lock in hand ends without it once the lock is given back. -/
theorem locked_keepsTo {path : ResourcePath} {mode : LockMode} {body : Operation α}
    {held : List LockGuard} (hheld : trace.held = held)
    (hstack : ⟨path, mode⟩ :: held <:+ call.lockStack)
    (hbody : body.run.KeepsTo call (⟨path, mode⟩ :: held)
      (trace ++ [⟨.acquire path mode, ()⟩])) :
    (locked path mode body).run.KeepsTo call held trace := by
  subst hheld
  refine locked_always hstack hbody fun trace' r hends => ?_
  have hends : trace'.held = ⟨path, mode⟩ :: trace.held := hends
  refine ⟨⟨hends ▸ hstack, _, hends⟩, ?_⟩
  rw [Trace.held_append, hends]
  exact List.erase_cons_head ..

variable (service : KeyService)

theorem createVolume_keepsTo (volume owner : String) :
    ((Call.createVolume volume owner).program service).KeepsTo (.createVolume volume owner)
      [] [] := by
  obtain ⟨body, hworks, hbody⟩ := createVolume_works false volume owner
  refine Call.always_of_operation rfl ?_
  rw [hbody]
  refine checked_always (fun _ => rfl) fun _ => ?_
  exact locked_keepsTo rfl List.suffix_rfl (Program.Works.keepsTo hworks rfl)

theorem createBucket_keepsTo (volume bucket : String) :
    ((Call.createBucket volume bucket).program service).KeepsTo (.createBucket volume bucket)
      [] [] := by
  obtain ⟨body, hworks, hbody⟩ := createBucket_works false volume bucket
  refine Call.always_of_operation rfl ?_
  rw [hbody]
  refine checked_always (fun _ => rfl) fun _ => checked_always (fun _ => rfl) fun _ => ?_
  refine locked_keepsTo rfl (List.suffix_cons _ _) ?_
  exact locked_keepsTo rfl List.suffix_rfl (Program.Works.keepsTo hworks rfl)

theorem openKey_keepsTo (request : KeyRequest) :
    ((Call.openKey request).program service).KeepsTo (.openKey request) [] [] := by
  refine Call.always_of_operation rfl ?_
  rw [KeyService.openKey_eq]
  refine checked_always (fun _ => rfl) fun _ => locked_keepsTo rfl List.suffix_rfl ?_
  refine Program.Works.keepsTo ?_ rfl
  refine (works_checkBucketExists _ _).bind fun _ => (works_getRecord _ _ _).bind fun found => ?_
  exact works_writeFirst service request found

theorem allocateBlock_keepsTo (request : KeyRequest) (number : UInt64) :
    ((Call.allocateBlock request number).program service).KeepsTo (.allocateBlock request number)
      [] [] := by
  refine Call.always_of_operation rfl ?_
  rw [KeyService.allocateBlock_eq]
  refine checked_always (fun _ => rfl) fun _ => locked_keepsTo rfl (List.suffix_cons _ _) ?_
  refine locked_keepsTo rfl List.suffix_rfl ?_
  refine Program.Works.keepsTo ?_ rfl
  refine (works_getRecord _ _ _).bind fun found => ?_
  cases found.filter fun record => (record.version? number).isSome with
  | none => exact works_throw _
  | some record => exact works_writeNext service request number record

theorem lookupKey_keepsTo (request : KeyRequest) :
    ((Call.lookupKey request).program service).KeepsTo (.lookupKey request) [] [] := by
  obtain ⟨body, hworks, hbody⟩ := lookupKey_works service request false
  refine Call.always_of_operation rfl ?_
  rw [hbody]
  refine checked_always (fun _ => rfl) fun _ => locked_keepsTo rfl (List.suffix_cons _ _) ?_
  exact locked_keepsTo rfl List.suffix_rfl (Program.Works.keepsTo hworks rfl)

/-- Whatever the answers are, a call works with its whole stack of locks in hand and nothing else,
and it ends without a lock. -/
theorem Call.keepsTo (call : Call) : (call.program service).KeepsTo call [] [] := by
  cases call with
  | createVolume volume owner => exact createVolume_keepsTo service volume owner
  | createBucket volume bucket => exact createBucket_keepsTo service volume bucket
  | openKey request => exact openKey_keepsTo service request
  | allocateBlock request number => exact allocateBlock_keepsTo service request number
  | lookupKey request => exact lookupKey_keepsTo service request
  -- the other calls have no locks, so they are work from the first action to the last
  | getVolume volume => exact Program.Works.keepsTo ((works_getRecord _ _ _).map _) rfl
  | getBucket volume bucket => exact Program.Works.keepsTo ((works_getRecord _ _ _).map _) rfl
  | checkBucket volume bucket =>
    exact Program.Works.keepsTo ((works_checkBucketExists _ _).map _) rfl
  | getOpenKey path => exact Program.Works.keepsTo ((works_getRecord _ _ _).map _) rfl
  | getKey path => exact Program.Works.keepsTo ((works_getRecord _ _ _).map _) rfl
  | putOpenKey record => exact Program.Works.keepsTo ((works_putRecord _ _ _).map _) rfl
  | putKey record => exact Program.Works.keepsTo ((works_putRecord _ _ _).map _) rfl
  | deleteOpenKey path => exact Program.Works.keepsTo ((works_delete _ _).map _) rfl
  | commit path => exact Program.Works.keepsTo ((works_commit path).map _) rfl

end ObjectMeta
