import ObjectMeta.Proofs.Operation.Alone
import ObjectMeta.Proofs.Operation.LockStack
import ObjectMeta.Proofs.Operation.Nesting

/-!
# What is created

The tables of volumes and buckets are written by the calls that create these and by no others.  Such
a call writes one entry, after it has found under its locks that the entry is not there yet and, for
a bucket, that the volume is (`Call.registers`); it then returns what it wrote, and a failure says
what the call has found (`Call.decides`).  Nothing is deleted from these tables.  As with nesting,
nothing is assumed of what the calls read.
-/

namespace ObjectMeta

open Operation Program

/-! ## 1. Volumes and buckets -/

def Table.isRegistry : Table → Bool
  | volumes | buckets => true
  | _ => false

inductive Creation where
  | volume (name : String)
  | bucket (volumeName name : String)
  deriving DecidableEq

namespace Creation

def table : Creation → Table
  | volume _ => .volumes
  | bucket .. => .buckets

def path : Creation → ResourcePath
  | volume v => .volume v
  | bucket v b => .bucket v b

def key (c : Creation) : Bytes := c.path.tableKey

def alreadyThere : Creation → OperationError
  | volume v => .resourceExists .volume v
  | bucket v b => .resourceExists .bucket (bucketName v b)

def Valid : Creation → Prop
  | volume v => ValidName v
  | bucket v b => ValidName v ∧ ValidName b

theorem isRegistry_table (c : Creation) : c.table.isRegistry = true := by
  cases c <;> rfl

/-- A call has found that the entry is not there yet, but what it is created in is. -/
structure Cleared (c : Creation) (trace : Trace) : Prop where
  free : ⟨.contains c.table c.key, .ok false⟩ ∈ trace
  inVolume : ∀ v b, c = bucket v b → ⟨.contains .volumes (volume v).key, .ok true⟩ ∈ trace

end Creation

def Call.creates? : Call → Option Creation
  | createVolume volume _ => some (.volume volume)
  | createBucket volume bucket => some (.bucket volume bucket)
  | _ => none

/-- The bytes describe what a call has created, with the names and the owner it was asked for. -/
inductive Call.Describes : Call → Outcome → Bytes → Prop where
  | volume {volume owner : String} {info : VolumeInfo} (name : info.name = volume)
      (ownedBy : info.owner = owner) :
      Describes (.createVolume volume owner) (.volume info) (Stored.encode info)
  | bucket {volume bucket : String} {info : BucketInfo}
      (names : info.volume = volume ∧ info.name = bucket) :
      Describes (.createBucket volume bucket) (.bucket info) (Stored.encode info)

def Access.storeError? : Access → Option StoreError
  | ⟨.get .., .error e⟩ => some e
  | ⟨.contains .., .error e⟩ => some e
  | ⟨.put .., .error e⟩ => some e
  | ⟨.delete .., .error e⟩ => some e
  | _ => none

/-- The error is a failure of the store that was met on the way. -/
def Trace.FailedBy (trace : Trace) (e : OperationError) : Prop :=
  ∃ access ∈ trace, ∃ x, access.storeError? = some x ∧ e = .store x

/-- How a call that creates something ends: with what it has written, or with what kept it from
that. -/
def Creation.Decides (c : Creation) (call : Call) (trace : Trace) :
    Except OperationError Outcome → Prop
  | .ok outcome => c.Valid ∧ c.Cleared trace ∧
    ∃ value, call.Describes outcome value ∧ (c.table, c.key, value) ∈ trace.puts
  | .error e => ¬c.Valid ∨ trace.FailedBy e ∨ e = c.alreadyThere ∨
    ∃ v b, c = bucket v b ∧ e = .resourceNotFound .volume v ∧
      ⟨.contains .volumes (volume v).key, .ok false⟩ ∈ trace

/-! ## 2. What calls write -/

/-- The action writes to the tables of volumes and buckets only what the call creates, once that is
cleared and before anything else is written. -/
def Action.Registers (call : Call) (trace : Trace) : Action → Prop
  | put table key _ => table.isRegistry = true → ∃ c, call.creates? = some c ∧ c.Valid ∧
    table = c.table ∧ key = c.key ∧ c.Cleared trace ∧ trace.Intact
  | delete table _ => table.isRegistry = false
  | _ => True

namespace Creation

variable {c : Creation} {call : Call} {trace : Trace}

/-- What decides a call stays decided. -/
theorem Decides.concat {r : Except OperationError Outcome} (h : c.Decides call trace r)
    (access : Access) : c.Decides call (trace ++ [access]) r := by
  cases r with
  | ok outcome =>
    obtain ⟨hvalid, ⟨hfree, hvolume⟩, value, hdescribes, hput⟩ := h
    refine ⟨hvalid, ⟨List.mem_append_left _ hfree, fun v b hc => ?_⟩, value, hdescribes, ?_⟩
    · exact List.mem_append_left _ (hvolume v b hc)
    · rw [Trace.puts_append]
      exact List.mem_append_left _ hput
  | error e =>
    obtain hvalid | ⟨failed, hmem, hfailed⟩ | hthere | ⟨v, b, hc, he, hnone⟩ := h
    · exact .inl hvalid
    · exact .inr (.inl ⟨failed, List.mem_append_left _ hmem, hfailed⟩)
    · exact .inr (.inr (.inl hthere))
    · exact .inr (.inr (.inr ⟨v, b, hc, he, List.mem_append_left _ hnone⟩))

/-- A call fails with the store. -/
theorem decides_of_storeError (c : Creation) (call : Call) {access : Access} {x : StoreError}
    (h : access.storeError? = some x) : c.Decides call (trace ++ [access]) (.error (.store x)) :=
  .inr (.inl ⟨access, List.mem_append_right _ (List.mem_singleton_self _), x, h, rfl⟩)

def Decided {α : Type} (c : Creation) (call : Call) (wrap : α → Outcome) (trace : Trace)
    (op : Operation α) : Prop :=
  op.run.Always (fun _ => True) (fun trace action => action.Registers call trace)
    (fun trace r => c.Decides call trace (r.map wrap)) trace

variable {α : Type} {wrap : α → Outcome}

theorem Decided.checked {check : Except RequestError Unit} {op : Operation α}
    (hinvalid : check ≠ .ok () → ¬c.Valid) (hok : check = .ok () → c.Decided call wrap trace op) :
    c.Decided call wrap trace (do checked check; op) := by
  show Always _ _ _ _ (ExceptT.run _)
  rw [run_eq_followedBy, bind_followedBy, checked_followedBy]
  cases check with
  | error e => exact .inl (hinvalid nofun)
  | ok u =>
    show Always _ _ _ _ (op.followedBy _)
    rw [← run_eq_followedBy]
    exact hok rfl

theorem Decided.locked {path : ResourcePath} {mode : LockMode} {body : Operation α}
    (h : c.Decided call wrap (trace ++ [⟨.acquire path mode, ()⟩]) body) :
    c.Decided call wrap trace (locked path mode body) :=
  locked_always trivial h fun _ _ hends => ⟨trivial, hends.concat _⟩

/-- A call that has looked whether there is an entry goes on with the answer. -/
theorem Decided.contains {table : Table} {path : ResourcePath} {f : Bool → Operation α}
    (h : ∀ found, c.Decided call wrap
      (trace ++ [⟨.contains table path.tableKey, .ok found⟩]) (f found)) :
    c.Decided call wrap trace (contains table path >>= f) := by
  show Always _ _ _ _ (ExceptT.run _)
  rw [run_eq_followedBy, bind_followedBy, contains_followedBy]
  refine ⟨trivial, fun answer _ => ?_⟩
  cases answer with
  | error x => exact decides_of_storeError c call rfl
  | ok found =>
    show Always _ _ _ _ ((f found).followedBy _)
    rw [← run_eq_followedBy]
    exact h found

/-- What is cleared is written, with the time of writing. -/
theorem Decided.write [Stored α] {record : Int64 → α} (hcreates : call.creates? = some c)
    (hvalid : c.Valid) (hcleared : c.Cleared trace) (hintact : trace.Intact)
    (hdescribes : ∀ time, call.Describes (wrap (record time)) (Stored.encode (record time))) :
    c.Decided call wrap trace (do
      let time ← now
      putRecord c.table c.path (record time)
      return record time) := by
  show Always _ _ _ _ (ExceptT.run _)
  rw [run_eq_followedBy, bind_followedBy, now_followedBy]
  refine ⟨trivial, fun time _ => ?_⟩
  show Always _ _ _ _ (onSuccess _ _ (.ok time))
  rw [onSuccess_ok, bind_followedBy, putRecord_followedBy]
  have hcleared' : c.Cleared (trace ++ [⟨.now, time⟩]) := by
    refine ⟨List.mem_append_left _ hcleared.free, fun v b hc => ?_⟩
    exact List.mem_append_left _ (hcleared.inVolume v b hc)
  have hintact' : Trace.Intact (trace ++ [⟨.now, time⟩]) := by
    intro access hmem
    rcases List.mem_append.1 hmem with hmem | hmem
    · exact hintact access hmem
    · rw [List.mem_singleton.1 hmem]
      rfl
  refine ⟨fun _ => ⟨c, hcreates, hvalid, rfl, rfl, hcleared', hintact'⟩, fun answer _ => ?_⟩
  cases answer with
  | error x => exact decides_of_storeError c call rfl
  | ok u =>
    refine ⟨hvalid, ⟨List.mem_append_left _ hcleared'.free, fun v b hc => ?_⟩, _,
      hdescribes time, ?_⟩
    · exact List.mem_append_left _ (hcleared'.inVolume v b hc)
    · rw [Trace.puts_append]
      exact List.mem_append_right _ (List.mem_singleton_self _)

end Creation

variable (service : KeyService)

theorem createVolume_decides (volume owner : String) :
    ((Call.createVolume volume owner).program service).Always (fun _ => True)
      (fun trace action => action.Registers (.createVolume volume owner) trace)
      ((Creation.volume volume).Decides (.createVolume volume owner)) [] := by
  refine Call.always_of_operation rfl (Creation.Decided.checked ?_ fun hv => .locked ?_)
  · exact fun hinvalid hv => hinvalid (validateVolumeName_eq_ok_iff.2 hv)
  · refine .contains fun found => ?_
    cases found with
    | true => exact .inr (.inr (.inl rfl))
    | false =>
      have hcleared : (Creation.volume volume).Cleared
          [⟨.acquire (.volume volume) .write, ()⟩,
            ⟨.contains .volumes (ResourcePath.volume volume).tableKey, .ok false⟩] :=
        ⟨by simp [Creation.table, Creation.key, Creation.path], nofun⟩
      exact .write rfl (validateVolumeName_eq_ok_iff.1 hv) hcleared
        (by simp [Trace.Intact, Action.isHarmless]) fun time => .volume rfl rfl

theorem createBucket_decides (volume bucket : String) :
    ((Call.createBucket volume bucket).program service).Always (fun _ => True)
      (fun trace action => action.Registers (.createBucket volume bucket) trace)
      ((Creation.bucket volume bucket).Decides (.createBucket volume bucket)) [] := by
  refine Call.always_of_operation rfl (Creation.Decided.checked ?_ fun hv =>
    .checked ?_ fun hb => .locked (.locked ?_))
  · exact fun hinvalid h => hinvalid (validateVolumeName_eq_ok_iff.2 h.1)
  · exact fun hinvalid h => hinvalid (validateBucketName_eq_ok_iff.2 h.2)
  · refine .contains fun found => ?_
    cases found with
    | false =>
      exact .inr (.inr (.inr ⟨volume, bucket, rfl, rfl, by simp [Creation.key, Creation.path]⟩))
    | true =>
      refine .contains fun found => ?_
      cases found with
      | true => exact .inr (.inr (.inl rfl))
      | false =>
        have hvalid : (Creation.bucket volume bucket).Valid :=
          ⟨validateVolumeName_eq_ok_iff.1 hv, validateBucketName_eq_ok_iff.1 hb⟩
        refine .write rfl hvalid ⟨?_, ?_⟩ ?_ fun time => .bucket ⟨rfl, rfl⟩
        · simp [Creation.table, Creation.key, Creation.path]
        · rintro v b hc
          cases hc
          simp [Creation.key, Creation.path]
        · simp [Trace.Intact, Action.isHarmless]

/-- Calls that take no locks leave volumes and buckets alone. -/
theorem plain_registers {call : Call} (hg : call.isGuarded = false) :
    (call.program service).Always (fun _ => True)
      (fun trace action => action.Registers call trace) (fun _ _ => True) [] := by
  cases call with
  | putKey record =>
    rw [putKey_program]
    exact ⟨fun h => absurd h (by decide), fun _ _ => trivial⟩
  | putOpenKey record =>
    rw [putOpenKey_program]
    exact ⟨fun h => absurd h (by decide), fun _ _ => trivial⟩
  | deleteOpenKey path =>
    rw [deleteOpenKey_program]
    exact ⟨rfl, fun _ _ => trivial⟩
  | commit path =>
    rw [commit_program]
    refine ⟨trivial, fun answer _ => ?_⟩
    dsimp only
    obtain e | (_ | record) := readRecord KeyRecord answer
    · trivial
    · trivial
    · refine ⟨fun h => absurd h (by decide), fun answer _ => ?_⟩
      cases answer with
      | error e => trivial
      | ok u => exact ⟨rfl, fun _ _ => trivial⟩
  | getVolume | getBucket | checkBucket | getOpenKey | getKey =>
    rw [Call.program, run_eq_followedBy, Call.operation]
    simp [Operation.getVolume, Operation.getBucket, Operation.checkBucketExists,
      Operation.getOpenKey, Operation.getKey, Except.mapError, Always, Action.Registers]
  | _ => cases hg

variable {service} {call : Call} {trace : Trace}

/-- Whatever a call does next, it writes to volumes and buckets only what it creates. -/
theorem Call.registers {action : Action}
    {next : action.Answer → Program (Except OperationError Outcome)}
    (hl : (call.program service).Leads trace (.step action next)) :
    action.Registers call trace := by
  have hplain : call.isGuarded = false → action.Registers call trace := fun hg =>
    (Always.of_leads (plain_registers service hg) hl fun _ _ => trivial).1
  -- the calls on keys leave open keys behind, or nothing
  have hkeys : call.request?.isSome = true → action.Registers call trace := by
    intro hrequest
    have hg : call.isGuarded = true := by cases call <;> first | rfl | cases hrequest
    cases action with
    | put table key value =>
      obtain ⟨found, outcome, hleaves⟩ := Call.exists_leaves_of_put service hg hl
      intro hregistry
      cases hleaves with
      | volume | bucket => cases hrequest
      | opened | extended => exact absurd hregistry (by decide)
    | delete table key =>
      exact (Always.of_leads (Call.nested service hg) hl fun _ _ => trivial).1.elim
    | _ => trivial
  cases call with
  | createVolume volume owner =>
    exact (Always.of_leads (createVolume_decides service volume owner) hl fun _ _ => trivial).1
  | createBucket volume bucket =>
    exact (Always.of_leads (createBucket_decides service volume bucket) hl fun _ _ => trivial).1
  | openKey | allocateBlock | lookupKey => exact hkeys rfl
  | _ => exact hplain rfl

/-- A call that creates something has ended with it, or with what kept the call from that. -/
theorem Call.decides {c : Creation} (hcreates : call.creates? = some c)
    {result : Except OperationError Outcome}
    (hl : (call.program service).Leads trace (.done result)) : c.Decides call trace result := by
  cases call with
  | createVolume volume owner =>
    cases hcreates
    exact Always.of_leads (createVolume_decides service volume owner) hl fun _ _ => trivial
  | createBucket volume bucket =>
    cases hcreates
    exact Always.of_leads (createBucket_decides service volume bucket) hl fun _ _ => trivial
  | _ => cases hcreates

/-- An entry of volumes or buckets that the call does not create now stays as it is. -/
theorem Action.Registers.spares {action : Action} (h : action.Registers call trace)
    (answer : action.Answer) {table : Table} {key : Bytes} (htable : table.isRegistry = true)
    (hother : ∀ c, call.creates? = some c → c.Cleared trace → trace.Intact → table = c.table →
      key ≠ c.key) : Access.Spares table key ⟨action, answer⟩ := by
  refine Access.spares_of (fun value hput => ?_) (fun hdelete => ?_)
  · have haction : action = _ := Access.action_of_put? hput
    subst haction
    obtain ⟨c, hcreates, -, hc, hkey, hcleared, hintact⟩ := h htable
    exact hother c hcreates hcleared hintact hc hkey
  · have haction : action = _ := hdelete
    subst haction
    have hplain : table.isRegistry = false := h
    rw [hplain] at htable
    cases htable

theorem Access.applied_of_put? {access : Access} {table : Table} {key value : Bytes}
    (h : access.put? = some (table, key, value)) (store : Store) :
    access.applied store = store.put table key value := by
  unfold put? at h
  split at h
  · cases h
    rfl
  · cases h

theorem Call.mem_lockStack_of_creates {c : Creation} (hcreates : call.creates? = some c) :
    ⟨c.path, .write⟩ ∈ call.lockStack := by
  cases call with
  | createVolume | createBucket =>
    cases hcreates
    exact List.mem_cons_self ..
  | _ => cases hcreates

/-! ## 3. Checking for a bucket -/

def Trace.Passes (trace : Trace) (volume bucket : String) : Prop :=
  ∀ c ∈ [Creation.volume volume, Creation.bucket volume bucket],
    ⟨.contains c.table c.key, .ok true⟩ ∈ trace

def Trace.Checks (trace : Trace) (volume bucket : String) : Except OperationError Outcome → Prop
  | .ok outcome => outcome = .unit ∧ trace.Passes volume bucket
  | .error e => trace.FailedBy e ∨
    ∃ c ∈ [Creation.volume volume, Creation.bucket volume bucket],
      ⟨.contains c.table c.key, .ok false⟩ ∈ trace

theorem checkBucket_checks {volume bucket : String} {result : Except OperationError Outcome}
    (hl : ((Call.checkBucket volume bucket).program service).Leads trace (.done result)) :
    trace.Checks volume bucket result := by
  have halways : ((Call.checkBucket volume bucket).program service).Always (fun _ => True)
      (fun _ _ => True) (fun trace r => trace.Checks volume bucket r) [] := by
    rw [Call.program, run_eq_followedBy, Call.operation]
    simp [Operation.checkBucketExists, Except.mapError, Except.map, Always, Trace.Checks,
      Trace.Passes, Trace.FailedBy, Access.storeError?, Creation.table, Creation.key, Creation.path]
  exact Always.of_leads halways hl fun _ _ => trivial

variable {S : SignatureScheme} {A : AllocationService} {τ : Type} [DecidableEq τ]
  {w : World S A τ} {t : τ}

/-- Where both entries are, and the store does not fail, the check passes. -/
theorem checkBucket_runAlone {volume bucket : String} (hfaults : w.store.faults = [])
    (hvolume : w.store.store.contains .volumes (Creation.volume volume).key = true)
    (hbucket : w.store.store.contains .buckets (Creation.bucket volume bucket).key = true) :
    (((Call.checkBucket volume bucket).program service).runAlone t w).1 = .ok .unit := by
  rw [Call.program, run_eq_followedBy, Call.operation]
  simp only [Creation.key, Creation.path] at hvolume hbucket
  simp [Operation.checkBucketExists, Except.mapError, runAlone, World.perform,
    FaultyStore.contains, FaultyStore.attempt_of_faultless, hfaults, hvolume, hbucket]

/-! ## 4. Reading back -/

def Creation.getCall : Creation → Call
  | volume v => .getVolume v
  | bucket v b => .getBucket v b

def Outcome.Fits : Outcome → Prop
  | volume info => LawfulStored.fits info
  | bucket info => LawfulStored.fits info
  | _ => True

/-- What a call has created is read back as the call returned it. -/
theorem Call.Describes.runAlone_getCall {c : Creation} {outcome : Outcome} {value : Bytes}
    (h : call.Describes outcome value) (hcreates : call.creates? = some c) (hfits : outcome.Fits)
    (hfaults : w.store.faults = []) (hget : w.store.store.get c.table c.key = some value) :
    ((c.getCall.program service).runAlone t w).1 = .ok outcome := by
  cases h with
  | volume | bucket =>
    cases hcreates
    simp only [Creation.table, Creation.key, Creation.path] at hget
    rw [Creation.getCall, Call.program, run_eq_followedBy, Call.operation, map_followedBy]
    simp [Operation.getVolume, Operation.getBucket, runAlone, World.perform_get hfaults, hget,
      readRecord, Stored.decode_encode hfits, Except.mapError, Except.map]

end ObjectMeta
