import ObjectMeta.Proofs.Operation.Discipline
import ObjectMeta.Proofs.Operation.Execution

/-!
# The operations keep the discipline

Creating volumes and buckets, opening, extending and looking up keys are disciplined, and each of
them either settles at once or gathers until it does (`Call.disciplined`, `Call.settles`).
-/

namespace ObjectMeta

open Operation Program

/-- The calls that take the locks of what they touch. -/
def Call.isGuarded : Call → Bool
  | createVolume .. | createBucket .. | openKey _ | allocateBlock .. | lookupKey _ => true
  | _ => false

/-! ## 1. Requests -/

theorem KeyRequest.validate_eq_ok {request : KeyRequest} (h : request.validate = .ok ()) :
    ValidName request.volume ∧ ValidName request.bucket ∧ request.key ≠ "" := by
  rw [validate] at h
  cases hv : validateVolumeName request.volume with
  | error e => rw [hv] at h; cases h
  | ok u =>
    cases hb : validateBucketName request.bucket with
    | error e => rw [hv, hb] at h; cases h
    | ok u' =>
      refine ⟨validateVolumeName_eq_ok_iff.1 hv, validateBucketName_eq_ok_iff.1 hb, fun hk => ?_⟩
      rw [hv, hb, if_pos hk] at h
      cases h

/-! ## 2. Checks and fresh tokens -/

variable {α : Type} (service : KeyService)

/-- What the first of two operations leaves is what the second goes on from, if the first succeeds. -/
theorem bind_always {β : Type} {credible : Access → Prop} {fair : Trace → Action → Prop}
    {mid : Trace → Except OperationError α → Prop} {good : Trace → Except OperationError β → Prop}
    {trace : Trace} {op : Operation α} {f : α → Operation β}
    (h : op.run.Always credible fair mid trace)
    (herror : ∀ trace e, mid trace (.error e) → good trace (.error e))
    (hok : ∀ trace a, mid trace (.ok a) → (f a).run.Always credible fair good trace) :
    (op >>= f).run.Always credible fair good trace := by
  rw [run_eq_followedBy, bind_followedBy]
  refine h.bind fun trace' r hr => ?_
  cases r with
  | error e => exact herror trace' e hr
  | ok a =>
    rw [onSuccess_ok, ← run_eq_followedBy]
    exact hok trace' a hr

/-- What does not pass its check fails before its first action. -/
theorem checked_always {credible : Access → Prop} {fair : Trace → Action → Prop}
    {good : Trace → Except OperationError α → Prop} {trace : Trace} {op : Operation α}
    {check : Except RequestError Unit} (herror : ∀ e, good trace (.error e))
    (hok : check = .ok () → op.run.Always credible fair good trace) :
    (do checked check; op : Operation α).run.Always credible fair good trace := by
  rw [run_eq_followedBy, bind_followedBy, checked_followedBy]
  cases check with
  | error e => exact herror _
  | ok u =>
    show (op.followedBy .done).Always credible fair good trace
    rw [← run_eq_followedBy]
    exact hok rfl

/-- What the body leaves under the lock is what is left once the lock is given back. -/
theorem locked_always {credible : Access → Prop} {fair : Trace → Action → Prop}
    {mid good : Trace → Except OperationError α → Prop} {trace : Trace} {path : ResourcePath}
    {mode : LockMode} {body : Operation α} (hacquire : fair trace (.acquire path mode))
    (hbody : body.run.Always credible fair mid (trace ++ [⟨.acquire path mode, ()⟩]))
    (hrelease : ∀ trace r, mid trace r →
      fair trace (.release path mode) ∧ good (trace ++ [⟨.release path mode, ()⟩]) r) :
    (locked path mode body).run.Always credible fair good trace := by
  rw [run_eq_followedBy, locked_followedBy]
  refine ⟨hacquire, fun _ _ => hbody.bind fun trace' r hmid => ?_⟩
  exact ⟨(hrelease trace' r hmid).1, fun _ _ => (hrelease trace' r hmid).2⟩

/-- A call does what its operation does, and wraps up the result. -/
theorem Call.always_of_operation {credible : Access → Prop} {fair : Trace → Action → Prop}
    {good : Trace → Except OperationError Outcome → Prop} {service : KeyService} {call : Call}
    {wrap : α → Outcome} {op : Operation α} (hcall : call.operation service = wrap <$> op)
    (h : op.run.Always credible fair (fun trace r => good trace (r.map wrap)) []) :
    (call.program service).Always credible fair good [] := by
  rw [Call.program, hcall, run_eq_followedBy, map_followedBy]
  exact h.bind fun _ _ hgood => hgood

/-- What minting cannot break holds after the tokens are refreshed. -/
theorem refreshTokens_always {credible : Access → Prop} {fair : Trace → Action → Prop}
    {good : Trace → α → Prop} {inv : Trace → Prop} (request : KeyRequest)
    (locations : List BlockLocation) {k : Except OperationError (List BlockLocation) → Program α}
    (hfair : ∀ trace owner block length, inv trace → fair trace (.mint owner block length))
    (hinv : ∀ trace owner block length answer, inv trace →
      inv (trace ++ [⟨.mint owner block length, answer⟩]))
    (hk : ∀ trace r, inv trace → (k r).Always credible fair good trace) {trace : Trace}
    (h : inv trace) :
    ((service.refreshTokens request locations).followedBy k).Always credible fair good trace := by
  induction locations generalizing k trace with
  | nil => exact hk trace _ h
  | cons location rest ih =>
    rw [KeyService.refreshTokens, bind_followedBy, mint_followedBy]
    refine ⟨hfair _ _ _ _ h, fun answer _ => ?_⟩
    cases answer with
    | error e => exact hk _ _ (hinv _ _ _ _ _ h)
    | ok token =>
      -- the rest of the tokens are minted after this one
      show ((_ >>= _ : Operation _).followedBy k).Always credible fair good _
      rw [bind_followedBy]
      refine ih (fun trace r ht => ?_) (hinv _ _ _ _ _ h)
      cases r with
      | error e => exact hk _ _ ht
      | ok fresh => exact hk _ _ ht

theorem refreshTokens_settled {mayPut : Bool} (request : KeyRequest)
    (locations : List BlockLocation)
    {k : Except OperationError (List BlockLocation) → Program α}
    (hk : ∀ r, (k r).Settled mayPut) :
    ((service.refreshTokens request locations).followedBy k).Settled mayPut := by
  induction locations generalizing k with
  | nil => exact hk _
  | cons location rest ih =>
    rw [KeyService.refreshTokens, bind_followedBy, mint_followedBy]
    intro answer
    cases answer with
    | error e => exact hk _
    | ok token =>
      show ((_ >>= _ : Operation _).followedBy k).Settled _
      rw [bind_followedBy]
      refine ih fun r => ?_
      cases r with
      | error e => exact hk _
      | ok fresh => exact hk _

/-! ## 3. Discipline -/

theorem createVolume_disciplined (volume owner : String) :
    ((Call.createVolume volume owner).program service).Disciplined [] := by
  rw [Call.program, run_eq_followedBy, Call.operation]
  cases hv : validateVolumeName volume with
  | error e => simp [createVolume, hv, Except.mapError]
  | ok u =>
    have hcover : Covers [⟨.volume volume, .write⟩] .write .volumes
        (ResourcePath.volume volume).tableKey := .volume (.inl (List.mem_singleton_self _)) rfl
    simp [createVolume, hv, Except.mapError, Action.Fair, Filed, Trace.held,
      Access.heldAfter, hcover]

theorem createBucket_disciplined (volume bucket : String) :
    ((Call.createBucket volume bucket).program service).Disciplined [] := by
  rw [Call.program, run_eq_followedBy, Call.operation]
  cases hv : validateVolumeName volume with
  | error e => simp [createBucket, hv, Except.mapError]
  | ok u =>
    cases hb : validateBucketName bucket with
    | error e => simp [createBucket, hv, hb, Except.mapError]
    | ok u' =>
      -- Volume first, then bucket: only the bucket's lock is taken for writing.
      have hcover : Covers [⟨.bucket volume bucket, .write⟩, ⟨.volume volume, .read⟩] .write
          .buckets (ResourcePath.bucket volume bucket).tableKey :=
        .bucket (validateVolumeName_eq_ok_iff.1 hv) (.inl (List.mem_cons_self ..)) rfl
      simp [createBucket, hv, hb, Except.mapError, Action.Fair, Filed,
        Trace.held, Access.heldAfter, hcover]

variable {request : KeyRequest}

theorem writeFirst_disciplined (committed? : Option KeyRecord)
    {k : Except OperationError KeyRecord → Program α} {trace : Trace} {held : List LockGuard}
    (hheld : trace.held = held) (hcover : Covers held .write .openKeys request.path.tableKey)
    (hfiled : ∀ location time, Filed .openKeys request.path.tableKey
      (Stored.encode (KeyService.firstRecord request committed? location time)))
    (hk : ∀ trace r, trace.held = held → (k r).Disciplined trace) :
    ((service.writeFirst request committed?).followedBy k).Disciplined trace := by
  simp [KeyService.writeFirst, putOpenKey, Except.mapError, Except.map, Action.Fair,
    Access.Credible, Trace.held_append, Access.heldAfter, hheld, hcover, hfiled, hk]

theorem openKey_disciplined (hfits : LawfulStored.fits request.path.text) :
    ((Call.openKey request).program service).Disciplined [] := by
  rw [Call.program, run_eq_followedBy, Call.operation, KeyService.openKey_eq]
  cases hv : request.validate with
  | error e => simp [Except.mapError]
  | ok u =>
    obtain ⟨hvol, hbucket, -⟩ := request.validate_eq_ok hv
    have hcover : Covers [⟨request.bucketPath, .write⟩] .write .openKeys request.path.tableKey :=
      .keysOfBucket hvol hbucket (.inl (List.mem_singleton_self _)) rfl
    have hend : ∀ trace (r : Except OperationError KeyRecord),
        trace.held = [⟨request.bucketPath, .write⟩] →
        (step (.release request.bucketPath .write) fun _ => done (r.map Outcome.record)).Disciplined
          trace := by
      intro trace r hheld
      simp [Action.Fair, Trace.held_append, Access.heldAfter, hheld]
    -- Up to the committed key everything is read, and each failure gives the lock back.
    simp [Except.mapError, checkBucketExists, getKey, Action.Fair, Access.Credible, Filed,
      Trace.held, Access.heldAfter]
    intro _ value _
    cases readRecord KeyRecord (.ok value) with
    | error e => exact hend _ _ rfl
    | ok committed? =>
      exact writeFirst_disciplined service committed? rfl hcover
        (fun location time =>
          filed_encode (KeyService.firstRecord request committed? location time)
            (KeyRecord.fits_names hfits)) hend

theorem extendedRecord_path (record : KeyRecord) (number : UInt64) (location : BlockLocation)
    (time : Int64) :
    (KeyService.extendedRecord record number location time).path = record.path := by
  rw [KeyService.extendedRecord_eq]
  rfl

theorem writeNext_disciplined (number : UInt64) (record : KeyRecord)
    {k : Except OperationError BlockLocation → Program α} {trace : Trace} {held : List LockGuard}
    (hheld : trace.held = held) (hcover : Covers held .write .openKeys record.path.tableKey)
    (hfits : LawfulStored.fits record.path.text)
    (hk : ∀ trace r, trace.held = held → (k r).Disciplined trace) :
    ((service.writeNext request number record).followedBy k).Disciplined trace := by
  have hfiled : ∀ location time, Filed .openKeys record.path.tableKey
      (Stored.encode (KeyService.extendedRecord record number location time)) := by
    intro location time
    have hpath := extendedRecord_path record number location time
    have hnames :=
      (KeyService.extendedRecord record number location time).fits_names (hpath ▸ hfits)
    have hencode := filed_encode _ hnames
    rwa [hpath] at hencode
  simp [KeyService.writeNext, putOpenKey, extendedRecord_path, Except.mapError, Except.map,
    Action.Fair, Access.Credible, Trace.held_append, Access.heldAfter, hheld, hcover, hfiled, hk]

theorem readRecord_eq_ok_some {γ : Type} [Stored γ] {answer : Except StoreError (Option Bytes)}
    {record : γ} (h : readRecord γ answer = .ok (some record)) :
    ∃ bytes, answer = .ok (some bytes) ∧ Stored.decode γ bytes = .ok record := by
  obtain e | (_ | bytes) := answer
  · cases h
  · cases h
  · refine ⟨bytes, rfl, ?_⟩
    rw [readRecord] at h
    cases hd : Stored.decode γ bytes with
    | error e => rw [hd] at h; cases h
    | ok found =>
      rw [hd] at h
      cases h
      rfl

/-- A record that is found to have a version of this number is the one that was read. -/
theorem readRecord_filter_eq_some {answer : Except StoreError (Option Bytes)}
    {found? : Option KeyRecord} {record : KeyRecord} {number : UInt64}
    (h : readRecord KeyRecord answer = .ok found?)
    (hrecord : (found?.filter fun record => (record.version? number).isSome) = some record) :
    ∃ bytes, answer = .ok (some bytes) ∧ Stored.decode KeyRecord bytes = .ok record ∧
      (record.version? number).isSome = true := by
  obtain ⟨rfl, hversion⟩ := Option.filter_eq_some_iff.1 hrecord
  obtain ⟨bytes, hanswer, hdecode⟩ := readRecord_eq_ok_some h
  exact ⟨bytes, hanswer, hdecode, hversion⟩

theorem allocateBlock_disciplined (number : UInt64)
    (hfits : LawfulStored.fits request.path.text) :
    ((Call.allocateBlock request number).program service).Disciplined [] := by
  rw [Call.program, run_eq_followedBy, Call.operation, KeyService.allocateBlock_eq]
  cases hv : request.validate with
  | error e => simp [Except.mapError]
  | ok u =>
    obtain ⟨hvol, hbucket, -⟩ := request.validate_eq_ok hv
    have hcover : Covers [⟨request.path, .write⟩, ⟨request.bucketPath, .read⟩] .write .openKeys
        request.path.tableKey :=
      .openKey hvol hbucket (.inr ⟨rfl, by simp [KeyRequest.bucketPath]⟩)
        (.inl (List.mem_cons_self ..)) rfl
    -- However the body ends, both locks are given back, the latest first.
    have hend : ∀ trace (r : Except OperationError BlockLocation),
        trace.held = [⟨request.path, .write⟩, ⟨request.bucketPath, .read⟩] →
        (step (.release request.path .write) fun _ => step (.release request.bucketPath .read)
          fun _ => done (r.map Outcome.location)).Disciplined trace := by
      intro trace r hheld
      simp [Action.Fair, Access.Credible, Trace.held_append, Access.heldAfter, hheld]
    simp only [checked_followedBy, bind_followedBy, map_followedBy, Except.mapError, onSuccess_ok,
      locked_followedBy, getOpenKey, getRecord_followedBy, disciplined_step]
    refine ⟨trivial, fun _ _ => ⟨trivial, fun _ _ => ⟨trivial, fun answer hanswer => ?_⟩⟩⟩
    cases hr : readRecord KeyRecord answer with
    | error e => exact hend _ _ rfl
    | ok found =>
      rw [onSuccess_ok]
      split
      · next record hrecord =>
        obtain ⟨bytes, rfl, hdecode, -⟩ := readRecord_filter_eq_some hr hrecord
        -- The record is written under its own names; only a well-filed one is under the lock.
        have hpath : record.path.tableKey = request.path.tableKey := hanswer rfl record hdecode
        rw [ResourcePath.tableKey_inj] at hpath
        exact writeNext_disciplined service number record rfl (hpath ▸ hcover) (hpath ▸ hfits) hend
      · exact hend _ _ rfl

theorem refreshed_disciplined (record : KeyRecord)
    {k : Except OperationError KeyRecord → Program α} {trace : Trace} {held : List LockGuard}
    (hheld : trace.held = held) (hk : ∀ trace r, trace.held = held → (k r).Disciplined trace) :
    ((service.refreshed request record).followedBy k).Disciplined trace := by
  rw [KeyService.refreshed, map_followedBy]
  refine refreshTokens_always service request record.latestLocations (fun _ _ _ _ _ => trivial)
    (fun trace owner block length answer h => ?_) (fun trace r h => hk trace _ h) hheld
  rw [Trace.held_append, h]
  rfl

theorem lookupKey_disciplined : ((Call.lookupKey request).program service).Disciplined [] := by
  rw [Call.program, run_eq_followedBy, Call.operation, KeyService.lookupKey_eq]
  cases hv : request.validate with
  | error e => simp [Except.mapError]
  | ok u =>
    have hend : ∀ trace (r : Except OperationError KeyRecord),
        trace.held = [⟨request.path, .read⟩, ⟨request.bucketPath, .read⟩] →
        (step (.release request.path .read) fun _ => step (.release request.bucketPath .read)
          fun _ => done (r.map Outcome.record)).Disciplined trace := by
      intro trace r hheld
      simp [Action.Fair, Access.Credible, Trace.held_append, Access.heldAfter, hheld]
    simp only [checked_followedBy, bind_followedBy, map_followedBy, Except.mapError, onSuccess_ok,
      locked_followedBy, getKey, getRecord_followedBy, disciplined_step]
    refine ⟨trivial, fun _ _ => ⟨trivial, fun _ _ => ⟨trivial, fun answer _ => ?_⟩⟩⟩
    obtain e | (_ | record) := readRecord KeyRecord answer
    · exact hend _ _ rfl
    · -- there is no committed key, so the service may go on to the open one
      rw [onSuccess_ok, bind_followedBy]
      cases service.lookupOpenKeys with
      | false => exact hend _ _ rfl
      | true =>
        simp only [if_true, getOpenKey, getRecord_followedBy, disciplined_step]
        refine ⟨trivial, fun answer _ => ?_⟩
        obtain e | (_ | record) := readRecord KeyRecord answer
        · exact hend _ _ rfl
        · exact hend _ _ rfl
        · exact refreshed_disciplined service record rfl hend
    · exact refreshed_disciplined service record rfl hend

theorem Call.disciplined {call : Call} (hg : call.isGuarded = true)
    (hfits : ∀ request, call.request? = some request → LawfulStored.fits request.path.text) :
    (call.program service).Disciplined [] := by
  cases call with
  | createVolume volume owner => exact createVolume_disciplined service volume owner
  | createBucket volume bucket => exact createBucket_disciplined service volume bucket
  | openKey request => exact openKey_disciplined service (hfits request rfl)
  | allocateBlock request number =>
    exact allocateBlock_disciplined service number (hfits request rfl)
  | lookupKey request => exact lookupKey_disciplined service
  | _ => cases hg

/-! ## 4. Settling -/

theorem createVolume_settles (volume owner : String) :
    ((Call.createVolume volume owner).program service).Settled true ∨
      ((Call.createVolume volume owner).program service).Gathers [] := by
  rw [Call.program, run_eq_followedBy, Call.operation]
  cases hv : validateVolumeName volume with
  | error e => exact .inl (by simp [createVolume, hv, Except.mapError, Settled])
  | ok u =>
    have hcover : Covers [⟨.volume volume, .write⟩] .read .volumes
        (ResourcePath.volume volume).tableKey := .volume (.inl (List.mem_singleton_self _)) rfl
    refine .inr ?_
    simp [createVolume, hv, Except.mapError, Gathers, Settled, Action.Gathering, Access.Persists,
      Trace.held, Access.heldAfter, hcover]

theorem createBucket_settles (volume bucket : String) :
    ((Call.createBucket volume bucket).program service).Settled true ∨
      ((Call.createBucket volume bucket).program service).Gathers [] := by
  rw [Call.program, run_eq_followedBy, Call.operation]
  cases hv : validateVolumeName volume with
  | error e => exact .inl (by simp [createBucket, hv, Except.mapError, Settled])
  | ok u =>
    cases hb : validateBucketName bucket with
    | error e => exact .inl (by simp [createBucket, hv, hb, Except.mapError, Settled])
    | ok u' =>
      have hcover : Covers [⟨.bucket volume bucket, .write⟩, ⟨.volume volume, .read⟩] .read
          .buckets (ResourcePath.bucket volume bucket).tableKey :=
        .bucket (validateVolumeName_eq_ok_iff.1 hv) (.inl (List.mem_cons_self ..)) rfl
      refine .inr ?_
      simp [createBucket, hv, hb, Except.mapError, Gathers, Settled, Action.Gathering,
        Access.Persists, Trace.held, Access.heldAfter, hcover]

theorem writeFirst_gathers (committed? : Option KeyRecord)
    {k : Except OperationError KeyRecord → Program α} {trace : Trace}
    (hk : ∀ mayPut r, (k r).Settled mayPut) :
    ((service.writeFirst request committed?).followedBy k).Gathers trace := by
  simp [KeyService.writeFirst, putOpenKey, Except.mapError, Except.map, Gathers, Settled,
    Action.Gathering, hk]

theorem openKey_settles : ((Call.openKey request).program service).Settled true ∨
    ((Call.openKey request).program service).Gathers [] := by
  rw [Call.program, run_eq_followedBy, Call.operation, KeyService.openKey_eq]
  cases hv : request.validate with
  | error e => exact .inl (by simp [Except.mapError, Settled])
  | ok u =>
    -- The lock covers the entry of the bucket; a volume that was found stays, and no guarded call
    -- commits a key.
    have hcover : Covers [⟨request.bucketPath, .write⟩] .read .buckets
        (ResourcePath.bucket request.volume request.bucket).tableKey :=
      .bucket (request.validate_eq_ok hv).1 (.inl (List.mem_singleton_self _)) rfl
    refine .inr ?_
    simp [Except.mapError, checkBucketExists, getKey, Gathers, Settled, Action.Gathering,
      Access.Persists, Trace.held, Access.heldAfter, hcover]
    intro _ value
    cases readRecord KeyRecord (.ok value) with
    | error e => exact .inl trivial
    | ok committed? =>
      exact .inr (writeFirst_gathers service committed? fun mayPut r => by simp [Settled])

theorem writeNext_gathers (number : UInt64) (record : KeyRecord)
    {k : Except OperationError BlockLocation → Program α} {trace : Trace}
    (hk : ∀ mayPut r, (k r).Settled mayPut) :
    ((service.writeNext request number record).followedBy k).Gathers trace := by
  simp [KeyService.writeNext, putOpenKey, Except.mapError, Except.map, Gathers, Settled,
    Action.Gathering, hk]

theorem allocateBlock_settles (number : UInt64) :
    ((Call.allocateBlock request number).program service).Settled true ∨
      ((Call.allocateBlock request number).program service).Gathers [] := by
  rw [Call.program, run_eq_followedBy, Call.operation, KeyService.allocateBlock_eq]
  cases hv : request.validate with
  | error e => exact .inl (by simp [Except.mapError, Settled])
  | ok u =>
    obtain ⟨hvol, hbucket, -⟩ := request.validate_eq_ok hv
    have hcover : Covers [⟨request.path, .write⟩, ⟨request.bucketPath, .read⟩] .read .openKeys
        request.path.tableKey :=
      .openKey hvol hbucket (.inr ⟨rfl, by simp [KeyRequest.bucketPath]⟩)
        (.inl (List.mem_cons_self ..)) rfl
    refine .inr ?_
    simp [Except.mapError, getOpenKey, Gathers, Settled, Action.Gathering,
      Access.Persists, Trace.held, Access.heldAfter, hcover]
    intro _ value
    cases readRecord KeyRecord (.ok value) with
    | error e => exact .inl trivial
    | ok found =>
      simp only [onSuccess_ok]
      split
      · exact .inr (writeNext_gathers service number _ fun mayPut r => by simp [Settled])
      · exact .inl trivial

theorem refreshed_settled (record : KeyRecord) {k : Except OperationError KeyRecord → Program α}
    {mayPut : Bool} (hk : ∀ r, (k r).Settled mayPut) :
    ((service.refreshed request record).followedBy k).Settled mayPut := by
  rw [KeyService.refreshed, map_followedBy]
  exact refreshTokens_settled service request record.latestLocations fun r => hk _

theorem lookupKey_settles : ((Call.lookupKey request).program service).Settled true ∨
    ((Call.lookupKey request).program service).Gathers [] := by
  rw [Call.program, run_eq_followedBy, Call.operation, KeyService.lookupKey_eq]
  cases hv : request.validate with
  | error e => exact .inl (by simp [Except.mapError, Settled])
  | ok u =>
    obtain ⟨hvol, hbucket, -⟩ := request.validate_eq_ok hv
    have hcover : Covers [⟨request.path, .read⟩, ⟨request.bucketPath, .read⟩] .read .openKeys
        request.path.tableKey :=
      .openKey hvol hbucket (.inr ⟨rfl, by simp [KeyRequest.bucketPath]⟩)
        (.inr ⟨rfl, List.mem_cons_self ..⟩) rfl
    refine .inr ?_
    -- After the last read there are only tokens to mint and locks to give back.
    have hend : ∀ mayPut (r : Except OperationError KeyRecord),
        (step (.release request.path .read) fun _ => step (.release request.bucketPath .read)
          fun _ => done (r.map Outcome.record)).Settled mayPut := fun _ _ => trivial
    simp [Except.mapError, getKey, Gathers, Settled, Action.Gathering, Access.Persists]
    intro _ value
    obtain e | (_ | record) := readRecord KeyRecord (.ok value)
    · exact .inl trivial
    · cases service.lookupOpenKeys with
      | false => exact .inl trivial
      | true =>
        refine .inr ?_
        simp [getOpenKey, Gathers, Settled, Action.Gathering, Access.Persists, Trace.held,
          Access.heldAfter, hcover]
        intro value
        obtain e | (_ | record) := readRecord KeyRecord (.ok value)
        · exact .inl trivial
        · exact .inl trivial
        · exact .inl (refreshed_settled service record (hend true))
    · exact .inl (refreshed_settled service record (hend true))

theorem Call.settles {call : Call} (hg : call.isGuarded = true) :
    (call.program service).Settled true ∨ (call.program service).Gathers [] := by
  cases call with
  | createVolume volume owner => exact createVolume_settles service volume owner
  | createBucket volume bucket => exact createBucket_settles service volume bucket
  | openKey request => exact openKey_settles service
  | allocateBlock request number => exact allocateBlock_settles service number
  | lookupKey request => exact lookupKey_settles service
  | _ => cases hg

end ObjectMeta
