import Mathlib.Data.List.Forall2
import ObjectMeta.Proofs.Operation.Alike
import ObjectMeta.Proofs.Token.Minting

/-!
# Tokens decide nothing

No operation looks into a token, so calls that differ in tokens alone go alike, with and without an
authority (`Call.Alike.operation`).  Calls made one after the other therefore go the same way in two
services of which only one issues tokens: they ask for the same blocks, fail in the same way, and
return and store the same up to tokens (`World.visits_transparent`).
-/

namespace ObjectMeta

open Operation

/-! ## 1. Records without their tokens -/

theorem LocationVersion.appendTo_withoutTokens (number : UInt64) (location : BlockLocation)
    (versions : List LocationVersion) :
    (appendTo number location versions).map (List.map withoutTokens) =
      appendTo number location.withoutToken (versions.map withoutTokens) := by
  induction versions with
  | nil => rfl
  | cons version rest ih =>
    rw [List.map_cons, appendTo, appendTo]
    have hnumber : version.withoutTokens.number = version.number := rfl
    rw [hnumber]
    by_cases hsame : version.number = number
    · rw [if_pos hsame, if_pos hsame, Option.map_some, List.map_cons]
      simp only [append, withoutTokens, List.map_append, List.map_cons, List.map_nil]
    · rw [if_neg hsame, if_neg hsame, ← ih, Option.map_map, Option.map_map]
      rfl

namespace KeyRecord

variable (record : KeyRecord)

theorem latest?_withoutTokens :
    record.withoutTokens.latest? = record.latest?.map LocationVersion.withoutTokens :=
  List.getLast?_map

theorem latestNumber_withoutTokens : record.withoutTokens.latestNumber = record.latestNumber := by
  unfold latestNumber
  rw [latest?_withoutTokens, Option.map_map]
  rfl

theorem latestLocations_withoutTokens : record.withoutTokens.latestLocations =
    record.latestLocations.map BlockLocation.withoutToken := by
  unfold latestLocations
  rw [latest?_withoutTokens]
  cases record.latest? <;> rfl

theorem isSome_version?_withoutTokens (number : UInt64) :
    (record.withoutTokens.version? number).isSome = (record.version? number).isSome := by
  have hfind : record.withoutTokens.version? number =
      (record.version? number).map LocationVersion.withoutTokens := List.find?_map
  rw [hfind, Option.isSome_map]

theorem extendedRecord_withoutTokens (number : UInt64) (location : BlockLocation) (time : Int64) :
    (KeyService.extendedRecord record number location time).withoutTokens =
      KeyService.extendedRecord record.withoutTokens number location.withoutToken time := by
  have happend := LocationVersion.appendTo_withoutTokens number location record.versions
  have hversions : record.withoutTokens.versions =
      record.versions.map LocationVersion.withoutTokens := rfl
  unfold KeyService.extendedRecord appendLocation?
  rw [hversions, ← happend]
  cases LocationVersion.appendTo number location record.versions <;> rfl

end KeyRecord

/-- A key is opened with the same record up to tokens if the committed record and the block are the
same up to tokens. -/
theorem KeyService.firstRecord_withoutTokens (request : KeyRequest)
    {committed? committed?' : Option KeyRecord} {location location' : BlockLocation}
    (hcommitted : Option.Rel (fun record record' => record.withoutTokens = record'.withoutTokens)
      committed? committed?')
    (hlocation : location.withoutToken = location'.withoutToken) (time : Int64) :
    (firstRecord request committed? location time).withoutTokens =
      (firstRecord request committed?' location' time).withoutTokens := by
  have hversion : ∀ number, LocationVersion.withoutTokens ⟨number, [location]⟩ =
      LocationVersion.withoutTokens ⟨number, [location']⟩ := by
    intro number
    simp only [LocationVersion.withoutTokens, List.map_cons, List.map_nil, hlocation]
  cases hcommitted with
  | none => simp only [firstRecord, KeyRecord.withoutTokens, List.map_cons, List.map_nil, hversion]
  | @some record record' hrecords =>
    have hnumber : record.latestNumber = record'.latestNumber := by
      rw [← record.latestNumber_withoutTokens, hrecords, record'.latestNumber_withoutTokens]
    simp only [firstRecord, KeyRecord.withoutTokens, List.map_cons, List.map_nil, hversion, hnumber]

/-! ## 2. Calls -/

/-- The same call, or a write of records that differ in tokens only. -/
inductive Call.Alike : Call → Call → Prop where
  | same (call : Call) : Alike call call
  | putOpenKey {record record' : KeyRecord} (h : record.withoutTokens = record'.withoutTokens) :
      Alike (.putOpenKey record) (.putOpenKey record')
  | putKey {record record' : KeyRecord} (h : record.withoutTokens = record'.withoutTokens) :
      Alike (.putKey record) (.putKey record')

section Calls

variable (service : KeyService) (request : KeyRequest)

theorem allocateLocation_alike (size : Int64) (replicationType : ReplicationType)
    (replicationFactor : ReplicationFactor) :
    (service.allocateLocation request size replicationType replicationFactor).Alike
      (fun location location' => location.withoutToken = location'.withoutToken)
      (service.allocateLocation request size replicationType replicationFactor) := by
  refine (alike_perform _).bind fun answer answer' hanswers => ?_
  cases hanswers
  refine (alike_ofExcept .ofAllocation (agree_eq_iff.2 rfl)).bind fun block block' hblocks => ?_
  cases hblocks
  exact (alike_mint _ block size).bind fun _ _ _ => alike_pure rfl

theorem checkBucketExists_alike (volume bucket : String) :
    (checkBucketExists volume bucket).Alike Eq (checkBucketExists volume bucket) := by
  refine (alike_contains .volumes _).bind fun found found' hfound => ?_
  cases hfound
  cases found with
  | false => exact alike_throw _
  | true =>
    refine (alike_contains .buckets _).bind fun found found' hfound => ?_
    cases hfound
    cases found with
    | false => exact alike_throw _
    | true => exact alike_pure rfl

theorem openKey_alike : (service.openKey request).Alike
    (fun record record' => record.withoutTokens = record'.withoutTokens)
    (service.openKey request) := by
  rw [KeyService.openKey_eq]
  refine (alike_checked _).bind fun _ _ _ => Alike.locked _ _ ?_
  refine (checkBucketExists_alike _ _).bind fun _ _ _ => ?_
  refine (alike_getRecord_key .keys request.path).bind fun committed? committed?' hcommitted => ?_
  refine (allocateLocation_alike service request _ _ _).bind fun location location' hlocation => ?_
  refine alike_now.bind fun time time' htime => ?_
  cases htime
  have hrecord := KeyService.firstRecord_withoutTokens request hcommitted hlocation time
  exact (alike_putRecord_key (.inl rfl) hrecord).bind fun _ _ _ => alike_pure hrecord

theorem allocateBlock_alike (number : UInt64) : (service.allocateBlock request number).Alike
    (fun location location' => location.withoutToken = location'.withoutToken)
    (service.allocateBlock request number) := by
  rw [KeyService.allocateBlock_eq]
  refine (alike_checked _).bind fun _ _ _ => Alike.locked _ _ (Alike.locked _ _ ?_)
  refine (alike_getRecord_key .openKeys request.path).bind fun open? open?' hopen => ?_
  cases hopen with
  | none => exact alike_throw _
  | @some record record' hrecords =>
    have hversion : (record.version? number).isSome = (record'.version? number).isSome := by
      rw [← record.isSome_version?_withoutTokens, hrecords, record'.isSome_version?_withoutTokens]
    cases hfound : (record'.version? number).isSome with
    | false =>
      simp only [Option.filter, hversion, hfound]
      exact alike_throw _
    | true =>
      -- the replication of the new block is that of the record, on both sides
      have htype : record.withoutTokens.replicationType = record'.withoutTokens.replicationType :=
        congrArg _ hrecords
      have hfactor : record.withoutTokens.replicationFactor =
          record'.withoutTokens.replicationFactor := congrArg _ hrecords
      simp only [Option.filter, hversion, hfound, if_true, KeyService.writeNext]
      rw [show record.replicationType = record'.replicationType from htype,
        show record.replicationFactor = record'.replicationFactor from hfactor]
      refine (allocateLocation_alike service request _ _ _).bind fun location location' hsame => ?_
      refine alike_now.bind fun time time' htime => ?_
      cases htime
      have hextended : (KeyService.extendedRecord record number location time).withoutTokens =
          (KeyService.extendedRecord record' number location' time).withoutTokens := by
        rw [KeyRecord.extendedRecord_withoutTokens, hrecords, hsame,
          ← KeyRecord.extendedRecord_withoutTokens]
      exact (alike_putRecord_key (.inl rfl) hextended).bind fun _ _ _ => alike_pure hsame

/-- Fresh tokens change nothing but tokens. -/
theorem refreshTokens_alike {locations locations' : List BlockLocation}
    (h : locations.map BlockLocation.withoutToken = locations'.map BlockLocation.withoutToken) :
    (service.refreshTokens request locations).Alike
      (fun fresh fresh' =>
        fresh.map BlockLocation.withoutToken = locations.map BlockLocation.withoutToken ∧
          fresh'.map BlockLocation.withoutToken = locations'.map BlockLocation.withoutToken)
      (service.refreshTokens request locations') := by
  induction locations generalizing locations' with
  | nil =>
    rw [List.map_nil] at h
    rw [List.map_eq_nil_iff.1 h.symm]
    exact alike_pure ⟨rfl, rfl⟩
  | cons location rest ih =>
    cases locations' with
    | nil => cases h
    | cons location' rest' =>
      have ⟨hlocation, hrest⟩ := List.cons.inj h
      have hblock : location.withoutToken.block = location'.withoutToken.block :=
        congrArg _ hlocation
      have hlength : location.withoutToken.length = location'.withoutToken.length :=
        congrArg _ hlocation
      have hmint : (mint (service.tokenOwner request) location.block location.length).Alike
          (fun _ _ => True)
          (mint (service.tokenOwner request) location'.block location'.length) := by
        rw [show location.block = location'.block from hblock,
          show location.length = location'.length from hlength]
        exact alike_mint _ _ _
      refine hmint.bind fun token token' _ => ?_
      refine (ih hrest).bind fun fresh fresh' hfresh => alike_pure ⟨?_, ?_⟩
      · rw [List.map_cons, List.map_cons, hfresh.1]
        rfl
      · rw [List.map_cons, List.map_cons, hfresh.2]
        rfl

theorem refreshed_alike {record record' : KeyRecord}
    (h : record.withoutTokens = record'.withoutTokens) :
    (service.refreshed request record).Alike
      (fun found found' => found.withoutTokens = found'.withoutTokens)
      (service.refreshed request record') := by
  have hlocations : record.latestLocations.map BlockLocation.withoutToken =
      record'.latestLocations.map BlockLocation.withoutToken := by
    rw [← record.latestLocations_withoutTokens, h, record'.latestLocations_withoutTokens]
  have hfresh := refreshTokens_alike service request hlocations
  refine Alike.map (hfresh.mono fun fresh fresh' hboth => ?_)
  rw [KeyRecord.withLatestLocations_withoutTokens hboth.1,
    KeyRecord.withLatestLocations_withoutTokens hboth.2, h]

theorem lookupKey_alike : (service.lookupKey request).Alike
    (fun found found' => found.withoutTokens = found'.withoutTokens)
    (service.lookupKey request) := by
  rw [KeyService.lookupKey_eq]
  refine (alike_checked _).bind fun _ _ _ => Alike.locked _ _ (Alike.locked _ _ ?_)
  refine (alike_getRecord_key .keys request.path).bind fun committed? committed?' hcommitted => ?_
  cases hcommitted with
  | some hrecords => exact refreshed_alike service request hrecords
  | none =>
    cases service.lookupOpenKeys with
    | false => exact alike_throw _
    | true =>
      refine (alike_getRecord_key .openKeys request.path).bind fun open? open?' hopen => ?_
      cases hopen with
      | some hrecords => exact refreshed_alike service request hrecords
      | none => exact alike_throw _

theorem createVolume_alike (volume owner : String) :
    (createVolume volume owner).Alike Eq (createVolume volume owner) := by
  refine (alike_checked _).bind fun _ _ _ => Alike.locked _ _ ?_
  refine (alike_contains .volumes _).bind fun found found' hfound => ?_
  cases hfound
  cases found with
  | true => exact alike_throw _
  | false =>
    refine alike_now.bind fun time time' htime => ?_
    cases htime
    exact (alike_putRecord .volumes _ _).bind fun _ _ _ => alike_pure rfl

theorem createBucket_alike (volume bucket : String) :
    (createBucket volume bucket).Alike Eq (createBucket volume bucket) := by
  refine (alike_checked _).bind fun _ _ _ => (alike_checked _).bind fun _ _ _ => ?_
  refine Alike.locked _ _ (Alike.locked _ _ ?_)
  refine (alike_contains .volumes _).bind fun found found' hfound => ?_
  cases hfound
  cases found with
  | false => exact alike_throw _
  | true =>
    refine (alike_contains .buckets _).bind fun found found' hfound => ?_
    cases hfound
    cases found with
    | true => exact alike_throw _
    | false =>
      refine alike_now.bind fun time time' htime => ?_
      cases htime
      exact (alike_putRecord .buckets _ _).bind fun _ _ _ => alike_pure rfl

theorem commit_alike (path : ResourcePath) : (commit path).Alike Eq (commit path) := by
  refine (alike_getRecord_key .openKeys path).bind fun open? open?' hopen => ?_
  cases hopen with
  | none => exact alike_pure rfl
  | some hrecords =>
    refine (alike_putRecord_key (.inr rfl) hrecords).bind fun _ _ _ => ?_
    exact (alike_delete .openKeys path).bind fun _ _ _ => alike_pure rfl

/-- A record that was read, or that there is none. -/
theorem found_alike {op : Operation (Option KeyRecord)}
    (h : op.Alike (Option.Rel fun record record' => record.withoutTokens = record'.withoutTokens)
      op) :
    ((Option.elim · .absent Outcome.record) <$> op).Alike
      (fun outcome outcome' => outcome.withoutTokens = outcome'.withoutTokens)
      ((Option.elim · .absent Outcome.record) <$> op) := by
  refine Alike.map (h.mono fun found found' hfound => ?_)
  cases hfound with
  | none => rfl
  | some hrecords => exact congrArg Outcome.record hrecords

theorem putKey_alike {record record' : KeyRecord}
    (h : record.withoutTokens = record'.withoutTokens) :
    (putKey record).Alike Eq (putKey record') := alike_putRecord_key (.inr rfl) h

theorem putOpenKey_alike {record record' : KeyRecord}
    (h : record.withoutTokens = record'.withoutTokens) :
    (putOpenKey record).Alike Eq (putOpenKey record') := alike_putRecord_key (.inl rfl) h

/-- No call looks into a token. -/
theorem Call.Alike.operation {call call' : Call} (h : call.Alike call') :
    (call.operation service).Alike
      (fun outcome outcome' => outcome.withoutTokens = outcome'.withoutTokens)
      (call'.operation service) := by
  cases h with
  | putOpenKey h => exact (putOpenKey_alike h).map_eq fun _ => rfl
  | putKey h => exact (putKey_alike h).map_eq fun _ => rfl
  | same call =>
    cases call with
    | createVolume volume owner => exact (createVolume_alike volume owner).map_eq fun _ => rfl
    | createBucket volume bucket => exact (createBucket_alike volume bucket).map_eq fun _ => rfl
    | getVolume volume => exact (alike_getRecord VolumeInfo _ (by decide)).map_eq fun _ => rfl
    | getBucket volume bucket => exact (alike_getRecord BucketInfo _ (by decide)).map_eq fun _ => rfl
    | checkBucket volume bucket => exact (checkBucketExists_alike volume bucket).map_eq fun _ => rfl
    | openKey request =>
      exact Alike.map ((openKey_alike service request).mono fun _ _ => congrArg Outcome.record)
    | allocateBlock request number =>
      exact Alike.map ((allocateBlock_alike service request number).mono fun _ _ =>
        congrArg Outcome.location)
    | lookupKey request =>
      exact Alike.map ((lookupKey_alike service request).mono fun _ _ => congrArg Outcome.record)
    | getOpenKey path => exact found_alike (alike_getRecord_key .openKeys path)
    | getKey path => exact found_alike (alike_getRecord_key .keys path)
    | putOpenKey record => exact (putOpenKey_alike rfl).map_eq fun _ => rfl
    | putKey record => exact (putKey_alike rfl).map_eq fun _ => rfl
    | deleteOpenKey path => exact (alike_delete .openKeys path).map_eq fun _ => rfl
    | commit path => exact (commit_alike path).map_eq fun _ => rfl

theorem tokensAside_eq {result result' : Except OperationError Outcome}
    (h : Agree (fun outcome outcome' => outcome.withoutTokens = outcome'.withoutTokens) result
      result') : tokensAside result = tokensAside result' := by
  cases h with
  | ok houtcomes => exact congrArg Except.ok houtcomes
  | error e => rfl

end Calls

/-! ## 3. Calls one after the other -/

/-- A call of some thread, with the readings of the clocks and the faults of the store at the time. -/
structure Visit (τ : Type) where
  thread : τ
  call : Call
  clock : Int64
  ownTokenClock : Option Int64 := none
  faults : List StoreFault := []

structure Visited where
  accesses : Trace
  result : Except OperationError Outcome
  store : Store

/-- Equal calls, or writes of alike records, at the same reading of the metadata clock and with the
same faults.  The clocks that tokens go by may differ. -/
structure Visit.Alike {τ : Type} (visit visit' : Visit τ) : Prop where
  thread : visit.thread = visit'.thread
  call : visit.call.Alike visit'.call
  clock : visit.clock = visit'.clock
  faults : visit.faults = visit'.faults

/-- The same requests to the allocation service with the same answers, results that are equal apart
from tokens, and tables that are equal apart from tokens. -/
structure Visited.Alike (visited visited' : Visited) : Prop where
  allocations : visited.accesses.allocations = visited'.accesses.allocations
  result : tokensAside visited.result = tokensAside visited'.result
  store : visited.store.Alike visited'.store

def Visited.isShort (visited : Visited) : Bool := visited.accesses.all Access.isShort

section Visits

variable {S : SignatureScheme} {A : AllocationService} {τ : Type} [DecidableEq τ]
  (service : KeyService)

def World.at (w : World S A τ) (visit : Visit τ) : World S A τ :=
  { w with
    store := { w.store with faults := visit.faults }
    clock := visit.clock
    ownTokenClock := visit.ownTokenClock }

def World.withoutAuthority (w : World S A τ) : World S A τ := { w with authority := none }

def World.visit (w : World S A τ) (visit : Visit τ) : Visited × World S A τ :=
  let program := visit.call.program service
  let done := program.runAlone visit.thread (w.at visit)
  (⟨program.accesses visit.thread (w.at visit), done.1, done.2.store.store⟩, done.2)

def World.visits : World S A τ → List (Visit τ) → List Visited
  | _, [] => []
  | w, visit :: rest => (w.visit service visit).1 :: World.visits (w.visit service visit).2 rest

variable {service} {w w' : World S A τ}

omit [DecidableEq τ] in
theorem World.Parallels.at (h : w.Parallels w') {visit visit' : Visit τ}
    (hvisit : visit.Alike visit') : (w.at visit).Parallels (w'.at visit') where
  tables := h.tables
  faults := hvisit.faults
  allocator := h.allocator
  clock := hvisit.clock
  mints := h.mints
  mints' := h.mints'

theorem World.Parallels.visit (h : w.Parallels w') {visit visit' : Visit τ}
    (hvisit : visit.Alike visit') (hshort : (w.visit service visit).1.isShort = true)
    (hshort' : (w'.visit service visit').1.isShort = true) :
    (w.visit service visit).1.Alike (w'.visit service visit').1 ∧
      (w.visit service visit).2.Parallels (w'.visit service visit').2 := by
  unfold World.visit at hshort hshort' ⊢
  rw [← hvisit.thread] at hshort' ⊢
  have ⟨hresult, hallocations, hafter⟩ := Program.Alike.runAlone (hvisit.call.operation service)
    (h.at hvisit) visit.thread (List.all_eq_true.1 hshort) (List.all_eq_true.1 hshort')
  exact ⟨⟨hallocations, tokensAside_eq hresult, hafter.tables⟩, hafter⟩

theorem World.visits_alike (h : w.Parallels w') {visits visits' : List (Visit τ)}
    (halike : List.Forall₂ Visit.Alike visits visits')
    (hshort : ∀ visited ∈ w.visits service visits, visited.isShort = true)
    (hshort' : ∀ visited ∈ w'.visits service visits', visited.isShort = true) :
    List.Forall₂ Visited.Alike (w.visits service visits) (w'.visits service visits') := by
  induction halike generalizing w w' with
  | nil => exact .nil
  | @cons visit visit' rest rest' hvisit _ ih =>
    have ⟨hfirst, hothers⟩ := List.forall_mem_cons.1 hshort
    have ⟨hfirst', hothers'⟩ := List.forall_mem_cons.1 hshort'
    have ⟨hvisited, hafter⟩ := h.visit hvisit hfirst hfirst'
    exact .cons hvisited (ih hafter hothers hothers')

/-- Two services with the same store, allocation service and metadata clock, of which one has a
started token authority and the other has none, take the same calls one after the other.  Clients
may hand back to each what they were given by it.  At every call both ask for the same blocks, fail
in the same way or return the same up to tokens, and their tables have the same keys with the same
bytes or with records that are equal up to tokens, as long as no record is too long to be written. -/
theorem World.visits_transparent (w : World S A τ) {authority : TokenAuthority S}
    (hauthority : w.authority = some authority) (hstarted : authority.isStarted = true)
    {visits visits' : List (Visit τ)} (halike : List.Forall₂ Visit.Alike visits visits')
    (hshort : ∀ visited ∈ w.visits service visits, visited.isShort = true)
    (hshort' : ∀ visited ∈ w.withoutAuthority.visits service visits', visited.isShort = true) :
    List.Forall₂ Visited.Alike (w.visits service visits)
      (w.withoutAuthority.visits service visits') := by
  have hmints : w.CanMint := by
    intro other hother
    rw [hauthority] at hother
    cases hother
    exact hstarted
  have hmints' : w.withoutAuthority.CanMint := fun _ hnone => nomatch hnone
  have hparallels : w.Parallels w.withoutAuthority :=
    ⟨.refl _, rfl, rfl, rfl, hmints, hmints'⟩
  exact visits_alike hparallels halike hshort hshort'

/-- A key is opened, extended after the cluster was not ready at first, committed as it was handed
out, and looked up, by clients of a service with tokens and one without. -/
theorem World.visits_transparent_commit :
    let authority : TokenAuthority checksumScheme := { lifetime := 1000, signingKey := some [7] }
    let request : KeyRequest := { volume := "vol", bucket := "buc", key := "k" }
    let w : World checksumScheme bundledAllocation Unit := {
      store := { store := .memory {} }
      allocator := Allocator.scripted
        [.ok ⟨1, 1⟩, .error (.clusterNotReady "chill"), .ok ⟨1, 2⟩]
      clock := 5, authority := some authority }
    let token := fun block =>
      TokenAuthority.issue checksumScheme [7] (authority.claims 5 "om1" block 268435456)
    let record := fun token1 token2 : Option BlockToken =>
      ({ volume := "vol", bucket := "buc", key := "k", dataSize := 0, creationTime := 5
         modificationTime := 5, replicationType := .standAlone, replicationFactor := .one
         versions := [⟨1, [⟨⟨1, 1⟩, 0, 268435456, token1⟩, ⟨⟨1, 2⟩, 0, 268435456, token2⟩]⟩] } :
        KeyRecord)
    let visits := fun record =>
      [Call.createVolume "vol" "owner", .createBucket "vol" "buc", .openKey request,
        .allocateBlock request 1, .allocateBlock request 1, .putKey record,
        .deleteOpenKey request.path, .lookupKey request].map fun call =>
          ({ thread := (), call, clock := 5 } : Visit Unit)
    let secured := w.visits {} (visits (record (some (token ⟨1, 1⟩)) (some (token ⟨1, 2⟩))))
    let plain := w.withoutAuthority.visits {} (visits (record none none))
    secured.getLast?.map (·.result) =
        some (.ok (.record (record (some (token ⟨1, 1⟩)) (some (token ⟨1, 2⟩))))) ∧
      plain.getLast?.map (·.result) = some (.ok (.record (record none none))) ∧
      List.Forall₂ Visited.Alike secured plain := by
  intro authority request w token record visits secured plain
  have hshort : ∀ visited ∈ secured, visited.isShort = true := by decide +kernel
  have hshort' : ∀ visited ∈ plain, visited.isShort = true := by decide +kernel
  have hcommit : (Call.putKey (record (some (token ⟨1, 1⟩)) (some (token ⟨1, 2⟩)))).Alike
      (.putKey (record none none)) := .putKey rfl
  have halike : List.Forall₂ Visit.Alike
      (visits (record (some (token ⟨1, 1⟩)) (some (token ⟨1, 2⟩)))) (visits (record none none)) := by
    refine .cons ⟨rfl, .same _, rfl, rfl⟩ (.cons ⟨rfl, .same _, rfl, rfl⟩
      (.cons ⟨rfl, .same _, rfl, rfl⟩ (.cons ⟨rfl, .same _, rfl, rfl⟩
      (.cons ⟨rfl, .same _, rfl, rfl⟩ (.cons ⟨rfl, hcommit, rfl, rfl⟩
      (.cons ⟨rfl, .same _, rfl, rfl⟩ (.cons ⟨rfl, .same _, rfl, rfl⟩ .nil)))))))
  exact ⟨by decide +kernel, by decide +kernel,
    World.visits_transparent w rfl rfl halike hshort hshort'⟩

end Visits

end ObjectMeta
