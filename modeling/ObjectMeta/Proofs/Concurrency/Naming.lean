import ObjectMeta.Proofs.Concurrency.Waiting

/-!
# One name for each resource

A resource goes by one text, each of its names behind a separator (`Resource.text`).  The path of
its lock, the keys of its entries, its record, and the requests and messages that are about it all
come to this text, and a call names nothing but the resource that it is about and those around it
(`Resource.GoesByText`).  The names of volumes and buckets were checked to hold no separator, so
different resources go by different texts, wherever a key name has separators of its own
(`names_never_alias`).
-/

namespace ObjectMeta

open Operation Program

variable {r r' : Resource}

/-! ## 1. What a resource is called -/

namespace Resource

def names : Resource → List String
  | volume v => [v]
  | bucket v b => [v, b]
  | key name => [name.volume, name.bucket, name.key]

/-- What a resource is called: all of its names, each behind a separator. -/
def text (r : Resource) : String := String.join (r.names.map fun name => "/" ++ name)

def tables : Resource → List Table
  | volume _ => [.volumes]
  | bucket .. => [.buckets]
  | key _ => [.openKeys, .keys]

/-- A resource and those around it. -/
def line : Resource → List Resource
  | volume v => [.volume v]
  | bucket v b => [.bucket v b, .volume v]
  | key name => [.key name, .bucket name.volume name.bucket, .volume name.volume]

theorem mem_line (r : Resource) : r ∈ r.line := by
  cases r <;> exact List.mem_cons_self ..

theorem bucket_mem_line (name : KeyName) : bucket name.volume name.bucket ∈ (key name).line :=
  List.mem_cons_of_mem _ (List.mem_cons_self ..)

theorem volume_mem_line_bucket (v b : String) : volume v ∈ (bucket v b).line :=
  List.mem_cons_of_mem _ (List.mem_singleton_self _)

theorem volume_mem_line_key (name : KeyName) : volume name.volume ∈ (key name).line :=
  List.mem_cons_of_mem _ (List.mem_cons_of_mem _ (List.mem_singleton_self _))

theorem keys_mem_tables (name : KeyName) : Table.keys ∈ (key name).tables :=
  List.mem_cons_of_mem _ (List.mem_singleton_self _)

theorem text_path (r : Resource) : r.path.text = r.text := by
  cases r <;>
    simp [path, text, names, KeyName.path, ResourcePath.volume, ResourcePath.bucket,
      ResourcePath.key, String.join, String.append_assoc]

theorem tableKey_path (r : Resource) : Bytes.toText? r.path.tableKey = some r.text := by
  rw [← text_path]
  exact Bytes.toText?_ofText _

/-- The names passed the checks, those of a key in some request for it. -/
def Accepted : Resource → Prop
  | volume v => validateVolumeName v = .ok ()
  | bucket v b => validateVolumeName v = .ok () ∧ validateBucketName b = .ok ()
  | key name => ∃ request : KeyRequest, request.name = name ∧ request.validate = .ok ()

theorem Accepted.valid (h : r.Accepted) : r.Valid := by
  cases r with
  | volume v => exact validateVolumeName_eq_ok_iff.1 h
  | bucket v b =>
    exact ⟨validateVolumeName_eq_ok_iff.1 h.1, validateBucketName_eq_ok_iff.1 h.2⟩
  | key name =>
    obtain ⟨request, rfl, hrequest⟩ := h
    exact KeyRequest.name_valid hrequest

theorem Accepted.of_mem_line (h : r.Accepted) {s : Resource} (hs : s ∈ r.line) : s.Accepted := by
  have hvalid := h.valid
  cases r with
  | volume v =>
    rw [List.mem_singleton.1 hs]
    exact h
  | bucket v b =>
    rw [line, List.mem_pair] at hs
    obtain rfl | rfl := hs
    · exact h
    · exact h.1
  | key name =>
    have hvol := validateVolumeName_eq_ok_iff.2 hvalid.volume
    have hbucket := validateBucketName_eq_ok_iff.2 hvalid.bucket
    simp only [line, List.mem_cons, List.not_mem_nil, or_false] at hs
    obtain rfl | rfl | rfl := hs
    · exact h
    · exact ⟨hvol, hbucket⟩
    · exact hvol

theorem text_inj (h : r.Accepted) (h' : r'.Accepted) : r.text = r'.text ↔ r = r' := by
  rw [← path_inj h.valid h'.valid, ResourcePath.eq_iff_toList, String.toList_inj, text_path,
    text_path]

end Resource

/-! ## 2. What calls name -/

def Call.IsAbout (r : Resource) : Call → Prop
  | createVolume volume _ | getVolume volume => r = .volume volume
  | createBucket volume bucket | getBucket volume bucket | checkBucket volume bucket =>
    r = .bucket volume bucket
  | openKey request | allocateBlock request _ | lookupKey request => r = .key request.name
  | putOpenKey record | putKey record => r = .key record.name
  | getOpenKey path | getKey path | deleteOpenKey path | commit path =>
    ∃ name, r = .key name ∧ path = name.path

/-- Locks and entries that are looked at belong to the resource or to one around it; entries that
are changed are those of the resource. -/
def Action.Addresses (r : Resource) : Action → Prop
  | acquire path _ | release path _ => ∃ s ∈ r.line, path = s.path
  | get table key | contains table key => ∃ s ∈ r.line, table ∈ s.tables ∧ key = s.path.tableKey
  | put table key _ | delete table key => table ∈ r.tables ∧ key = r.path.tableKey
  | _ => True

/-- The error calls the resource by its text, if it tells of a key. -/
def OperationError.TellsOf (r : Resource) : OperationError → Prop
  | keyNotOpen path _ | keyNotFound path => path = r.text
  | _ => True

variable {α β : Type} {good : α → Prop} {good' : β → Prop}

/-- What fails tells of the resource, and what is returned is good. -/
def EndsIn (r : Resource) (good : α → Prop) : Except OperationError α → Prop
  | .error e => e.TellsOf r
  | .ok a => good a

namespace Operation

/-- From wherever the operation starts, each of its actions addresses the resource, as long as the
records that it reads are filed where they say, and it ends well. -/
def Addresses (r : Resource) (good : α → Prop) (op : Operation α) : Prop :=
  ∀ trace, op.run.Always Access.Credible (fun _ action => action.Addresses r)
    (fun _ => EndsIn r good) trace

/-! ## 3. Building blocks -/

theorem addresses_pure {a : α} (h : good a) : (pure a : Operation α).Addresses r good :=
  fun _ => h

theorem addresses_throw {e : OperationError} (h : e.TellsOf r) :
    (throw e : Operation α).Addresses r good := fun _ => h

theorem Addresses.bind {op : Operation α} {f : α → Operation β} (h : op.Addresses r good)
    (hf : ∀ a, good a → (f a).Addresses r good') : (op >>= f).Addresses r good' :=
  fun trace => bind_always (h trace) (fun _ _ he => he) fun trace' a ha => hf a ha trace'

theorem Addresses.map {op : Operation α} (h : op.Addresses r good) (f : α → β) :
    (f <$> op).Addresses r fun _ => True := by
  rw [← bind_pure_comp]
  exact h.bind fun _ _ => addresses_pure trivial

theorem addresses_perform (action : Action) {good : action.Answer → Prop}
    (h : action.Addresses r)
    (hgood : ∀ answer, (Access.mk action answer).Credible → good answer) :
    (perform action).Addresses r good :=
  fun _ => ⟨h, fun answer hc => hgood answer hc⟩

theorem addresses_ofExcept {ε : Type} {wrap : ε → OperationError} {result : Except ε α}
    (herror : ∀ e, (wrap e).TellsOf r) (hok : ∀ a, result = .ok a → good a) :
    (ofExcept wrap result).Addresses r good := by
  cases result with
  | error e => exact addresses_throw (herror e)
  | ok a => exact addresses_pure (hok a rfl)

theorem addresses_checked (result : Except RequestError Unit) :
    (checked result).Addresses r fun _ => True :=
  addresses_ofExcept (fun _ => trivial) fun _ _ => trivial

/-- A lock on the way to the resource has its name when it is taken and when it is given back. -/
theorem addresses_locked {s : Resource} {mode : LockMode} {body : Operation α} (hs : s ∈ r.line)
    (hbody : body.Addresses r good) : (locked s.path mode body).Addresses r good :=
  fun _ => locked_always ⟨s, hs, rfl⟩ (hbody _) fun _ _ hends => ⟨⟨s, hs, rfl⟩, hends⟩

theorem addresses_now : now.Addresses r fun _ => True :=
  addresses_perform .now trivial fun _ _ => trivial

theorem addresses_mint (owner : String) (block : BlockId) (maxLength : Int64) :
    (mint owner block maxLength).Addresses r fun _ => True :=
  (addresses_perform (.mint owner block maxLength) trivial fun _ _ => trivial).bind fun _ _ =>
    addresses_ofExcept (fun _ => trivial) fun _ _ => trivial

section Entries

variable {s : Resource} {table : Table}

theorem addresses_contains (hs : s ∈ r.line) (htable : table ∈ s.tables) :
    (contains table s.path).Addresses r fun _ => True := by
  have hperform : (perform (.contains table s.path.tableKey)).Addresses r fun _ => True :=
    addresses_perform _ ⟨s, hs, htable, rfl⟩ fun _ _ => trivial
  exact hperform.bind fun _ _ => addresses_ofExcept (fun _ => trivial) fun _ _ => trivial

theorem addresses_delete (htable : table ∈ r.tables) :
    (delete table r.path).Addresses r fun _ => True := by
  have hperform : (perform (.delete table r.path.tableKey)).Addresses r fun _ => True :=
    addresses_perform _ ⟨htable, rfl⟩ fun _ _ => trivial
  exact hperform.bind fun _ _ => addresses_ofExcept (fun _ => trivial) fun _ _ => trivial

theorem addresses_putRecord {γ : Type} [Stored γ] (htable : table ∈ r.tables) (record : γ) :
    (putRecord table r.path record).Addresses r fun _ => True := by
  have hperform : (perform (.put table r.path.tableKey (Stored.encode record))).Addresses r
      fun _ => True := addresses_perform _ ⟨htable, rfl⟩ fun _ _ => trivial
  exact hperform.bind fun _ _ => addresses_ofExcept (fun _ => trivial) fun _ _ => trivial

/-- What is read is a record that was filed under the text of its resource. -/
theorem addresses_getRecord {γ : Type} [Stored γ] {good : Option γ → Prop} (hs : s ∈ r.line)
    (htable : table ∈ s.tables) (hnone : good none)
    (hsome : ∀ bytes record, (Access.mk (.get table s.path.tableKey) (.ok (some bytes))).Credible →
      Stored.decode γ bytes = .ok record → good (some record)) :
    (getRecord γ table s.path).Addresses r good := by
  let credible : Option Bytes → Prop := fun bytes? =>
    (Access.mk (.get table s.path.tableKey) (.ok bytes?)).Credible
  have hbytes : (getBytes table s.path).Addresses r credible := by
    have hperform : (perform (.get table s.path.tableKey)).Addresses r
        fun answer => ∀ bytes?, answer = .ok bytes? → credible bytes? := by
      refine addresses_perform _ ⟨s, hs, htable, rfl⟩ ?_
      rintro _ hc bytes? rfl
      exact hc
    exact hperform.bind fun _ hc => addresses_ofExcept (fun _ => trivial) hc
  refine hbytes.bind fun bytes? hc => ?_
  cases bytes? with
  | none => exact addresses_pure hnone
  | some bytes =>
    have hdecode : (ofExcept .codec (Stored.decode γ bytes)).Addresses r
        fun record => good (some record) :=
      addresses_ofExcept (fun _ => trivial) fun record => hsome bytes record hc
    exact hdecode.bind fun _ hrecord => addresses_pure hrecord

end Entries

/-! ## 4. Stages of the calls -/

theorem addresses_getKey {name : KeyName} :
    (getKey name.path).Addresses (.key name) fun _ => True :=
  addresses_getRecord (s := .key name) (Resource.mem_line _) (Resource.keys_mem_tables name)
    trivial fun _ _ _ _ => trivial

/-- An open key is found under the text of its own names. -/
theorem addresses_getOpenKey {name : KeyName} : (getOpenKey name.path).Addresses (.key name)
    fun found => ∀ record, found = some record → record.path = name.path := by
  refine addresses_getRecord (s := .key name) (Resource.mem_line _) (List.mem_cons_self ..)
    nofun ?_
  intro bytes record hcredible hdecode found hfound
  cases hfound
  exact ResourcePath.tableKey_inj.1 (hcredible rfl record hdecode)

theorem addresses_putOpenKey {name : KeyName} {record : KeyRecord} (h : record.path = name.path) :
    (putOpenKey record).Addresses (.key name) fun _ => True := by
  rw [putOpenKey, h]
  exact addresses_putRecord (r := .key name) (List.mem_cons_self ..) record

theorem addresses_putKey {name : KeyName} {record : KeyRecord} (h : record.path = name.path) :
    (putKey record).Addresses (.key name) fun _ => True := by
  rw [putKey, h]
  exact addresses_putRecord (r := .key name) (Resource.keys_mem_tables name) record

/-- A volume and a bucket in it are looked for on the way to the bucket, or to a key in it. -/
theorem addresses_checkBucketExists {v b : String} (hv : .volume v ∈ r.line)
    (hb : .bucket v b ∈ r.line) : (checkBucketExists v b).Addresses r fun _ => True := by
  refine (addresses_contains hv (List.mem_singleton_self _)).bind fun found _ => ?_
  cases found with
  | false => exact addresses_throw trivial
  | true =>
    refine (addresses_contains hb (List.mem_singleton_self _)).bind fun found _ => ?_
    cases found with
    | false => exact addresses_throw trivial
    | true => exact addresses_pure trivial

theorem addresses_commit (name : KeyName) :
    (commit name.path).Addresses (.key name) fun _ => True := by
  refine addresses_getOpenKey.bind fun found hfound => ?_
  cases found with
  | none => exact addresses_pure trivial
  | some record =>
    refine (addresses_putKey (hfound record rfl)).bind fun _ _ => ?_
    exact (addresses_delete (r := .key name) (List.mem_cons_self ..)).bind fun _ _ =>
      addresses_pure trivial

variable (service : KeyService) (request : KeyRequest)

theorem addresses_allocateLocation (size : Int64) (replicationType : ReplicationType)
    (replicationFactor : ReplicationFactor) :
    (service.allocateLocation request size replicationType replicationFactor).Addresses r
      fun _ => True := by
  refine (addresses_perform (.allocate _) trivial fun _ _ => trivial).bind fun answer _ => ?_
  have hblock : (ofExcept .ofAllocation answer).Addresses r fun _ => True :=
    addresses_ofExcept (fun e => by cases e <;> trivial) fun _ _ => trivial
  exact hblock.bind fun _ _ => (addresses_mint _ _ _).bind fun _ _ => addresses_pure trivial

theorem addresses_writeFirst (committed? : Option KeyRecord) :
    (service.writeFirst request committed?).Addresses (.key request.name) fun _ => True := by
  refine (addresses_allocateLocation service request _ _ _).bind fun location _ => ?_
  refine addresses_now.bind fun time _ => ?_
  have hpath : (KeyService.firstRecord request committed? location time).path =
      request.name.path := rfl
  exact (addresses_putOpenKey hpath).bind fun _ _ => addresses_pure trivial

theorem addresses_writeNext {name : KeyName} {record : KeyRecord} (h : record.path = name.path)
    (number : UInt64) :
    (service.writeNext request number record).Addresses (.key name) fun _ => True := by
  refine (addresses_allocateLocation service request _ _ _).bind fun location _ => ?_
  refine addresses_now.bind fun time _ => ?_
  -- a block more does not change the names that the record is written under
  refine (addresses_putOpenKey ?_).bind fun _ _ => addresses_pure trivial
  rw [extendedRecord_path, h]

theorem addresses_refreshTokens (locations : List BlockLocation) :
    (service.refreshTokens request locations).Addresses r fun _ => True := by
  induction locations with
  | nil => exact addresses_pure trivial
  | cons location rest ih =>
    exact (addresses_mint _ _ _).bind fun _ _ => ih.bind fun _ _ => addresses_pure trivial

end Operation

/-! ## 5. The calls -/

variable (service : KeyService)

theorem createVolume_addresses (volume owner : String) :
    (Operation.createVolume volume owner).Addresses (.volume volume) fun _ => True := by
  have hline := Resource.mem_line (.volume volume)
  refine (addresses_checked _).bind fun _ _ => addresses_locked hline ?_
  refine (addresses_contains hline (List.mem_singleton_self _)).bind fun found _ => ?_
  cases found with
  | true => exact addresses_throw trivial
  | false =>
    refine addresses_now.bind fun time _ => ?_
    exact (addresses_putRecord (r := .volume volume) (List.mem_singleton_self _) _).bind
      fun _ _ => addresses_pure trivial

theorem createBucket_addresses (volume bucket : String) :
    (Operation.createBucket volume bucket).Addresses (.bucket volume bucket) fun _ => True := by
  have hvol := Resource.volume_mem_line_bucket volume bucket
  have hbucket := Resource.mem_line (.bucket volume bucket)
  refine (addresses_checked _).bind fun _ _ => (addresses_checked _).bind fun _ _ => ?_
  refine addresses_locked hvol (addresses_locked hbucket ?_)
  refine (addresses_contains hvol (List.mem_singleton_self _)).bind fun found _ => ?_
  cases found with
  | false => exact addresses_throw trivial
  | true =>
    refine (addresses_contains hbucket (List.mem_singleton_self _)).bind fun found _ => ?_
    cases found with
    | true => exact addresses_throw trivial
    | false =>
      refine addresses_now.bind fun time _ => ?_
      exact (addresses_putRecord (r := .bucket volume bucket) (List.mem_singleton_self _) _).bind
        fun _ _ => addresses_pure trivial

variable (request : KeyRequest)

theorem openKey_addresses :
    (service.openKey request).Addresses (.key request.name) fun _ => True := by
  have hvol := Resource.volume_mem_line_key request.name
  have hbucket := Resource.bucket_mem_line request.name
  rw [KeyService.openKey_eq]
  refine (addresses_checked _).bind fun _ _ => addresses_locked hbucket ?_
  refine (addresses_checkBucketExists hvol hbucket).bind fun _ _ => ?_
  exact addresses_getKey.bind fun committed? _ => addresses_writeFirst service request committed?

theorem allocateBlock_addresses (number : UInt64) :
    (service.allocateBlock request number).Addresses (.key request.name) fun _ => True := by
  have hbucket := Resource.bucket_mem_line request.name
  rw [KeyService.allocateBlock_eq]
  refine (addresses_checked _).bind fun _ _ => addresses_locked hbucket ?_
  refine addresses_locked (Resource.mem_line (.key request.name)) ?_
  refine addresses_getOpenKey.bind fun found hfound => ?_
  cases hrecord : found.filter fun record => (record.version? number).isSome with
  | none => exact addresses_throw (Resource.text_path (.key request.name))
  | some record =>
    have hpath := hfound record (Option.filter_eq_some_iff.1 hrecord).1
    exact addresses_writeNext service request hpath number

theorem lookupKey_addresses :
    (service.lookupKey request).Addresses (.key request.name) fun _ => True := by
  have hbucket := Resource.bucket_mem_line request.name
  have hrefreshed : ∀ record, (service.refreshed request record).Addresses (.key request.name)
      fun _ => True := fun record => (addresses_refreshTokens service request _).map _
  rw [KeyService.lookupKey_eq]
  refine (addresses_checked _).bind fun _ _ => addresses_locked hbucket ?_
  refine addresses_locked (Resource.mem_line (.key request.name)) ?_
  refine addresses_getKey.bind fun committed? _ => ?_
  cases committed? with
  | some record => exact hrefreshed record
  | none =>
    have hmissing : (throw (.keyNotFound request.path.text) : Operation KeyRecord).Addresses
        (.key request.name) fun _ => True :=
      addresses_throw (Resource.text_path (.key request.name))
    cases service.lookupOpenKeys with
    | false => exact hmissing
    | true =>
      refine addresses_getOpenKey.bind fun open? _ => ?_
      cases open? with
      | some record => exact hrefreshed record
      | none => exact hmissing

/-- Whatever the answers are, a call names nothing but the resource that it is about and those
around it. -/
theorem Call.addresses {call : Call} (h : call.IsAbout r) :
    (call.operation service).Addresses r fun _ => True := by
  cases call with
  | createVolume volume owner => exact h ▸ (createVolume_addresses volume owner).map _
  | createBucket volume bucket => exact h ▸ (createBucket_addresses volume bucket).map _
  | openKey request => exact h ▸ (openKey_addresses service request).map _
  | allocateBlock request number =>
    exact h ▸ (allocateBlock_addresses service request number).map _
  | lookupKey request => exact h ▸ (lookupKey_addresses service request).map _
  | getVolume volume =>
    have hget : (Operation.getVolume volume).Addresses (.volume volume) fun _ => True :=
      addresses_getRecord (s := .volume volume) (Resource.mem_line _) (List.mem_singleton_self _)
        trivial fun _ _ _ _ => trivial
    exact h ▸ hget.map _
  | getBucket volume bucket =>
    have hget : (Operation.getBucket volume bucket).Addresses (.bucket volume bucket)
        fun _ => True :=
      addresses_getRecord (s := .bucket volume bucket) (Resource.mem_line _)
        (List.mem_singleton_self _) trivial fun _ _ _ _ => trivial
    exact h ▸ hget.map _
  | checkBucket volume bucket =>
    have hcheck := addresses_checkBucketExists (Resource.volume_mem_line_bucket volume bucket)
      (Resource.mem_line _)
    exact h ▸ hcheck.map _
  | putOpenKey record =>
    have hpath : record.path = record.name.path := rfl
    exact h ▸ (addresses_putOpenKey hpath).map _
  | putKey record =>
    have hpath : record.path = record.name.path := rfl
    exact h ▸ (addresses_putKey hpath).map _
  | getOpenKey path =>
    obtain ⟨name, rfl, rfl⟩ := h
    exact addresses_getOpenKey.map _
  | getKey path =>
    obtain ⟨name, rfl, rfl⟩ := h
    exact addresses_getKey.map _
  | deleteOpenKey path =>
    obtain ⟨name, rfl, rfl⟩ := h
    exact (addresses_delete (r := .key name) (List.mem_cons_self ..)).map _
  | commit path =>
    obtain ⟨name, rfl, rfl⟩ := h
    exact (addresses_commit name).map _

/-- The entry that a guarded call writes is locked, by itself or by the bucket around it. -/
theorem Call.exists_write_of_put {call : Call} (hg : call.isGuarded = true) (h : call.IsAbout r)
    {trace : Trace} {table : Table} {key value : Bytes}
    {next : Except StoreError Unit → Program (Except OperationError Outcome)}
    (hl : (call.program service).Leads trace (.step (.put table key value) next)) :
    ∃ s ∈ r.line, ⟨s.path, .write⟩ ∈ trace.held := by
  have hkeeps := Always.of_leads (call.keepsTo service) hl fun _ _ => trivial
  rw [List.nil_append] at hkeeps
  have hheld : trace.held = call.lockStack := hkeeps.1.1
  rw [hheld]
  obtain ⟨found, outcome, hleaves⟩ := Call.exists_leaves_of_put service hg hl
  cases hleaves with
  | volume => exact ⟨r, r.mem_line, h ▸ List.mem_cons_self ..⟩
  | bucket => exact ⟨r, r.mem_line, h ▸ List.mem_cons_self ..⟩
  | opened => exact ⟨_, h ▸ Resource.bucket_mem_line _, List.mem_cons_self ..⟩
  | extended => exact ⟨r, r.mem_line, h ▸ List.mem_cons_self ..⟩

/-! ## 6. Different resources, different names -/

variable {service : KeyService}

structure Resource.GoesByText (service : KeyService) (r : Resource) : Prop where
  lock : r.path.text = r.text
  /-- The keys of its entries are the text in UTF-8. -/
  entry : Bytes.toText? r.path.tableKey = some r.text
  request : ∀ request : KeyRequest, r = .key request.name → request.path.text = r.text
  record : ∀ record : KeyRecord, r = .key record.name → record.path.text = r.text
  /-- A call that is about the resource takes locks of the resource and of those around it, looks at
  their entries and changes entries of the resource alone. -/
  actions : ∀ (call : Call) (trace : Trace) (action : Action)
    (next : action.Answer → Program CallResult), call.IsAbout r →
    (call.program service).Leads trace (.step action next) →
    (∀ access ∈ trace, access.Credible) → action.Addresses r
  /-- An error that such a call ends in has the text in it where it tells of a key. -/
  errors : ∀ (call : Call) (trace : Trace) (e : OperationError), call.IsAbout r →
    (call.program service).Leads trace (.done (.error e)) →
    (∀ access ∈ trace, access.Credible) → e.TellsOf r
  /-- What is written under locks is locked by the resource itself, or by one around it. -/
  writes : ∀ (call : Call) (trace : Trace) (table : Table) (key value : Bytes)
    (next : Except StoreError Unit → Program CallResult), call.isGuarded = true →
    call.IsAbout r → (call.program service).Leads trace (.step (.put table key value) next) →
    ∃ s ∈ r.line, ⟨s.path, .write⟩ ∈ trace.held
  /-- What is around it can be told from other resources as well as it can itself. -/
  around : ∀ s ∈ r.line, s.Accepted

theorem Resource.Accepted.goesByText (h : r.Accepted) : r.GoesByText service where
  lock := r.text_path
  entry := r.tableKey_path
  request := by
    rintro request rfl
    exact text_path (.key request.name)
  record := by
    rintro record rfl
    exact text_path (.key record.name)
  actions _ _ _ _ habout hl hc :=
    (Always.of_leads (Call.addresses service habout []) hl hc).1
  errors _ _ _ habout hl hc := Always.of_leads (Call.addresses service habout []) hl hc
  writes _ _ _ _ _ _ hg habout hl := Call.exists_write_of_put service hg habout hl
  around _ hs := h.of_mem_line hs

/-- Resources whose names passed the checks have the same path, the same table key and the same text
only if they are the same: both volumes, both buckets or both keys, with all of their names equal.
Each goes by its text alone: in its lock, its entries and its record, in requests and in errors. -/
theorem names_never_alias (service : KeyService) (h : r.Accepted) (h' : r'.Accepted) :
    (r.path = r'.path ↔ r = r') ∧ (r.path.tableKey = r'.path.tableKey ↔ r = r') ∧
      (r.text = r'.text ↔ r = r') ∧ r.GoesByText service := by
  have hpath : r.path = r'.path ↔ r = r' := Resource.path_inj h.valid h'.valid
  exact ⟨hpath, ResourcePath.tableKey_inj.trans hpath, Resource.text_inj h h', h.goesByText⟩

/-- Separators at the ends of a key name and in the midst of it make a difference, each of them. -/
theorem names_never_alias_separators :
    let request : String → KeyRequest := fun key => { volume := "a", bucket := "b", key }
    let r : Resource := .key (request "/c//k/").name
    let r' : Resource := .key (request "c//k/").name
    (r.Accepted ∧ r'.Accepted) ∧ (r.text = "/a/b//c//k/" ∧ r'.text = "/a/b/c//k/") ∧
      (r.path = r'.path ↔ r = r') ∧ (r.path.tableKey = r'.path.tableKey ↔ r = r') ∧
      (r.text = r'.text ↔ r = r') ∧ r.GoesByText {} := by
  intro request r r'
  have hr : r.Accepted := ⟨request "/c//k/", rfl, by decide⟩
  have hr' : r'.Accepted := ⟨request "c//k/", rfl, by decide⟩
  exact ⟨⟨hr, hr'⟩, by decide, names_never_alias {} hr hr'⟩

end ObjectMeta
