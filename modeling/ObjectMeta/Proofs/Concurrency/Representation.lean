import ObjectMeta.Proofs.Concurrency.BlockIds
import ObjectMeta.Proofs.Operation.Alone

/-!
# What the table of open keys holds

Threads create volumes and buckets, open, extend and look up keys, and commit whole records, at the
same time and in any order.  Whatever fails on the way, an open key is stored under its path as a
record with one version, in a volume and a bucket that exist (`Store.Holds`), and what a thread has
read of the tables stays so until it writes (`Trace.Vouched`).
-/

namespace ObjectMeta

open Operation Program

/-! ## 1. Records of open keys -/

/-- A version as it is opened and extended: a first block of one size, all others of another, each
read from its beginning. -/
inductive LocationVersion.Chained (firstSize size : Int64) : LocationVersion → Prop where
  | intro (number : UInt64) (first : BlockLocation) (others : List BlockLocation)
      (numbered : 1 ≤ number) (firstLength : first.length = firstSize)
      (lengths : ∀ location ∈ others, location.length = size)
      (offsets : ∀ location ∈ first :: others, location.offset = 0) :
      Chained firstSize size ⟨number, first :: others⟩

/-- A record with valid names, a size, and one version with blocks of the sizes that go with it. -/
structure KeyRecord.WellFormed (service : KeyService) (record : KeyRecord) : Prop where
  volume : ValidName record.volume
  bucket : ValidName record.bucket
  key : record.key ≠ ""
  dataSize : 0 ≤ record.dataSize
  versions : ∃ version : LocationVersion, record.versions = [version] ∧ version.Chained
    (if 0 < record.dataSize then record.dataSize else service.blockSize) service.blockSize

theorem LocationVersion.Chained.append {firstSize size : Int64} {version : LocationVersion}
    (h : version.Chained firstSize size) {location : BlockLocation}
    (hlength : location.length = size) (hoffset : location.offset = 0) :
    (version.append location).Chained firstSize size := by
  obtain ⟨number, first, others, hnumbered, hfirst, hlengths, hoffsets⟩ := h
  refine .intro number first (others ++ [location]) hnumbered hfirst ?_ ?_
  · intro other hother
    rcases List.mem_append.1 hother with hother | hother
    · exact hlengths other hother
    · rwa [List.mem_singleton.1 hother]
  · intro other hother
    rw [← List.cons_append] at hother
    rcases List.mem_append.1 hother with hother | hother
    · exact hoffsets other hother
    · rwa [List.mem_singleton.1 hother]

theorem KeyRequest.dataSize_nonneg {request : KeyRequest} (h : request.validate = .ok ()) :
    0 ≤ request.dataSize.getD 0 := by
  obtain ⟨hvol, hbucket, hkey⟩ := request.validate_eq_ok h
  rw [validate, validateVolumeName_eq_ok_iff.2 hvol, validateBucketName_eq_ok_iff.2 hbucket,
    if_neg hkey] at h
  cases hsize : request.dataSize with
  | none => exact Int64.le_refl 0
  | some size =>
    rw [hsize] at h
    by_cases hneg : size < 0
    · have hthrow : (if size < 0 then throw (RequestError.negativeSize size) else pure () :
          Except RequestError Unit) = .ok () := h
      rw [if_pos hneg] at hthrow
      cases hthrow
    · exact Int64.not_lt.1 hneg

/-! ## 2. What the tables and the traces say -/

def Store.Within (store store' : Store) : Prop :=
  ∀ table key, store.contains table key = true → store'.contains table key = true

theorem Store.within_put (store : Store) (table : Table) (key value : Bytes) :
    store.Within (store.put table key value) := by
  intro table' key' hcontains
  unfold Store.contains at hcontains ⊢
  rw [Store.get_put]
  split
  · rfl
  · exact hcontains

/-- At a time, the record of an open key is under its path, and its volume and its bucket are in the
tables.  Times are in order if the clock has only gone `forward`. -/
structure Store.Backs (service : KeyService) (forward : Prop) (store : Store) (now : Int64)
    (key : Bytes) (record : KeyRecord) : Prop where
  wellFormed : record.WellFormed service
  path : record.path.tableKey = key
  volume : store.contains .volumes (ResourcePath.volume record.volume).tableKey = true
  bucket : store.contains .buckets (ResourcePath.bucket record.volume record.bucket).tableKey = true
  times : forward → record.creationTime ≤ record.modificationTime ∧ record.modificationTime ≤ now

def Store.Holds (service : KeyService) (forward : Prop) (store : Store) (now : Int64)
    (key bytes : Bytes) : Prop :=
  ∃ record, Stored.decode KeyRecord bytes = .ok record ∧
    store.Backs service forward now key record

/-- The bytes are no record, or one whose number is not the last that there is. -/
def CanReopen (bytes : Bytes) : Prop :=
  ∀ record, Stored.decode KeyRecord bytes = .ok record → record.latestNumber.toNat < 2 ^ 64 - 1

section Vouching

variable {service : KeyService} {forward : Prop} {store store' : Store} {now now' : Int64}
  {key bytes : Bytes} {trace : Trace}

theorem Store.Holds.mono (h : store.Holds service forward now key bytes)
    (hstore : store.Within store') (hnow : forward → now ≤ now') :
    store'.Holds service forward now' key bytes := by
  obtain ⟨record, hdecode, hwell, hpath, hvolume, hbucket, htimes⟩ := h
  refine ⟨record, hdecode, hwell, hpath, hstore _ _ hvolume, hstore _ _ hbucket, fun hf => ?_⟩
  exact ⟨(htimes hf).1, Int64.le_trans (htimes hf).2 (hnow hf)⟩

def Access.Vouched (service : KeyService) (forward : Prop) (store : Store) (now : Int64) :
    Access → Prop
  | ⟨.get .openKeys key, .ok (some bytes)⟩ => store.Holds service forward now key bytes
  | ⟨.get .keys _, .ok (some bytes)⟩ => CanReopen bytes
  | ⟨.contains table key, .ok true⟩ => store.contains table key = true
  | _ => True

theorem Access.Vouched.mono {access : Access} (h : access.Vouched service forward store now)
    (hstore : store.Within store') (hnow : forward → now ≤ now') :
    access.Vouched service forward store' now' := by
  unfold Access.Vouched at h ⊢
  split
  · exact h.mono hstore hnow
  · exact h
  · exact hstore _ _ h
  · trivial

/-- What a call has found is still so, and was so at every time that the call has read. -/
structure Trace.Vouched (service : KeyService) (forward : Prop) (store : Store) (now : Int64)
    (trace : Trace) : Prop where
  accesses : ∀ access ∈ trace, access.Vouched service forward store now
  times : ∀ before time after, trace = before ++ ⟨.now, time⟩ :: after → (forward → time ≤ now) ∧
    ∀ access ∈ before, access.Vouched service forward store time

theorem Trace.vouched_nil : Trace.Vouched service forward store now [] where
  accesses _ ha := absurd ha List.not_mem_nil
  times before time after h := by simp at h

theorem Trace.Vouched.mono (h : trace.Vouched service forward store now)
    (hstore : store.Within store') (hnow : forward → now ≤ now') :
    trace.Vouched service forward store' now' where
  accesses access ha := (h.accesses access ha).mono hstore hnow
  times before time after htrace := by
    obtain ⟨htime, hbefore⟩ := h.times before time after htrace
    refine ⟨fun hf => Int64.le_trans (htime hf) (hnow hf), fun access ha => ?_⟩
    exact (hbefore access ha).mono hstore fun _ => Int64.le_refl time

/-- What is read next is vouched for if the clock answers with the time. -/
theorem Trace.Vouched.concat (h : trace.Vouched service forward store now) {access : Access}
    (ha : access.Vouched service forward store now)
    (htime : ∀ time, access = ⟨.now, time⟩ → time = now) :
    Trace.Vouched service forward store now (trace ++ [access]) where
  accesses other hother := by
    rcases List.mem_append.1 hother with hother | hother
    · exact h.accesses other hother
    · rwa [List.mem_singleton.1 hother]
  times before time after htrace := by
    rcases Trace.split_concat htrace with ⟨after', htrace'⟩ | ⟨rfl, haccess⟩
    · exact h.times before time after' htrace'
    · rw [htime time haccess.symm]
      exact ⟨fun _ => Int64.le_refl now, h.accesses⟩

/-- A read that is vouched for is credible. -/
theorem Access.Vouched.credible {access : Access}
    (h : access.Vouched service forward store now) : access.Credible := by
  unfold Access.Credible
  split
  · next table key value =>
    rintro rfl record hdecode
    obtain ⟨record', hdecode', hbacks⟩ := h
    rw [hdecode] at hdecode'
    cases hdecode'
    exact hbacks.path
  · trivial

/-! ## 3. What calls write -/

/-- A key is opened with a first version, or with the one after the committed one. -/
theorem opening_backs {request : KeyRequest} {committed : Option Bytes}
    {committed? : Option KeyRecord} {block : BlockId} {token : Option BlockToken} {time : Int64}
    (hvalid : request.validate = .ok ())
    (hread : readRecord KeyRecord (.ok committed) = .ok committed?)
    (h : Trace.Vouched service forward store now
      (service.opening request committed block token time)) :
    let record := KeyService.firstRecord request committed?
      (KeyService.locationOf block (service.firstBlockSize request) token) time
    store.Backs service forward now record.path.tableKey record := by
  intro record
  obtain ⟨hvol, hbucket, hkey⟩ := request.validate_eq_ok hvalid
  have haccesses := h.accesses
  simp only [KeyService.opening, List.forall_mem_cons] at haccesses
  obtain ⟨-, hvolumes, hbuckets, hcommitted, -⟩ := haccesses
  have htime := (h.times _ time [] (List.dropLast_concat_getLast (List.cons_ne_nil _ _)).symm).1
  refine ⟨⟨hvol, hbucket, hkey, request.dataSize_nonneg hvalid, _, rfl, ?_⟩, rfl, hvolumes,
    hbuckets, fun hf => ⟨Int64.le_refl time, htime hf⟩⟩
  refine .intro _ _ [] ?_ (service.firstBlockSize_eq request) ?_ ?_
  · cases committed? with
    | none => exact (by decide : (1 : UInt64) ≤ 1)
    | some found =>
      -- the number of the committed record is not the last, so there is a next one
      obtain ⟨bytes, hbytes, hdecode⟩ := readRecord_eq_ok_some hread
      cases hbytes
      have hlatest : found.latestNumber.toNat < 2 ^ 64 - 1 := hcommitted found hdecode
      show 1 ≤ found.latestNumber + 1
      rw [UInt64.le_iff_toNat_le, UInt64.toNat_add]
      have hone : (1 : UInt64).toNat = 1 := rfl
      omega
  · exact fun _ hmem => absurd hmem List.not_mem_nil
  · intro location hmem
    rw [List.mem_singleton.1 hmem]
    rfl

/-- A key is extended by a block of the configured size. -/
theorem extending_backs {request : KeyRequest} {number : UInt64} {bytes : Bytes}
    {found : KeyRecord} {block : BlockId} {token : Option BlockToken} {time : Int64}
    (hdecode : Stored.decode KeyRecord bytes = .ok found)
    (hversion : (found.version? number).isSome = true)
    (h : Trace.Vouched service forward store now
      (service.extending request bytes found block token time)) :
    let record := KeyService.extendedRecord found number
      (KeyService.locationOf block service.blockSize token) time
    store.Backs service forward now record.path.tableKey record := by
  intro record
  have hread : ⟨.get .openKeys request.path.tableKey, .ok (some bytes)⟩ ∈
      (service.extending request bytes found block token time).dropLast :=
    List.mem_cons_of_mem _ (List.mem_cons_of_mem _ (List.mem_cons_self ..))
  obtain ⟨htime, hbefore⟩ := h.times _ time []
    (List.dropLast_concat_getLast (List.cons_ne_nil _ _)).symm
  -- the record was right before the clock was read, and its last change is not after that
  obtain ⟨found', hdecode', hthen⟩ := hbefore _ hread
  rw [hdecode] at hdecode'
  cases hdecode'
  obtain ⟨version, hversions, hchained⟩ := hthen.wellFormed.versions
  have hrecord : record = { found with
      modificationTime := time
      versions := [version.append (KeyService.locationOf block service.blockSize token)] } := by
    rw [← KeyService.extendedRecord_versions hversions hversion _ time]
    exact KeyService.extendedRecord_eq ..
  rw [hrecord]
  have hwell := hthen.wellFormed
  refine ⟨⟨hwell.volume, hwell.bucket, hwell.key, hwell.dataSize, _, rfl, hchained.append rfl rfl⟩,
    rfl, hthen.volume, hthen.bucket, fun hf => ⟨?_, htime hf⟩⟩
  exact Int64.le_trans (hthen.times hf).1 (hthen.times hf).2

/-- A guarded call writes no committed key, since it leaves none behind. -/
theorem Call.table_ne_keys {call : Call} (hg : call.isGuarded = true) {table : Table}
    {key value : Bytes} {next : Except StoreError Unit → Program CallResult}
    (hl : (call.program service).Leads trace (.step (.put table key value) next)) :
    table ≠ .keys := by
  obtain ⟨_, _, hleaves⟩ := Call.exists_leaves_of_put service hg hl
  cases hleaves <;> decide

/-- The calls that take the locks of what they touch, and commits of records with a number that is
not the last. -/
def Call.isOrderly : Call → Bool
  | putKey record => decide (record.latestNumber.toNat < 2 ^ 64 - 1)
  | call => call.isGuarded

/-- Open keys are written as they should be, committed keys so that they can be opened again, and
nothing is deleted. -/
def Action.Keeps (service : KeyService) (forward : Prop) (store : Store) (now : Int64) :
    Action → Prop
  | put table key value => value.length < 2 ^ 64 →
    (table = .openKeys → store.Holds service forward now key value) ∧
      (table = .keys → CanReopen value)
  | delete .. => False
  | _ => True

/-- A call that opens or extends a key writes what it should. -/
theorem Call.holds_of_writes {call : Call} (hwrites : call.writesOpenKeys = true)
    {key value : Bytes} {next : Except StoreError Unit → Program CallResult}
    (hl : (call.program service).Leads trace (.step (.put .openKeys key value) next))
    (h : trace.Vouched service forward store now) (hshort : value.length < 2 ^ 64) :
    store.Holds service forward now key value := by
  have hcredible : ∀ access ∈ trace, access.Credible :=
    fun access ha => (h.accesses access ha).credible
  have hconducts := Always.of_leads (Call.conducts service hwrites) hl hcredible
  obtain ⟨record, outcome, hrecord, hput⟩ := hconducts.1
  rw [List.nil_append] at hrecord
  cases hput
  have hvalid := hrecord.validate hwrites ((List.append_nil trace).symm ▸ hl)
    ((List.append_nil trace).symm ▸ hcredible)
  refine ⟨record, Stored.decode_encode_of_short hshort, ?_⟩
  cases hrecord with
  | first hread => exact opening_backs (hvalid _ rfl) hread h
  | next hdecode _ hversion => exact extending_backs hdecode hversion h

theorem Call.keeps {call : Call} (ho : call.isOrderly = true) {action : Action}
    {next : action.Answer → Program CallResult}
    (hl : (call.program service).Leads trace (.step action next))
    (h : trace.Vouched service forward store now) : action.Keeps service forward store now := by
  by_cases hg : call.isGuarded = true
  · have hnests := Always.of_leads (Call.nested service hg) hl fun _ _ => trivial
    cases action with
    | delete table key => exact hnests.1
    | put table key value =>
      refine fun hshort => ⟨?_, fun htable => absurd htable (Call.table_ne_keys hg hl)⟩
      rintro rfl
      cases hwrites : call.writesOpenKeys with
      | true => exact Call.holds_of_writes hwrites hl h hshort
      | false =>
        have hspares := Always.of_leads (Call.spares_openKeys service hg hwrites) hl
          fun _ _ => trivial
        exact absurd rfl hspares.1
    | _ => trivial
  · cases call with
    | putKey record =>
      have hnumber : record.latestNumber.toNat < 2 ^ 64 - 1 := of_decide_eq_true ho
      rw [putKey_program] at hl
      cases trace with
      | nil =>
        rw [leads_nil_iff] at hl
        cases hl
        refine fun hshort => ⟨nofun, fun _ record' hdecode => ?_⟩
        rw [Stored.decode_encode_of_short hshort] at hdecode
        cases hdecode
        exact hnumber
      | cons access rest =>
        -- after its write the call is over
        have ⟨answer, _, hrest⟩ := hl
        cases rest with
        | nil =>
          rw [leads_nil_iff] at hrest
          cases hrest
        | cons access' rest' => exact hrest.elim
    | _ => exact absurd ho hg

/-! ## 4. The tables after a run -/

/-- Open keys are stored as they should be, and committed keys can be opened again. -/
structure Store.Represents (service : KeyService) (forward : Prop) (store : Store) (now : Int64) :
    Prop where
  openKeys : ∀ key bytes, store.get .openKeys key = some bytes →
    store.Holds service forward now key bytes
  keys : ∀ key bytes, store.get .keys key = some bytes → CanReopen bytes

theorem Store.Represents.vouched (h : store.Represents service forward now) {access : Access}
    (hs : access.Stands store) : access.Vouched service forward store now := by
  unfold Access.Vouched
  split
  · exact h.openKeys _ _ hs
  · exact h.keys _ _ hs
  · exact hs
  · trivial

theorem Store.Represents.later (h : store.Represents service forward now)
    (hnow : forward → now ≤ now') : store.Represents service forward now' where
  openKeys key bytes hget := (h.openKeys key bytes hget).mono (fun _ _ hc => hc) hnow
  keys := h.keys

theorem Access.within_applied {access : Access}
    (hkeeps : access.action.Keeps service forward store now) :
    store.Within (access.applied store) := by
  obtain ⟨action, answer⟩ := access
  cases action with
  | put table key value =>
    cases answer with
    | error e => exact fun _ _ hc => hc
    | ok u => exact store.within_put table key value
  | delete table key => exact hkeeps.elim
  | _ => exact fun _ _ hc => hc

theorem Store.Represents.applied (h : store.Represents service forward now) {access : Access}
    (hkeeps : access.action.Keeps service forward store now) (hshort : access.isShort = true) :
    (access.applied store).Represents service forward now := by
  have hwithin := Access.within_applied hkeeps
  obtain ⟨action, answer⟩ := access
  cases action with
  | put table key value =>
    cases answer with
    | error e => exact h
    | ok u =>
      have ⟨hopen, hkeys⟩ := hkeeps (of_decide_eq_true hshort)
      constructor
      · intro key' bytes hget
        apply Store.Holds.mono _ hwithin fun _ => Int64.le_refl now
        change (store.put table key value).get .openKeys key' = some bytes at hget
        rw [Store.get_put] at hget
        split at hget
        · next hsame =>
          cases hget
          exact hsame.2 ▸ hopen hsame.1
        · exact h.openKeys key' bytes hget
      · intro key' bytes hget
        change (store.put table key value).get .keys key' = some bytes at hget
        rw [Store.get_put] at hget
        split at hget
        · next hsame =>
          cases hget
          exact hkeys hsame.1
        · exact h.keys key' bytes hget
  | delete table key => exact hkeeps.elim
  | _ => exact h

end Vouching

def Move.isOrderly {S : SignatureScheme} {A : AllocationService} {τ : Type} : Move S A τ → Bool
  | .begin _ call => call.isOrderly
  | _ => true

def Move.clock? {S : SignatureScheme} {A : AllocationService} {τ : Type} :
    Move S A τ → Option Int64
  | .disturb around => some around.clock
  | _ => none

def World.Advances {S : SignatureScheme} {A : AllocationService} {τ : Type} (w : World S A τ)
    (moves : List (Move S A τ)) : Prop :=
  (w.clock :: moves.filterMap Move.clock?).Pairwise (· ≤ ·)

namespace System

variable {service : KeyService} {S : SignatureScheme} {A : AllocationService} {τ : Type}
  [DecidableEq τ] {forward : Prop} {s s' : System service S A τ}

/-- The tables are as they should be, and what calls on their way have found is still so. -/
structure Represents (forward : Prop) (s : System service S A τ) : Prop where
  store : s.world.store.store.Represents service forward s.world.clock
  calls : ∀ t a, s.running t = some a → a.call.isOrderly = true ∧
    a.trace.Vouched service forward s.world.store.store s.world.clock

variable {m : Move S A τ} {t : τ} {a : Activity service}

theorem Represents.update (h : s.Represents forward) {b : Option (Activity service)}
    (hb : ∀ a, b = some a → a.call.isOrderly = true ∧
      a.trace.Vouched service forward s.world.store.store s.world.clock) :
    ∀ t' a, Function.update s.running t b t' = some a → a.call.isOrderly = true ∧
      a.trace.Vouched service forward s.world.store.store s.world.clock := by
  intro t' a hrun
  rcases update_eq_some_iff.1 hrun with ⟨_, ha⟩ | ⟨_, hrun⟩
  · exact hb a ha
  · exact h.calls t' a hrun

theorem Represents.begin (h : s.Represents forward) {call : Call} (hcall : call.isOrderly = true) :
    (s.begin t call).Represents forward := by
  refine ⟨h.store, h.update fun a ha => ?_⟩
  cases ha
  exact ⟨hcall, Trace.vouched_nil⟩

theorem Represents.act (h : s.Represents forward) {action : Action}
    {next : action.Answer → Program CallResult} (hrun : s.running t = some a)
    (hrest : a.rest = .step action next)
    (hshort : Access.isShort ⟨action, (s.world.perform t action).1⟩ = true) :
    (s.act t a hrest).Represents forward := by
  let access : Access := ⟨action, (s.world.perform t action).1⟩
  have ⟨horderly, hvouched⟩ := h.calls t a hrun
  have hkeeps : action.Keeps service forward s.world.store.store s.world.clock :=
    Call.keeps horderly (hrest ▸ a.leads) hvouched
  have hwithin : s.world.store.store.Within (access.applied s.world.store.store) :=
    Access.within_applied hkeeps
  have hstore : (s.act t a hrest).world.store.store = access.applied s.world.store.store :=
    s.world.perform_store t action
  have hclock : (s.act t a hrest).world.clock = s.world.clock := s.world.perform_clock t action
  constructor
  · rw [hstore, hclock]
    exact h.store.applied hkeeps hshort
  · intro t' a' hrun'
    -- with the new access the trace is vouched for in the tables as they were
    have ⟨horderly', hvouched'⟩ := h.update (t := t) (fun b hb => by
      cases hb
      refine ⟨horderly, hvouched.concat (h.store.vouched (s.world.perform_stands t action)) ?_⟩
      intro time haccess
      cases haccess
      rfl) t' a' hrun'
    rw [hstore, hclock]
    exact ⟨horderly', hvouched'.mono hwithin fun _ => Int64.le_refl _⟩

theorem Represents.finish (h : s.Represents forward) {result : CallResult} :
    (s.finish t a result).Represents forward :=
  ⟨h.store, h.update nofun⟩

theorem Represents.disturb (h : s.Represents forward) {around : Surroundings S A}
    (hnow : forward → s.world.clock ≤ around.clock) :
    (s.step (.disturb around)).Represents forward where
  store := h.store.later hnow
  calls t a hrun :=
    ⟨(h.calls t a hrun).1, (h.calls t a hrun).2.mono (fun _ _ hc => hc) hnow⟩

/-- As long as entries can be read back, the tables are as they should be. -/
def Kept (forward : Prop) (s : System service S A τ) : Prop :=
  (∀ e ∈ s.history, e.isShort = true) → s.Represents forward

theorem Kept.transition (h : s.Kept forward) (ht : Transition m s s') (hm : m.isOrderly = true)
    (hclock : ∀ around, m = .disturb around → forward → s.world.clock ≤ around.clock) :
    s'.Kept forward := by
  intro hshort
  have ⟨later, hhistory⟩ := ht.exists_history_eq
  have hbefore : s.Represents forward := by
    apply h
    intro e he
    rw [hhistory] at hshort
    exact hshort e (List.mem_append_left _ he)
  cases ht with
  | begin => exact hbefore.begin hm
  | act hrun hrest =>
    exact hbefore.act hrun hrest (hshort _ (List.mem_append_right _ (List.mem_singleton_self _)))
  | finish => exact hbefore.finish
  | @disturb _ around => exact hbefore.disturb (hclock around rfl)

/-- Between changes of the surroundings the clock stands still. -/
theorem Kept.step (h : s.Kept forward) (hm : m.isOrderly = true) (hclock : m.clock? = none) :
    (s.step m).Kept forward ∧ (s.step m).world.clock = s.world.clock := by
  let P : System service S A τ → Prop := fun s' =>
    s'.Kept forward ∧ s'.world.clock = s.world.clock
  have hstart : P s := ⟨h, rfl⟩
  apply step_induction _ hstart
  intro s₁ s₂ ht ⟨hkept, hsame⟩
  refine ⟨hkept.transition ht hm fun around hdisturb => ?_, ?_⟩
  · rw [hdisturb] at hclock
    cases hclock
  · cases ht with
    | begin => exact hsame
    | act => exact (World.perform_clock ..).trans hsame
    | finish => exact hsame
    | disturb => cases hclock

theorem Kept.run {moves : List (Move S A τ)} (h : s.Kept forward)
    (hm : ∀ m ∈ moves, m.isOrderly = true) (hclock : forward → s.world.Advances moves) :
    (s.run moves).Kept forward := by
  induction moves generalizing s with
  | nil => exact h
  | cons m moves ih =>
    rw [List.forall_mem_cons] at hm
    cases hnone : m.clock? with
    | none =>
      have ⟨hstep, hsame⟩ := h.step hm.1 hnone
      apply ih hstep hm.2
      intro hf
      have hadvances := hclock hf
      unfold World.Advances at hadvances ⊢
      rwa [List.filterMap_cons_none hnone, ← hsame] at hadvances
    | some now =>
      cases m with
      | disturb around =>
        have hadvances := fun hf => List.pairwise_cons.1 (hclock hf)
        have hdisturbed : (s.step (.disturb around)).Kept forward := by
          apply h.transition .disturb rfl
          intro around' hsame hf
          cases hsame
          exact (hadvances hf).1 _ (List.mem_cons_self ..)
        exact ih hdisturbed hm.2 fun hf => (hadvances hf).2
      | _ => cases hnone

omit [DecidableEq τ] in
theorem kept_empty {w : World S A τ}
    (hempty : ∀ table key, w.store.store.get table key = none) :
    ({ world := w } : System service S A τ).Kept forward := by
  intro _
  refine ⟨⟨fun key bytes hget => ?_, fun key bytes hget => ?_⟩, fun _ _ hrun => nomatch hrun⟩
  · cases (hempty .openKeys key).symm.trans hget
  · cases (hempty .keys key).symm.trans hget

/-- From empty tables, threads create volumes and buckets, open, extend and look up keys, and commit
records with a number that is not the last, at the same time and in any order, while stores and
allocations fail and clocks change.  As long as no record is too long to be written, every open key
is stored as it should be; and if the metadata clock never goes back, its times are in order and not
after now. -/
theorem run_represents (w : World S A τ) (hempty : ∀ table key, w.store.store.get table key = none)
    (moves : List (Move S A τ)) (hm : ∀ m ∈ moves, m.isOrderly = true) :
    let s := ({ world := w } : System service S A τ).run moves
    (∀ e ∈ s.history, e.isShort = true) → s.Represents (w.Advances moves) := by
  intro s hshort
  have hkept : s.Kept (w.Advances moves) := (kept_empty hempty).run hm id
  exact hkept hshort

/-- A key was committed with number 4.  One thread opens it again and the other extends it as soon
as it can, at a later time. -/
theorem run_represents_reopened :
    let w : World checksumScheme localAllocation Bool := {
      store := { store := .memory {} }, allocator := (⟨7, 1, false⟩ : LocalAllocator), clock := 5 }
    let request : KeyRequest := {
      volume := "vol", bucket := "buc", key := "a/b", dataSize := some 3 }
    let record := fun creationTime modificationTime versions => ({
      volume := "vol", bucket := "buc", key := "a/b", dataSize := 3, creationTime, modificationTime
      replicationType := .standAlone, replicationFactor := .one, versions } : KeyRecord)
    let later := { w.surroundings with allocator := (⟨7, 2, false⟩ : LocalAllocator) }
    let moves : List (Move checksumScheme localAllocation Bool) :=
      .begin true (.createVolume "vol" "owner") :: List.replicate 5 (.act true) ++
        .begin true (.createBucket "vol" "buc") :: List.replicate 8 (.act true) ++
        [.begin false (.putKey (record 1 1 [⟨4, []⟩])), .act false,
          .begin true (.openKey request), .begin false (.allocateBlock request 5)] ++
        (List.replicate 9 [.act true, .act false]).flatten ++
        .disturb { later with clock := 8 } :: List.replicate 9 (.act false)
    let s := ({ world := w } : System {} checksumScheme localAllocation Bool).run moves
    let opened := record 5 8
      [⟨5, [⟨⟨7, 1⟩, 0, 3, none⟩, ⟨⟨7, 2⟩, 0, 268435456, none⟩]⟩]
    s.world.store.store.get .openKeys request.path.tableKey = some (Stored.encode opened) ∧
      w.Advances moves ∧
      ∃ found, Stored.decode KeyRecord (Stored.encode opened) = .ok found ∧
        s.world.store.store.Backs {} (w.Advances moves) s.world.clock request.path.tableKey
          found := by
  intro w request record later moves s opened
  have hstored : s.world.store.store.get .openKeys request.path.tableKey =
      some (Stored.encode opened) := by decide +kernel
  have hm : ∀ m ∈ moves, m.isOrderly = true := by decide +kernel
  have hshort : ∀ e ∈ s.history, e.isShort = true := by decide +kernel
  have hempty : ∀ table key, w.store.store.get table key = none := Store.get_empty
  have hadvances : w.Advances moves := by
    unfold World.Advances
    decide +kernel
  have hrepresents : s.Represents (w.Advances moves) :=
    @run_represents {} checksumScheme localAllocation Bool _ w hempty moves hm hshort
  exact ⟨hstored, hadvances, hrepresents.store.openKeys _ _ hstored⟩

end System

end ObjectMeta
