import ObjectMeta.Proofs.Operation.Alike
import ObjectMeta.Proofs.Operation.KeyHistory

/-!
# Committed versions are closed

Calls are taken one at a time, and open keys are committed in between.  A key is opened with the
version that comes after its committed one, and a commit puts this version in place of the other, so
the number of the committed version counts the commits (`Store.Fenced`).  Blocks are only asked for
in a version that was found to be open (`allocateBlock_awaitsOpen`).  So a version that was
committed is never extended again, whatever numbers calls come with (`World.chronicle_fenced`).
-/

namespace ObjectMeta

open Operation Program

/-! ## 1. Commits -/

def Entry.commits (path : ResourcePath) (entry : Entry) : Bool :=
  decide (entry.call = .commit path ∧ entry.result = .ok (.committed true))

def commitCount (path : ResourcePath) (entries : List Entry) : Nat :=
  entries.countP (Entry.commits path)

/-- Open keys can be forgotten. -/
def LetClose (faults : List StoreFault) : Prop :=
  ∀ fault ∈ faults, fault.call = .delete → fault.table ≠ .openKeys

section Commit

variable {S : SignatureScheme} {A : AllocationService} {τ : Type} [DecidableEq τ]
  {service : KeyService} {w : World S A τ} {t : τ} {path : ResourcePath}

theorem World.perform_letClose (h : LetClose w.store.faults) (action : Action) :
    LetClose (w.perform t action).2.store.faults := by
  have hattempt : ∀ {α : Type} call table (action : Store → α × Store),
      LetClose (w.store.attempt call table action).2.faults := by
    intro α call table action fault hmem hdelete
    rw [FaultyStore.attempt_faults] at hmem
    obtain ⟨fault', hmem', hcall, htable⟩ := StoreFault.exists_of_mem_check hmem
    rw [← htable]
    exact h fault' hmem' (hcall.trans hdelete)
  cases action with
  | get table key => exact hattempt .get table fun store => (store.get table key, store)
  | contains table key => exact hattempt .get table fun store => (store.contains table key, store)
  | put table key value => exact hattempt .put table fun store => ((), store.put table key value)
  | delete table key => exact hattempt .delete table fun store => ((), store.delete table key)
  | _ => exact h

/-- Where open keys can be forgotten, a commit either changes nothing or moves the record that it
has read. -/
theorem commit_runAlone_cases (service : KeyService) (t : τ) (path : ResourcePath)
    (hclose : LetClose w.store.faults) :
    let run := ((Call.commit path).program service).runAlone t w
    (run.1 ≠ .ok (.committed true) ∧ run.2.store.store = w.store.store) ∨
      run.1 = .ok (.committed true) ∧ ∃ bytes record,
        w.store.store.get .openKeys path.tableKey = some bytes ∧
        Stored.decode KeyRecord bytes = .ok record ∧
        run.2.store.store = (w.store.store.put .keys record.path.tableKey
          (Stored.encode record)).delete .openKeys path.tableKey := by
  rw [commit_program, runAlone]
  have hclose₁ := w.perform_letClose (t := t) hclose (.get .openKeys path.tableKey)
  have hstands := w.perform_stands t (.get .openKeys path.tableKey)
  have hstore := w.perform_store t (.get .openKeys path.tableKey)
  generalize w.perform t (.get .openKeys path.tableKey) = got at *
  obtain ⟨answer, w₁⟩ := got
  have hsame : w₁.store.store = w.store.store := hstore
  dsimp only at hstands ⊢
  cases hread : readRecord KeyRecord answer with
  | error e => exact .inl ⟨(fun hr => by cases hr), hsame⟩
  | ok found =>
    cases found with
    | none => exact .inl ⟨(fun hr => by cases hr), hsame⟩
    | some record =>
      obtain ⟨bytes, rfl, hdecode⟩ := readRecord_eq_ok_some hread
      have hget : w.store.store.get .openKeys path.tableKey = some bytes := hstands
      let put : Action := .put .keys record.path.tableKey (Stored.encode record)
      have hclose₂ := w₁.perform_letClose (t := t) hclose₁ put
      have hstore := w₁.perform_store t put
      dsimp only
      rw [runAlone]
      generalize w₁.perform t put = done at *
      obtain ⟨answer, w₂⟩ := done
      cases answer with
      | error e => exact .inl ⟨(fun hr => by cases hr), hstore.trans hsame⟩
      | ok u =>
        have hdelete : (w₂.perform t (.delete .openKeys path.tableKey)).1 = .ok () :=
          FaultyStore.attempt_eq_ok hclose₂ fun store => ((), store.delete .openKeys path.tableKey)
        have hstore' := w₂.perform_store t (.delete .openKeys path.tableKey)
        have hput : w₂.store.store = w.store.store.put .keys record.path.tableKey
            (Stored.encode record) := hsame ▸ hstore
        refine .inr ⟨?_, bytes, record, hget, hdecode, ?_⟩
        · show Except.map _ (Except.mapError _ (w₂.perform t (.delete _ _)).1) = _
          rw [hdelete]
          rfl
        · rw [hdelete] at hstore'
          rw [← hput]
          exact hstore'

end Commit

/-! ## 2. Numbers of versions -/

def KeyRecord.HasOnly (record : KeyRecord) (n : Nat) : Prop :=
  ∃ version, record.versions = [version] ∧ version.number.toNat = n

namespace KeyRecord.HasOnly

variable {record found : KeyRecord} {n : Nat}

theorem latestNumber (h : record.HasOnly n) : record.latestNumber.toNat = n := by
  obtain ⟨version, hversions, hnumber⟩ := h
  unfold KeyRecord.latestNumber latest?
  rw [hversions]
  exact hnumber

theorem eq_of_version? (h : record.HasOnly n) {number : UInt64}
    (hversion : (record.version? number).isSome = true) : number.toNat = n := by
  obtain ⟨version, hversions, hnumber⟩ := h
  unfold version? at hversion
  rw [hversions, List.find?_isSome] at hversion
  obtain ⟨version', hmem, hsame⟩ := hversion
  rw [← of_decide_eq_true hsame, List.mem_singleton.1 hmem]
  exact hnumber

theorem extendedRecord (h : record.HasOnly n) {number : UInt64}
    (hversion : (record.version? number).isSome = true) (location : BlockLocation) (time : Int64) :
    (KeyService.extendedRecord record number location time).HasOnly n := by
  obtain ⟨version, hversions, hnumber⟩ := h
  exact ⟨_, KeyService.extendedRecord_versions hversions hversion location time, hnumber⟩

/-- Whatever the blocks are read back as, the number is the one that was written. -/
theorem of_decode (h : record.HasOnly n) (hpath : LawfulStored.fits record.path.text)
    (hread : Stored.decode KeyRecord (Stored.encode record) = .ok found) : found.HasOnly n := by
  obtain ⟨version, hversions, hnumber⟩ := h
  obtain ⟨hvol, hbucket, hkey⟩ := record.fits_names hpath
  obtain ⟨version', hversions', hsame⟩ :=
    Stored.version_of_decode_encode hvol hbucket hkey hversions hread
  exact ⟨version', hversions', hsame ▸ hnumber⟩

end KeyRecord.HasOnly

/-! ## 3. What the tables hold -/

/-- What the tables hold about a key that was committed `n` times. -/
structure Store.Fenced (store : Store) (path : ResourcePath) (n : Nat) : Prop where
  uncommitted : n = 0 → store.get .keys path.tableKey = none
  committed : 0 < n → ∃ record : KeyRecord,
    store.get .keys path.tableKey = some (Stored.encode record) ∧ LawfulStored.fits record ∧
      record.latestNumber.toNat = n
  opened : ∀ bytes, store.get .openKeys path.tableKey = some bytes → ∃ record : KeyRecord,
    bytes = Stored.encode record ∧ LawfulStored.fits record.path.text ∧ record.HasOnly (n + 1)

namespace Store.Fenced

variable {store store' : Store} {path : ResourcePath} {n : Nat}

theorem of_empty (hkeys : store.get .keys path.tableKey = none)
    (hopen : store.get .openKeys path.tableKey = none) : store.Fenced path 0 where
  uncommitted _ := hkeys
  committed hn := absurd hn (Nat.lt_irrefl 0)
  opened bytes hbytes := by
    rw [hopen] at hbytes
    cases hbytes

/-- What is read of an open key has the number that comes next. -/
theorem read (h : store.Fenced path n) {bytes : Bytes} {record : KeyRecord}
    (hget : store.get .openKeys path.tableKey = some bytes)
    (hread : Stored.decode KeyRecord bytes = .ok record) : record.HasOnly (n + 1) := by
  obtain ⟨written, rfl, hpath, hnumber⟩ := h.opened bytes hget
  exact hnumber.of_decode hpath hread

/-- Where no committed key has changed, only what is open has to be looked at. -/
theorem of_opened (h : store.Fenced path n)
    (hkeys : store'.get .keys path.tableKey = store.get .keys path.tableKey)
    (hopened : ∀ bytes, store'.get .openKeys path.tableKey = some bytes → ∃ record : KeyRecord,
      bytes = Stored.encode record ∧ LawfulStored.fits record.path.text ∧
        record.HasOnly (n + 1)) : store'.Fenced path n where
  uncommitted hn := hkeys.trans (h.uncommitted hn)
  committed hn := by
    rw [hkeys]
    exact h.committed hn
  opened := hopened

theorem congr (h : store.Fenced path n)
    (hkeys : store'.get .keys path.tableKey = store.get .keys path.tableKey)
    (hopen : store'.get .openKeys path.tableKey = store.get .openKeys path.tableKey) :
    store'.Fenced path n :=
  h.of_opened hkeys fun bytes hbytes => h.opened bytes (hopen ▸ hbytes)

/-- What is written to an open key has the number that comes next. -/
theorem put_open (h : store.Fenced path n)
    (hkeys : store'.get .keys path.tableKey = store.get .keys path.tableKey)
    {record : KeyRecord} (hpath : LawfulStored.fits record.path.text)
    (hnumber : record.path.tableKey = path.tableKey → record.HasOnly (n + 1))
    (hopen : store'.get .openKeys path.tableKey =
      if record.path.tableKey = path.tableKey then some (Stored.encode record)
      else store.get .openKeys path.tableKey) : store'.Fenced path n := by
  refine h.of_opened hkeys fun bytes hbytes => ?_
  rw [hopen] at hbytes
  split at hbytes
  · next hkey => exact ⟨record, (Option.some.inj hbytes).symm, hpath, hnumber hkey⟩
  · exact h.opened bytes hbytes

/-- A key is opened with the number after that of the committed record. -/
theorem firstRecord (h : store.Fenced path n) (hn : n < 2 ^ 64 - 1) {committed : Option Bytes}
    {committed? : Option KeyRecord} (hget : store.get .keys path.tableKey = committed)
    (hread : readRecord KeyRecord (.ok committed) = .ok committed?) (request : KeyRequest)
    (location : BlockLocation) (time : Int64) :
    (KeyService.firstRecord request committed? location time).HasOnly (n + 1) := by
  refine ⟨_, rfl, ?_⟩
  rcases Nat.eq_zero_or_pos n with hzero | hpos
  · rw [h.uncommitted hzero] at hget
    subst hget hzero
    cases hread
    rfl
  · obtain ⟨record, hrecord, hfits, hnumber⟩ := h.committed hpos
    rw [hrecord] at hget
    subst hget
    rw [readRecord, Stored.decode_encode hfits] at hread
    cases hread
    show (record.latestNumber + 1).toNat = n + 1
    have hone : (1 : UInt64).toNat = 1 := rfl
    rw [UInt64.toNat_add, hnumber, hone]
    exact Nat.mod_eq_of_lt (by omega)

/-- A commit moves the open record, so that its number is the committed one. -/
theorem commit (h : store.Fenced path n) (hf : store.WellFiled) {bytes : Bytes}
    {record : KeyRecord} (hget : store.get .openKeys path.tableKey = some bytes)
    (hread : Stored.decode KeyRecord bytes = .ok record) :
    ((store.put .keys record.path.tableKey (Stored.encode record)).delete .openKeys
      path.tableKey).Fenced path (n + 1) where
  uncommitted hn := by cases hn
  committed _ := by
    have hkey : record.path.tableKey = path.tableKey := hf _ _ _ hget rfl record hread
    refine ⟨record, ?_, (Stored.decode_eq_ok_iff.1 hread).1, (h.read hget hread).latestNumber⟩
    rw [get_delete, if_neg (fun hsame => by cases hsame.1), get_put, if_pos ⟨rfl, hkey⟩]
  opened bytes' hbytes' := by
    rw [get_delete, if_pos ⟨rfl, rfl⟩] at hbytes'
    cases hbytes'

end Store.Fenced

/-! ## 4. One call -/

section Attend

variable {S : SignatureScheme} {A : AllocationService} {τ : Type} [DecidableEq τ]
  {service : KeyService} {w : World S A τ} {t : τ} {path : ResourcePath} {n : Nat} {call : Call}
  {trace : Trace} {result : Except OperationError Outcome} {store store' : Store}

omit [DecidableEq τ] in
/-- Calls that take locks commit nothing, and what they open or extend is open in the version that
comes next. -/
theorem Store.Fenced.of_runsBy (h : store.Fenced path n) (hn : n < 2 ^ 64 - 1)
    (hg : call.isGuarded = true)
    (hfits : ∀ request, call.request? = some request → LawfulStored.fits request.path.text)
    (hruns : call.RunsBy service store trace result store')
    (hkeys : ∀ key, store'.get .keys key = store.get .keys key) : store'.Fenced path n := by
  cases hw : call.writesOpenKeys with
  | false => exact h.congr (hkeys _) (hruns.get_openKeys hg hw _)
  | true =>
    cases result with
    | error e => exact h.congr (hkeys _) (hruns.get_of_error hw _ _)
    | ok outcome =>
      obtain ⟨before, record, hwrites, -, -, hread, hget⟩ := hruns.get_of_ok hw
      obtain ⟨request, hrequest⟩ := Call.exists_request hw
      have hpath : record.path = request.path := hwrites.path hrequest
      refine h.put_open (hkeys _) (hpath ▸ hfits request hrequest) (fun hkey => ?_) (hget _)
      rw [hpath] at hkey
      cases hwrites with
      | @first _ committed _ _ _ _ hcommitted =>
        cases hrequest
        have hkeys : store.get .keys path.tableKey = committed :=
          hkey ▸ hread .keys request.path.tableKey committed (by simp [KeyService.opening])
        exact h.firstRecord hn hkeys hcommitted ..
      | @next _ _ bytes _ _ _ _ hdecode _ hversion =>
        cases hrequest
        have hopen : store.get .openKeys path.tableKey = some bytes :=
          hkey ▸ hread .openKeys request.path.tableKey (some bytes) (by simp [KeyService.extending])
        exact (h.read hopen hdecode).extendedRecord hversion ..

theorem fenced_of_guarded (h : w.store.store.Fenced path n) (hf : w.store.store.WellFiled)
    (hn : n < 2 ^ 64 - 1) (hg : call.isGuarded = true)
    (hfits : ∀ request, call.request? = some request → LawfulStored.fits request.path.text) :
    let run := (call.program service).runAlone t w
    run.2.store.store.WellFiled ∧ run.2.store.store.Fenced path n := by
  obtain ⟨trace, hruns, -, hfiled, hkeys⟩ := Call.runsBy_runAlone (t := t) hg hfits hf
  exact ⟨hfiled, h.of_runsBy hn hg hfits hruns hkeys⟩

/-- A commit of the key counts if it is made. -/
theorem fenced_of_commit (h : w.store.store.Fenced path n) (hf : w.store.store.WellFiled)
    (hclose : LetClose w.store.faults) (path' : ResourcePath) (time : Int64) :
    let run := ((Call.commit path').program service).runAlone t w
    run.2.store.store.WellFiled ∧
      run.2.store.store.Fenced path (n + commitCount path [⟨.commit path', time, run.1⟩]) := by
  intro run
  rw [commitCount, List.countP_singleton]
  by_cases hpath : path' = path
  · subst hpath
    obtain ⟨hresult, hstore⟩ | ⟨hresult, bytes, record, hget, hread, hstore⟩ :=
      commit_runAlone_cases service t path' hclose
    · have hnone : Entry.commits path' ⟨.commit path', time, run.1⟩ = false :=
        decide_eq_false fun hboth => hresult hboth.2
      rw [hnone, hstore]
      exact ⟨hf, h⟩
    · have hone : Entry.commits path' ⟨.commit path', time, run.1⟩ = true :=
        decide_eq_true ⟨rfl, hresult⟩
      have hput : (w.store.store.put .keys record.path.tableKey
          (Stored.encode record)).WellFiled :=
        hf.put fun hopen => by cases hopen
      rw [hone, hstore]
      exact ⟨hput.delete _ _, h.commit hf hget hread⟩
  · -- another key is committed
    have hnone : Entry.commits path ⟨.commit path', time, run.1⟩ = false :=
      decide_eq_false fun hboth => hpath (Call.commit.inj hboth.1)
    have hkey : path'.tableKey ≠ path.tableKey :=
      fun hkey => hpath (ResourcePath.tableKey_inj.1 hkey)
    have havoids : ((Call.commit path').program service).Always Access.Credible
        (fun _ action => action.Avoids path.tableKey) (fun _ _ => True) [] := commit_avoids hkey
    obtain ⟨hfiled, hget⟩ := World.get_of_avoids (t := t) havoids hf
    rw [hnone]
    exact ⟨hfiled, h.congr (hget _) (hget _)⟩

/-- A call that takes locks, with texts that can be stored, or a commit that is not cut short. -/
def Occasion.Complete (occasion : Occasion S A τ) : Prop :=
  match occasion.call with
  | .commit _ => LetClose occasion.around.faults
  | call => call.isGuarded = true ∧
    ∀ request, call.request? = some request → LawfulStored.fits request.path.text

theorem fenced_attend (service : KeyService) (h : w.store.store.Fenced path n)
    (hf : w.store.store.WellFiled) (hn : n < 2 ^ 64 - 1) {occasion : Occasion S A τ}
    (hcomplete : occasion.Complete) :
    (w.attend service occasion).2.store.store.WellFiled ∧
      (w.attend service occasion).2.store.store.Fenced path
        (n + commitCount path [(w.attend service occasion).1]) := by
  obtain ⟨t, around, call⟩ := occasion
  have hguarded : call.isGuarded = true →
      (∀ request, call.request? = some request → LawfulStored.fits request.path.text) →
      ∀ entry : Entry, entry.call = call →
        ((call.program service).runAlone t (w.within around)).2.store.store.WellFiled ∧
          ((call.program service).runAlone t (w.within around)).2.store.store.Fenced path
            (n + commitCount path [entry]) := by
    intro hg hfits entry hcall
    have hnone : entry.commits path = false := by
      refine decide_eq_false fun hboth => ?_
      rw [← hcall, hboth.1] at hg
      cases hg
    rw [commitCount, List.countP_singleton, hnone]
    exact fenced_of_guarded (w := w.within around) h hf hn hg hfits
  cases call with
  | commit path' => exact fenced_of_commit (w := w.within around) h hf hcomplete path' around.clock
  | _ => exact hguarded hcomplete.1 hcomplete.2 _ rfl

/-- However often keys are opened, extended and committed, the tables fit the number of commits. -/
theorem fenced_chronicle (h : w.store.store.Fenced path n) (hf : w.store.store.WellFiled)
    {occasions : List (Occasion S A τ)} (hcomplete : ∀ occasion ∈ occasions, occasion.Complete)
    (hn : n + commitCount path (w.chronicle service occasions).1 < 2 ^ 64 - 1) :
    (w.chronicle service occasions).2.store.store.Fenced path
      (n + commitCount path (w.chronicle service occasions).1) := by
  induction occasions generalizing w n with
  | nil => exact h
  | cons occasion rest ih =>
    rw [List.forall_mem_cons] at hcomplete
    have hcount : commitCount path (w.chronicle service (occasion :: rest)).1 =
        commitCount path [(w.attend service occasion).1] +
          commitCount path ((w.attend service occasion).2.chronicle service rest).1 := by
      show List.countP _ ([_] ++ _) = _
      rw [List.countP_append]
      rfl
    rw [hcount, ← Nat.add_assoc] at hn ⊢
    obtain ⟨hfiled, hfenced⟩ := fenced_attend service h hf (by omega) hcomplete.1
    exact ih hfenced hfiled hcomplete.2 hn

end Attend

/-! ## 5. Asking for a block -/

def Trace.FoundOpen (trace : Trace) (path : ResourcePath) (number : UInt64) : Prop :=
  ∃ bytes record, ⟨.get .openKeys path.tableKey, .ok (some bytes)⟩ ∈ trace ∧
    Stored.decode KeyRecord bytes = .ok record ∧ (record.version? number).isSome = true

/-- A block is asked for, and an entry written, only once the version was found to be open, and what
is read is read before anything is written. -/
def Action.AwaitsOpen (path : ResourcePath) (number : UInt64) (trace : Trace) : Action → Prop
  | allocate _ | put .. => trace.FoundOpen path number
  | delete .. => False
  | get .. => trace.puts = []
  | _ => True

variable {service : KeyService} {request : KeyRequest} {number : UInt64}

theorem Trace.FoundOpen.append {trace : Trace} {path : ResourcePath}
    (h : trace.FoundOpen path number) (later : Trace) : (trace ++ later).FoundOpen path number := by
  obtain ⟨bytes, record, hmem, hfound⟩ := h
  exact ⟨bytes, record, List.mem_append_left _ hmem, hfound⟩

theorem allocateBlock_awaitsOpen :
    ((Call.allocateBlock request number).program service).Always (fun _ => True)
      (fun trace action => action.AwaitsOpen request.path number trace)
      (fun trace r => ∀ outcome, r = .ok outcome → trace.FoundOpen request.path number) [] := by
  have hrelease : ∀ {path : ResourcePath} {mode : LockMode} (trace : Trace)
      (r : Except OperationError BlockLocation),
      (∀ outcome, r.map Outcome.location = .ok outcome → trace.FoundOpen request.path number) →
      Action.AwaitsOpen request.path number trace (.release path mode) ∧
        ∀ outcome, r.map Outcome.location = .ok outcome →
          Trace.FoundOpen (trace ++ [⟨.release path mode, ()⟩]) request.path number :=
    fun _ _ hfound => ⟨trivial, fun outcome hr => (hfound outcome hr).append _⟩
  refine Call.always_of_operation rfl ?_
  rw [KeyService.allocateBlock_eq]
  refine checked_always (fun _ _ hr => by cases hr) fun _ => ?_
  refine locked_always trivial (locked_always trivial ?_ hrelease) hrelease
  rw [run_eq_followedBy, bind_followedBy, getOpenKey, getRecord_followedBy]
  refine ⟨rfl, fun answer _ => ?_⟩
  dsimp only
  cases hr : readRecord KeyRecord answer with
  | error e => exact fun _ hr => by cases hr
  | ok found =>
    rw [onSuccess_ok]
    split
    · next record hrecord =>
      obtain ⟨bytes, rfl, hdecode, hversion⟩ := readRecord_filter_eq_some hr hrecord
      -- from here on the version is known to be open
      have hfound : ∀ later, Trace.FoundOpen (⟨.acquire request.bucketPath .read, ()⟩ ::
          ⟨.acquire request.path .write, ()⟩ ::
          ⟨.get .openKeys request.path.tableKey, .ok (some bytes)⟩ :: later) request.path number :=
        fun later => ⟨bytes, record, by simp, hdecode, hversion⟩
      simp [KeyService.writeNext, putOpenKey, Except.mapError, Except.map, Always,
        Action.AwaitsOpen]
      exact ⟨hfound _, fun _ _ _ => ⟨hfound _, fun _ => hfound _⟩⟩
    · exact fun _ hr => by cases hr

section Run

variable {S : SignatureScheme} {A : AllocationService} {τ : Type} [DecidableEq τ]
  {w w' : World S A τ} {t : τ} {trace : Trace} {store store' : Store}

theorem World.plays_accesses {α : Type} (p : Program α) (t : τ) (w : World S A τ) :
    w.Plays t (p.accesses t w) (p.runAlone t w).2 := by
  induction p generalizing w with
  | done value => rfl
  | step action next ih => exact ⟨rfl, ih _ _⟩

/-- What an extension has found open was open. -/
theorem exists_open_of_foundOpen {rest : Program (Except OperationError Outcome)}
    (hl : ((Call.allocateBlock request number).program service).Leads trace rest)
    (hthrough : trace.Through store store') (hfound : trace.FoundOpen request.path number) :
    ∃ bytes record, store.get .openKeys request.path.tableKey = some bytes ∧
      Stored.decode KeyRecord bytes = .ok record ∧ (record.version? number).isSome = true := by
  obtain ⟨bytes, record, hmem, hdecode, hversion⟩ := hfound
  refine ⟨bytes, record, ?_, hdecode, hversion⟩
  have hfair : ∀ {before access after}, trace = before ++ access :: after →
      access.action.AwaitsOpen request.path number before := by
    rintro before access after rfl
    exact allocateBlock_awaitsOpen.fair_at hl fun _ _ => trivial
  obtain ⟨before, after, htrace⟩ := List.append_of_mem hmem
  have hputs : Trace.puts before = [] := hfair htrace
  -- nothing has changed when the record is read
  have hspares : ∀ access ∈ before, access.Spares .openKeys request.path.tableKey := by
    intro access haccess
    refine Access.spares_of (fun value hput => ?_) (fun hdelete => ?_)
    · rw [List.filterMap_eq_nil_iff.1 hputs access haccess] at hput
      cases hput
    · obtain ⟨first, last, rfl⟩ := List.append_of_mem haccess
      have hawaits := hfair (htrace.trans (List.append_assoc ..))
      rw [hdelete] at hawaits
      exact hawaits
  rw [htrace] at hthrough
  obtain ⟨mid, hmid, hstands, -⟩ := hthrough.append
  rw [← hmid.get hspares]
  exact hstands

end Run

/-! ## 6. All histories -/

section Histories

variable {S : SignatureScheme} {A : AllocationService} {τ : Type} [DecidableEq τ]

/-- What a world holds about a key that was committed `n` times, and what becomes of calls that ask
for another block of it, in any surroundings. -/
structure World.Fenced (service : KeyService) (w : World S A τ) (path : ResourcePath) (n : Nat) :
    Prop where
  /-- A key that was never committed has no committed record. -/
  uncommitted : n = 0 → w.store.store.get .keys path.tableKey = none
  /-- The number of the committed version is the number of commits. -/
  committed : 0 < n → ∃ bytes record, w.store.store.get .keys path.tableKey = some bytes ∧
    Stored.decode KeyRecord bytes = .ok record ∧ record.latestNumber.toNat = n
  /-- An open record was written with the next number only, and is read with that. -/
  opened : ∀ bytes, w.store.store.get .openKeys path.tableKey = some bytes →
    (∃ record : KeyRecord, bytes = Stored.encode record ∧ record.HasOnly (n + 1)) ∧
      ∀ record, Stored.decode KeyRecord bytes = .ok record → record.HasOnly (n + 1)
  /-- A call that gets as far as to ask for a block came for the open version. -/
  asked : ∀ t around request number, request.path = path →
    Trace.allocations (((Call.allocateBlock request number).program service).accesses t
      (w.within around)) ≠ [] →
      (∃ bytes record, w.store.store.get .openKeys path.tableKey = some bytes ∧
        Stored.decode KeyRecord bytes = .ok record) ∧ number.toNat = n + 1
  /-- One that comes for another version fails and changes nothing. -/
  stale : ∀ t around request number, request.path = path → number.toNat ≠ n + 1 →
    let run := ((Call.allocateBlock request number).program service).runAlone t (w.within around)
    (∃ e, run.1 = .error e) ∧
      ∀ table key, run.2.store.store.get table key = w.store.store.get table key
  /-- It is told that this version is not open, where the store can be read. -/
  told : ∀ t around request number, request.path = path → number.toNat ≠ n + 1 →
    around.faults = [] → request.validate = .ok () →
    (∀ bytes, w.store.store.get .openKeys path.tableKey = some bytes →
      ∃ record, Stored.decode KeyRecord bytes = .ok record) →
    (((Call.allocateBlock request number).program service).runAlone t (w.within around)).1 =
      .error (.keyNotOpen path.text number)

variable {w : World S A τ} {path : ResourcePath} {n : Nat} {t : τ}

/-- What an extension has found open has the number that comes next. -/
theorem Store.Fenced.number_of_foundOpen {store store' : Store} (h : store.Fenced request.path n)
    {trace : Trace} {rest : Program (Except OperationError Outcome)}
    (hl : ((Call.allocateBlock request number).program service).Leads trace rest)
    (hthrough : trace.Through store store') (hfound : trace.FoundOpen request.path number) :
    (∃ bytes record, store.get .openKeys request.path.tableKey = some bytes ∧
      Stored.decode KeyRecord bytes = .ok record) ∧ number.toNat = n + 1 := by
  obtain ⟨bytes, record, hget, hdecode, hversion⟩ := exists_open_of_foundOpen hl hthrough hfound
  exact ⟨⟨bytes, record, hget, hdecode⟩, (h.read hget hdecode).eq_of_version? hversion⟩

/-- An extension of another version does nothing that needs the version to be open. -/
theorem Store.Fenced.runAlone_stale (h : w.store.store.Fenced request.path n)
    (hnumber : number.toNat ≠ n + 1) (t : τ) :
    let run := ((Call.allocateBlock request number).program service).runAlone t w
    (∃ e, run.1 = .error e) ∧
      ∀ table key, run.2.store.store.get table key = w.store.store.get table key := by
  intro run
  have hl := ((Call.allocateBlock request number).program service).leads_accesses t w
  have hplays := World.plays_accesses ((Call.allocateBlock request number).program service) t w
  have hnot : ¬Trace.FoundOpen (((Call.allocateBlock request number).program service).accesses t w)
      request.path number :=
    fun hfound => hnumber (h.number_of_foundOpen hl hplays.through hfound).2
  constructor
  · cases hr : run.1 with
    | error e => exact ⟨e, rfl⟩
    | ok outcome =>
      exact absurd (allocateBlock_awaitsOpen.of_leads hl (fun _ _ => trivial) _ hr) hnot
  · intro table key
    refine hplays.through.get fun access haccess => ?_
    obtain ⟨before, after, htrace⟩ := List.append_of_mem haccess
    rw [htrace] at hl hnot
    have hawaits := allocateBlock_awaitsOpen.fair_at hl fun _ _ => trivial
    refine Access.spares_of (fun value hput => ?_) (fun hdelete => ?_)
    · rw [Access.action_of_put? hput] at hawaits
      exact hnot (hawaits.append _)
    · rw [hdelete] at hawaits
      exact hawaits

theorem Store.Fenced.runAlone_told (h : w.store.store.Fenced request.path n)
    (hnumber : number.toNat ≠ n + 1) (hfaults : w.store.faults = [])
    (hvalid : request.validate = .ok ())
    (hreadable : ∀ bytes, w.store.store.get .openKeys request.path.tableKey = some bytes →
      ∃ record, Stored.decode KeyRecord bytes = .ok record) (t : τ) :
    (((Call.allocateBlock request number).program service).runAlone t w).1 =
      .error (.keyNotOpen request.path.text number) := by
  -- whatever is read, it has no version of this number
  have hread : ∃ found, readRecord KeyRecord (.ok (w.store.store.get .openKeys
      request.path.tableKey)) = .ok found ∧
      (found.filter fun record => (record.version? number).isSome) = none := by
    cases hget : w.store.store.get .openKeys request.path.tableKey with
    | none => exact ⟨none, rfl, rfl⟩
    | some bytes =>
      obtain ⟨record, hdecode⟩ := hreadable bytes hget
      refine ⟨some record, by rw [readRecord, hdecode]; rfl, ?_⟩
      rw [Option.filter_eq_none_iff]
      intro record' hrecord' hversion
      cases hrecord'
      exact hnumber ((h.read hget hdecode).eq_of_version? hversion)
  obtain ⟨found, hfound, hnone⟩ := hread
  rw [Call.program, run_eq_followedBy, Call.operation, KeyService.allocateBlock_eq]
  simp only [map_followedBy, bind_followedBy (checked _), checked_followedBy, hvalid,
    Except.mapError, onSuccess_ok, locked_followedBy, bind_followedBy, getOpenKey,
    getRecord_followedBy, runAlone, World.perform]
  have hget : (w.store.get .openKeys request.path.tableKey).1 =
      .ok (w.store.store.get .openKeys request.path.tableKey) := by
    rw [FaultyStore.get, FaultyStore.attempt_of_faultless hfaults]
  rw [hget, hfound, onSuccess_ok, hnone]
  rfl

/-- What the tables say of a key tells what becomes of calls on it. -/
theorem Store.Fenced.fenced (h : w.store.store.Fenced path n) (service : KeyService) :
    w.Fenced service path n where
  uncommitted := h.uncommitted
  committed hn := by
    obtain ⟨record, hget, hfits, hnumber⟩ := h.committed hn
    exact ⟨_, record, hget, Stored.decode_encode hfits, hnumber⟩
  opened bytes hget := by
    obtain ⟨record, hbytes, -, hnumber⟩ := h.opened bytes hget
    exact ⟨⟨record, hbytes, hnumber⟩, fun record hread => h.read hget hread⟩
  asked t around request number hpath hasked := by
    subst hpath
    have hl := ((Call.allocateBlock request number).program service).leads_accesses t
      (w.within around)
    obtain ⟨asked, hmem⟩ := List.exists_mem_of_ne_nil _ hasked
    obtain ⟨access, haccess, hallocation⟩ := List.mem_filterMap.1 hmem
    obtain ⟨before, after, htrace⟩ := List.append_of_mem haccess
    have hplays := World.plays_accesses ((Call.allocateBlock request number).program service) t
      (w.within around)
    rw [htrace] at hl hplays
    have hawaits := allocateBlock_awaitsOpen.fair_at hl fun _ _ => trivial
    have hfound : Trace.FoundOpen before request.path number := by
      obtain ⟨action, answer⟩ := access
      cases action with
      | allocate => exact hawaits
      | _ => cases hallocation
    exact h.number_of_foundOpen hl hplays.through (hfound.append _)
  stale t around request number hpath hnumber := by
    subst hpath
    exact Store.Fenced.runAlone_stale (w := w.within around) h hnumber t
  told t around request number hpath hnumber hfaults hvalid hreadable := by
    subst hpath
    exact Store.Fenced.runAlone_told (w := w.within around) h hnumber hfaults hvalid hreadable t

/-- From tables without keys on, whatever calls are made in whatever surroundings, how they turn out
and which keys are committed in between: the number of a committed version is the number of commits
of its key, an open key has the next version and no other, and only that is ever extended. -/
theorem World.chronicle_fenced (service : KeyService) (w : World S A τ)
    (hempty : ∀ key, w.store.store.get .keys key = none ∧ w.store.store.get .openKeys key = none)
    (occasions : List (Occasion S A τ)) (hcomplete : ∀ occasion ∈ occasions, occasion.Complete)
    (path : ResourcePath) :
    let after := w.chronicle service occasions
    commitCount path after.1 < 2 ^ 64 - 1 →
      after.2.Fenced service path (commitCount path after.1) := by
  intro after hn
  have hf : w.store.store.WellFiled := by
    rintro table key value hget rfl
    rw [(hempty key).2] at hget
    cases hget
  have hstart : w.store.store.Fenced path 0 := .of_empty (hempty _).1 (hempty _).2
  have hfenced : after.2.store.store.Fenced path (0 + commitCount path after.1) :=
    fenced_chronicle hstart hf hcomplete (by rwa [Nat.zero_add])
  rw [Nat.zero_add] at hfenced
  exact hfenced.fenced service

/-- A key is opened, extended and committed, with the given faults of the store at the commit; then
it is opened again, and blocks are asked for first in the old version and then in the new. -/
def reopening (faults : List StoreFault) : List (Occasion ed25519 localAllocation Unit) :=
  let request : KeyRequest := { volume := "v", bucket := "b", key := "k" }
  let occasion := fun faults localId call =>
    ({ thread := (), call, around := {
      faults, allocator := (⟨7, localId, false⟩ : LocalAllocator), clock := 5
      ownTokenClock := none, authority := none } } : Occasion ed25519 localAllocation Unit)
  [occasion [] 1 (.createVolume "v" "alice"), occasion [] 1 (.createBucket "v" "b"),
    occasion [] 1 (.openKey request), occasion [] 2 (.allocateBlock request 1),
    occasion faults 3 (.commit request.path), occasion [] 3 (.openKey request),
    occasion [] 4 (.allocateBlock request 1), occasion [] 4 (.allocateBlock request 2)]

/-- The version that was committed is refused, its successor is not. -/
theorem World.chronicle_fenced_reopened :
    let w : World ed25519 localAllocation Unit := {
      store := { store := .memory {} }, allocator := (⟨7, 1, false⟩ : LocalAllocator), clock := 5 }
    let path := ResourcePath.key "v" "b" "k"
    let after := w.chronicle {} (reopening [])
    ((∀ key, w.store.store.get .keys key = none ∧ w.store.store.get .openKeys key = none) ∧
      (∀ occasion ∈ reopening [], occasion.Complete) ∧ commitCount path after.1 = 1) ∧
      (after.1.drop 6).map (·.result) = [.error (.keyNotOpen path.text 1),
        .ok (.location ⟨⟨7, 4⟩, 0, 268435456, none⟩)] ∧
      after.2.Fenced {} path 1 := by
  intro w path after
  have hempty : ∀ key, w.store.store.get .keys key = none ∧
      w.store.store.get .openKeys key = none := fun _ => ⟨rfl, rfl⟩
  have hcomplete : ∀ occasion ∈ reopening [], occasion.Complete := by
    have hfits : LawfulStored.fits path.text :=
      (by decide : (Bytes.ofText path.text).length < 256 ^ 8)
    unfold reopening
    simp only [List.forall_mem_cons]
    refine ⟨⟨rfl, fun _ hr => by cases hr⟩, ⟨rfl, fun _ hr => by cases hr⟩, ⟨rfl, ?_⟩,
      ⟨rfl, ?_⟩, fun _ hmem => absurd hmem List.not_mem_nil, ⟨rfl, ?_⟩, ⟨rfl, ?_⟩, ⟨rfl, ?_⟩,
      fun _ hmem => absurd hmem List.not_mem_nil⟩
    all_goals exact fun _ hr => Option.some.inj hr ▸ hfits
  have hcount : commitCount path after.1 = 1 := by decide +kernel
  have hfenced := World.chronicle_fenced {} w hempty (reopening []) hcomplete path
  refine ⟨⟨hempty, hcomplete, hcount⟩, by decide +kernel, ?_⟩
  rw [← hcount]
  exact hfenced (by rw [hcount]; decide)

/-- A commit that fails to forget the open key is cut short: it does not count, and yet there is a
committed record. -/
theorem World.commit_cut_short :
    let w : World ed25519 localAllocation Unit := {
      store := { store := .memory {} }, allocator := (⟨7, 1, false⟩ : LocalAllocator), clock := 5 }
    let path := ResourcePath.key "v" "b" "k"
    let fault : StoreFault := { call := .delete, table := .openKeys, message := "disk full" }
    let after := w.chronicle {} ((reopening [fault]).take 5)
    commitCount path after.1 = 0 ∧ ¬after.2.Fenced {} path 0 := by
  intro w path fault after
  have hthere : after.2.store.store.contains .keys path.tableKey = true := by decide +kernel
  refine ⟨by decide +kernel, fun hfenced => ?_⟩
  unfold Store.contains at hthere
  rw [hfenced.uncommitted rfl] at hthere
  cases hthere

end Histories

end ObjectMeta
