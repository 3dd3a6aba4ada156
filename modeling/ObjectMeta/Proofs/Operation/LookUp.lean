import ObjectMeta.Crypto.Ed25519
import ObjectMeta.Proofs.Operation.KeyHistory

/-!
# Looking up a key

A look-up by itself answers what the history of its key comes to (`lookupKey_answers`), apart from
the tokens, which it mints anew.  So it depends on no other key and on no call that failed
(`lookupKey_of_history`), and after an opening it finds one block for the opening and one for each
call that extended the key since.
-/

namespace ObjectMeta

open Operation Program

/-! ## 1. Tokens aside -/

def BlockLocation.withoutToken (location : BlockLocation) : BlockLocation :=
  { location with token := none }

def LocationVersion.withoutTokens (version : LocationVersion) : LocationVersion :=
  { version with locations := version.locations.map BlockLocation.withoutToken }

def KeyRecord.withoutTokens (record : KeyRecord) : KeyRecord :=
  { record with versions := record.versions.map LocationVersion.withoutTokens }

def Outcome.withoutTokens : Outcome → Outcome
  | .record found => .record found.withoutTokens
  | .location added => .location added.withoutToken
  | outcome => outcome

def tokensAside (result : Except OperationError Outcome) : Except OperationError Outcome :=
  result.map Outcome.withoutTokens

theorem KeyRecord.withLatestLocations_withoutTokens {record : KeyRecord}
    {locations : List BlockLocation} (h : locations.map BlockLocation.withoutToken =
      record.latestLocations.map BlockLocation.withoutToken) :
    (record.withLatestLocations locations).withoutTokens = record.withoutTokens := by
  rw [withLatestLocations]
  cases hlatest : record.latest? with
  | none => rfl
  | some version =>
    rw [latestLocations, hlatest] at h
    have hversion : LocationVersion.withoutTokens { version with locations } =
        version.withoutTokens := by
      simp only [LocationVersion.withoutTokens, h, Option.map_some, Option.getD_some]
    obtain ⟨others, hversions⟩ := List.getLast?_eq_some_iff.1 hlatest
    simp only [withoutTokens, hversions, List.dropLast_concat, List.map_append, List.map_cons,
      List.map_nil, hversion]

theorem KeyRecord.length_latestLocations (record : KeyRecord) :
    record.withoutTokens.latestLocations.length = record.latestLocations.length := by
  rw [latestLocations, latest?, withoutTokens, List.getLast?_map, latestLocations, latest?]
  cases record.versions.getLast? with
  | none => rfl
  | some version => exact List.length_map _

/-- A result that is a record but for its tokens is one with as many blocks for readers. -/
theorem exists_record_of_tokensAside {result : Except OperationError Outcome} {record : KeyRecord}
    (h : tokensAside result = tokensAside (.ok (.record record))) :
    ∃ found, result = .ok (.record found) ∧
      found.latestLocations.length = record.latestLocations.length := by
  obtain e | outcome := result
  · cases h
  · cases outcome with
    | record found =>
      have hsame : found.withoutTokens = record.withoutTokens :=
        Outcome.record.inj (Except.ok.inj h)
      refine ⟨found, rfl, ?_⟩
      rw [← found.length_latestLocations, hsame, record.length_latestLocations]
    | _ => cases h

/-! ## 2. Look-ups by themselves -/

section Alone

variable {S : SignatureScheme} {A : AllocationService} {τ α : Type} [DecidableEq τ]
  {service : KeyService} {w : World S A τ} {t : τ} {request : KeyRequest} {state : KeyState}

omit [DecidableEq τ] in
/-- A token authority that has been started, or none, can always mint. -/
theorem World.mint_ok (h : ∀ authority, w.authority = some authority → authority.isStarted = true)
    (owner : String) (block : BlockId) (length : Int64) :
    ∃ token, w.mint owner block length = .ok token := by
  rw [mint]
  cases hauthority : w.authority with
  | none => exact ⟨none, rfl⟩
  | some authority =>
    obtain ⟨key, hkey⟩ := Option.isSome_iff_exists.1 (h authority hauthority)
    simp only [TokenAuthority.mint, TokenAuthority.key, hkey]
    exact ⟨_, rfl⟩

/-- Reading an entry tells what it holds, unless a fault speaks. -/
theorem World.perform_get_cases (table : Table) (key : Bytes) :
    (w.store.faults ≠ [] ∧ ∃ e w', w.perform t (.get table key) = (Except.error e, w')) ∨
      ∃ faults, (w.store.faults = [] → faults = []) ∧ w.perform t (.get table key) =
        (.ok (w.store.store.get table key), { w with store := ⟨w.store.store, faults⟩ }) := by
  by_cases hfaults : w.store.faults = []
  · -- without faults the read is answered
    refine .inr ⟨[], fun _ => rfl, ?_⟩
    simp only [perform, FaultyStore.get, FaultyStore.attempt_of_faultless hfaults]
  · obtain ⟨faults, hget⟩ | ⟨e, faults, hget⟩ :=
      w.store.attempt_cases .get table fun store => (store.get table key, store)
    · refine .inr ⟨faults, fun h => absurd h hfaults, ?_⟩
      simp only [perform, FaultyStore.get, hget]
    · refine .inl ⟨hfaults, e, { w with store := ⟨w.store.store, faults⟩ }, ?_⟩
      simp only [perform, FaultyStore.get, hget]

variable (service request) in
/-- Refreshing tokens changes nothing but the tokens. -/
theorem refreshTokens_runAlone
    (hmint : ∀ owner block length, ∃ token, w.mint owner block length = .ok token)
    (locations : List BlockLocation) (k : Except OperationError (List BlockLocation) → Program α) :
    ∃ locations', locations'.map BlockLocation.withoutToken =
        locations.map BlockLocation.withoutToken ∧
      ((service.refreshTokens request locations).followedBy k).runAlone t w =
        (k (.ok locations')).runAlone t w := by
  induction locations generalizing k with
  | nil => exact ⟨[], rfl, rfl⟩
  | cons location rest ih =>
    obtain ⟨token, htoken⟩ := hmint (service.tokenOwner request) location.block location.length
    rw [KeyService.refreshTokens, bind_followedBy, mint_followedBy, runAlone]
    -- minting leaves the world as it is, so the next token is minted all the same
    simp only [World.perform, htoken]
    show ∃ locations', _ ∧ ((_ >>= _ : Operation _).followedBy k).runAlone t w = _
    rw [bind_followedBy]
    obtain ⟨rest', hrest, hrun⟩ := ih (onSuccess (fun rest =>
      pure ({ location with token := token <|> location.token } :: rest)) k)
    exact ⟨_ :: rest', by rw [List.map_cons, List.map_cons, hrest]; rfl, hrun⟩

variable (service request) in
/-- What a look-up found, with fresh tokens. -/
theorem refreshed_runAlone
    (hmint : ∀ owner block length, ∃ token, w.mint owner block length = .ok token)
    (record : KeyRecord) (k : Except OperationError KeyRecord → Program α) :
    ∃ found, found.withoutTokens = record.withoutTokens ∧
      ((service.refreshed request record).followedBy k).runAlone t w =
        (k (.ok found)).runAlone t w := by
  obtain ⟨locations, hlocations, hrun⟩ := refreshTokens_runAlone (t := t) service request
    hmint record.latestLocations fun r => k (r.map record.withLatestLocations)
  rw [KeyService.refreshed, map_followedBy]
  exact ⟨_, record.withLatestLocations_withoutTokens hlocations, hrun⟩

omit [DecidableEq τ] in
theorem readRecord_encode {record? : Option KeyRecord}
    (hfits : ∀ record, record? = some record → LawfulStored.fits record) :
    readRecord KeyRecord (.ok (record?.map Stored.encode)) = .ok record? := by
  cases record? with
  | none => rfl
  | some record =>
    rw [Option.map_some, readRecord, Stored.decode_encode (hfits record rfl)]
    rfl

/-- What a look-up answers under its locks, given back afterwards by a program that returns what it
is told. -/
theorem lookupKey_body_answers {k : Except OperationError KeyRecord →
      Program (Except OperationError Outcome)}
    (hk : ∀ r (w' : World S A τ), ((k r).runAlone t w').1 = r.map .record)
    (hmint : ∀ owner block length, ∃ token, w.mint owner block length = .ok token)
    (h : Reflects w.store.store request.name state)
    (hfits : ∀ record, state.opened = some record → LawfulStored.fits record) :
    let result := (((do
      match ← getKey request.path with
      | some record => service.refreshed request record
      | none =>
        match ← (if service.lookupOpenKeys then getOpenKey request.path else pure none) with
        | some record => service.refreshed request record
        | none => throw (.keyNotFound request.path.text) :
          Operation KeyRecord).followedBy k).runAlone t w).1
    (w.store.faults ≠ [] ∧ ∃ e, result = .error (.store e)) ∨
      tokensAside result = tokensAside (state.answer service request.name) := by
  have hfound : ∀ (record : KeyRecord) (w' : World S A τ), w'.mint = w.mint →
      tokensAside (((service.refreshed request record).followedBy k).runAlone t w').1 =
        tokensAside (.ok (.record record)) := by
    intro record w' hw'
    obtain ⟨found, hfound, hrun⟩ := refreshed_runAlone service request (t := t) (w := w')
      (hw' ▸ hmint) record k
    rw [hrun, hk]
    exact congrArg (fun r => Except.ok (Outcome.record r)) hfound
  rw [bind_followedBy, getKey, getRecord_followedBy, runAlone]
  obtain ⟨hfaults, e, w', hget⟩ | ⟨faults, hfaults, hget⟩ :=
    w.perform_get_cases (t := t) .keys request.path.tableKey
  · simp only [hget, readRecord_error, onSuccess_error, hk]
    exact .inl ⟨hfaults, e, rfl⟩
  · -- the committed key wins; without one the open key is looked up where the service allows it
    have hkeys : w.store.store.get .keys request.path.tableKey = _ := h.committed
    simp only [hget, hkeys, readRecord_encode h.fits, onSuccess_ok, KeyState.answer]
    cases state.committed with
    | some record => exact .inr (hfound record _ rfl)
    | none =>
      simp only [bind_followedBy]
      cases service.lookupOpenKeys with
      | false => exact .inr (congrArg tokensAside (hk _ _))
      | true =>
        have hopen : w.store.store.get .openKeys request.path.tableKey =
            state.opened.map Stored.encode := by
          cases hopened : state.opened with
          | none => exact h.closed hopened
          | some record => exact h.opened record hopened (hfits record hopened)
        simp only [if_true, getOpenKey, getRecord_followedBy, runAlone]
        obtain ⟨hfaults', e, w', hget⟩ | ⟨faults', -, hget⟩ :=
          World.perform_get_cases (w := { w with store := ⟨w.store.store, faults⟩ }) (t := t)
            .openKeys request.path.tableKey
        · simp only [hget, readRecord_error, onSuccess_error, hk]
          exact .inl ⟨fun hnone => hfaults' (hfaults hnone), e, rfl⟩
        · simp only [hget, hopen, readRecord_encode hfits, onSuccess_ok]
          cases state.opened with
          | some record => exact .inr (hfound record _ rfl)
          | none => exact .inr (congrArg tokensAside (hk _ _))

variable (service) in
/-- A look-up by itself answers what the history of its key comes to, unless the store fails it. -/
theorem lookupKey_answers (hv : request.validate = .ok ())
    (hmint : ∀ owner block length, ∃ token, w.mint owner block length = .ok token)
    (h : Reflects w.store.store request.name state)
    (hfits : ∀ record, state.opened = some record → LawfulStored.fits record) :
    (w.store.faults ≠ [] ∧
        ∃ e, (((Call.lookupKey request).program service).runAlone t w).1 = .error (.store e)) ∨
      tokensAside (((Call.lookupKey request).program service).runAlone t w).1 =
        tokensAside (state.answer service request.name) := by
  rw [Call.program, run_eq_followedBy, Call.operation, KeyService.lookupKey_eq]
  simp only [map_followedBy, bind_followedBy (checked _), checked_followedBy, hv, Except.mapError,
    onSuccess_ok, locked_followedBy]
  -- The two locks are taken at once, since nobody else is there.
  let locked := (w.perform t (.acquire request.bucketPath .read)).2.perform t
    (.acquire request.path .read)
  refine lookupKey_body_answers (w := locked.2) ?_ hmint h hfits
  exact fun _ _ => rfl

end Alone

/-! ## 3. After an opening -/

def Extends (history : List KeyEffect) : Prop :=
  ∀ effect ∈ history, ∃ number location time, effect = .extend number location time

/-- The key was opened, has only been extended since, a number of times, and was never committed. -/
def OpenedAndExtended (name : KeyName) (count : Nat) (entries : List Entry) : Prop :=
  ∃ before opening after request record, entries = before ++ opening :: after ∧
    opening.call = .openKey request ∧ request.name = name ∧
    opening.result = .ok (.record record) ∧
    (∀ committed, .commit committed ∉ ownHistory name before) ∧
    Extends (ownHistory name after) ∧ (ownHistory name after).length = count

namespace KeyState

variable {state : KeyState} {record : KeyRecord} {history history' : List KeyEffect}

theorem Follows.append (h : state.Follows (history ++ history')) :
    (history.foldl after state).Follows history' := by
  induction history generalizing state with
  | nil => exact h
  | cons effect rest ih => exact ih h.2

theorem committed_eq_none (h : state.committed = none)
    (hcommit : ∀ record, .commit record ∉ history) :
    (history.foldl after state).committed = none := by
  induction history generalizing state with
  | nil => exact h
  | cons effect rest ih =>
    have hrest : ∀ record, .commit record ∉ rest :=
      fun record hmem => hcommit record (List.mem_cons_of_mem _ hmem)
    refine ih ?_ hrest
    cases effect with
    | commit record => exact absurd (List.mem_cons_self ..) (hcommit record)
    | _ => exact h

theorem after_extend (h : state.opened = some record) (number : UInt64) (location : BlockLocation)
    (time : Int64) : (state.after (.extend number location time)).opened =
      some (KeyService.extendedRecord record number location time) := by
  rw [after, h, Option.map_some, KeyRecord.extended_eq]

/-- An open key that can be stored after it was extended could be stored before. -/
theorem opened_of_extends (hextends : Extends history) (h : state.opened = some record) :
    ∃ record', (history.foldl after state).opened = some record' ∧
      (LawfulStored.fits record' → LawfulStored.fits record) := by
  induction history generalizing state record with
  | nil => exact ⟨record, h, id⟩
  | cons effect rest ih =>
    obtain ⟨⟨number, location, time, rfl⟩, hrest⟩ := List.forall_mem_cons.1 hextends
    obtain ⟨record', hopened, hfits⟩ := ih hrest (after_extend h number location time)
    exact ⟨record', hopened, fun hfits' => KeyService.fits_of_extendedRecord (hfits hfits')⟩

/-- A key that was opened with one version has gained one block with each extension. -/
theorem Follows.length_locations {version : LocationVersion} (hfollows : state.Follows history)
    (hextends : Extends history) (h : state.opened = some record)
    (hversions : record.versions = [version])
    (hfits : ∀ record', (history.foldl after state).opened = some record' →
      LawfulStored.fits record') :
    ∃ record' version', (history.foldl after state).opened = some record' ∧
      record'.versions = [version'] ∧
      version'.locations.length = version.locations.length + history.length := by
  induction history generalizing state record version with
  | nil => exact ⟨record, version, h, hversions, rfl⟩
  | cons effect rest ih =>
    obtain ⟨⟨number, location, time, rfl⟩, hrest⟩ := List.forall_mem_cons.1 hextends
    obtain ⟨⟨found, hfound, hadmits⟩, hfollows'⟩ := hfollows
    obtain rfl : record = found := Option.some.inj (h.symm.trans hfound)
    have hopened := after_extend h number location time
    -- The last record can be stored, so this one can, and its version is known to be there.
    obtain ⟨last, hlast, hlast'⟩ := opened_of_extends hrest hopened
    have hversions' := KeyService.extendedRecord_versions hversions
      (hadmits (record.extended_eq .. ▸ hlast' (hfits last hlast))) location time
    obtain ⟨record', version', hopened', hversions'', hlength⟩ :=
      ih hfollows' hrest hopened hversions' hfits
    refine ⟨record', version', hopened', hversions'', ?_⟩
    rw [hlength, LocationVersion.append, List.length_append, List.length_singleton,
      List.length_cons, Nat.add_right_comm, Nat.add_assoc]

end KeyState

/-- What the history of such a key comes to: an open record with one block for the opening and one
for each extension. -/
theorem OpenedAndExtended.state {name : KeyName} {count : Nat} {entries : List Entry}
    (h : OpenedAndExtended name count entries)
    (hfollows : KeyState.Follows {} (ownHistory name entries))
    (hopens : ∀ entry ∈ entries, entry.OpensOnce)
    (hfits : ∀ record, (KeyState.ofHistory (ownHistory name entries)).opened = some record →
      LawfulStored.fits record) :
    (KeyState.ofHistory (ownHistory name entries)).committed = none ∧
      ∃ record, (KeyState.ofHistory (ownHistory name entries)).opened = some record ∧
        record.latestLocations.length = count + 1 := by
  obtain ⟨before, ⟨call, time, result⟩, after, request, record, rfl, rfl, rfl, rfl, hcommit,
    hextends, rfl⟩ := h
  -- The history of the key is cut where it was opened.
  have hown : ownHistory request.name
      (before ++ ⟨.openKey request, time, .ok (.record record)⟩ :: after) =
        ownHistory request.name before ++ .start record :: ownHistory request.name after := by
    have heffect : Entry.effect? request.name ⟨.openKey request, time, .ok (.record record)⟩ =
        some (.start record) := if_pos rfl
    rw [ownHistory, List.filterMap_append, List.filterMap_cons_some heffect]
    rfl
  obtain ⟨number, location, hversions⟩ :=
    hopens _ (List.mem_append_right _ (List.mem_cons_self ..)) request record rfl rfl
  rw [hown] at hfollows hfits ⊢
  rw [KeyState.ofHistory, List.foldl_append, List.foldl_cons] at hfits ⊢
  -- neither the calls before the opening nor those after it have committed the key
  refine ⟨KeyState.committed_eq_none (KeyState.committed_eq_none rfl hcommit)
    fun committed hmem => ?_, ?_⟩
  · obtain ⟨_, _, _, heffect⟩ := hextends _ hmem
    cases heffect
  · obtain ⟨record', version', hopened, hversions', hlength⟩ :=
      hfollows.append.2.length_locations hextends rfl hversions hfits
    refine ⟨record', hopened, ?_⟩
    rw [KeyRecord.latestLocations, KeyRecord.latest?, hversions']
    exact hlength.trans (Nat.add_comm ..)

/-! ## 4. The law of histories -/

section Law

variable {S : SignatureScheme} {A : AllocationService} {τ : Type} [DecidableEq τ]
  {service : KeyService} {w w' : World S A τ}

omit [DecidableEq τ] in
theorem reflects_empty (h : ∀ table key, w.store.store.get table key = none) (name : KeyName) :
    Reflects w.store.store name {} :=
  ⟨h _ _, fun _ hsome => (by cases hsome), fun _ => h _ _, fun _ hsome => by cases hsome⟩

/-- From an empty store on, a look-up answers from the history of its own key alone, whatever calls
name other keys and whatever calls fail, unless the store fails it.  The history must come to a
record that can be stored: no text or list of it may reach 2 ^ 64 items. -/
theorem lookupKey_of_history {occasions : List (Occasion S A τ)} {entries : List Entry}
    {request : KeyRequest} {around : Surroundings S A} {t : τ}
    (hempty : ∀ table key, w.store.store.get table key = none)
    (hcalls : ∀ occasion ∈ occasions, occasion.call.Admitted request.name)
    (hrun : w.chronicle service occasions = (entries, w'))
    (hv : request.validate = .ok ())
    (hstarted : ∀ authority, around.authority = some authority → authority.isStarted = true)
    (hfits : ∀ record, (KeyState.ofHistory (ownHistory request.name entries)).opened = some record →
      LawfulStored.fits record) :
    let result := (((Call.lookupKey request).program service).runAlone t (w'.within around)).1
    (around.faults ≠ [] ∧ ∃ e, result = .error (.store e)) ∨
      tokensAside result = tokensAside
        ((KeyState.ofHistory (ownHistory request.name entries)).answer service request.name) ∧
      ∀ count, service.lookupOpenKeys = true → OpenedAndExtended request.name count entries →
        ∃ found, result = .ok (.record found) ∧ found.latestLocations.length = count + 1 := by
  have hfiled : w.store.store.WellFiled := by
    intro table key value hget
    rw [hempty] at hget
    cases hget
  have hall : Chronicled request.name {} (w.chronicle service occasions).1
      (w.chronicle service occasions).2.store.store :=
    chronicled (reflects_empty hempty request.name) hfiled (KeyRequest.name_valid hv) hcalls
  rw [hrun] at hall
  obtain hfailed | hanswer := lookupKey_answers (w := w'.within around) (t := t) service hv
    (World.mint_ok hstarted) hall.reflects hfits
  · exact .inl hfailed
  · refine .inr ⟨hanswer, fun count hlookup hopened => ?_⟩
    obtain ⟨hcommitted, record, hrecord, hlength⟩ :=
      hopened.state hall.follows hall.opens hfits
    have hanswers : (KeyState.ofHistory (ownHistory request.name entries)).answer service
        request.name = .ok (.record record) := by
      rw [KeyState.answer, hcommitted, hrecord, hlookup]
      rfl
    obtain ⟨found, hfound, hsame⟩ :=
      exists_record_of_tokensAside (hanswer.trans (congrArg tokensAside hanswers))
    exact ⟨found, hfound, hsame.trans hlength⟩

end Law

def calm (time localId : Int64) : Surroundings ed25519 localAllocation where
  faults := []
  allocator := (⟨1, localId, false⟩ : LocalAllocator)
  clock := time
  ownTokenClock := none
  authority := none

def untouched : World ed25519 localAllocation Unit where
  store.store := .memory {}
  allocator := (⟨1, 1, false⟩ : LocalAllocator)
  clock := 0

def keyRequest (key : String) : KeyRequest where
  volume := "v"
  bucket := "b"
  key := key

/-- Two keys are opened and extended in turn, where the store fails one call in between. -/
def twoKeys : List (Occasion ed25519 localAllocation Unit) := [
  ⟨(), calm 1 1, .createVolume "v" "alice"⟩,
  ⟨(), calm 2 1, .createBucket "v" "b"⟩,
  ⟨(), calm 3 1, .openKey (keyRequest "k")⟩,
  ⟨(), calm 4 2, .openKey (keyRequest "x")⟩,
  ⟨(), calm 5 3, .allocateBlock (keyRequest "k") 1⟩,
  ⟨(), { calm 6 4 with faults := [⟨.put, .openKeys, "full", 0⟩] },
    .allocateBlock (keyRequest "k") 1⟩,
  ⟨(), calm 7 5, .allocateBlock (keyRequest "x") 1⟩]

def twoKeysEntries : List Entry := (untouched.chronicle {} twoKeys).1

def keyWith (key : String) (time time' : Int64) (locations : List BlockLocation) : KeyRecord where
  volume := "v"
  bucket := "b"
  key := key
  dataSize := 0
  creationTime := time
  modificationTime := time'
  replicationType := .standAlone
  replicationFactor := .one
  versions := [⟨1, locations⟩]

theorem lookupKey_of_history_twoKeys :
    ((∀ table key, untouched.store.store.get table key = none) ∧
      (∀ occasion ∈ twoKeys, occasion.call.Admitted (keyRequest "k").name) ∧
      (keyRequest "k").validate = .ok ()) ∧
    OpenedAndExtended (keyRequest "k").name 1 twoKeysEntries ∧
    ∃ found, (((Call.lookupKey (keyRequest "k")).program {}).runAlone ()
        ((untouched.chronicle {} twoKeys).2.within (calm 8 6))).1 = .ok (.record found) ∧
      found.latestLocations.length = 2 := by
  have hempty : ∀ table key, untouched.store.store.get table key = none :=
    fun table key => Store.get_empty table key
  have hk : (Bytes.ofText (keyRequest "k").path.text).length < 256 ^ 8 := by decide
  have hx : (Bytes.ofText (keyRequest "x").path.text).length < 256 ^ 8 := by decide
  have hcalls : ∀ occasion ∈ twoKeys, occasion.call.Admitted (keyRequest "k").name := by
    simp only [twoKeys, List.forall_mem_cons]
    exact ⟨trivial, trivial, hk, hx, hk, hk, hx, fun _ ha => absurd ha List.not_mem_nil⟩
  have hlast : (KeyState.ofHistory (ownHistory (keyRequest "k").name twoKeysEntries)).opened =
      some (keyWith "k" 3 5 [⟨⟨1, 1⟩, 0, 268435456, none⟩, ⟨⟨1, 3⟩, 0, 268435456, none⟩]) := by
    decide +kernel
  have hfits : ∀ record, (KeyState.ofHistory
      (ownHistory (keyRequest "k").name twoKeysEntries)).opened = some record →
        LawfulStored.fits record := by
    intro record hrecord
    rw [hlast, Option.some.injEq] at hrecord
    subst hrecord
    refine KeyRecord.fits_of_single hk rfl (by decide : 2 < 256 ^ 8) fun location hlocation => ?_
    have htokens : ∀ location ∈ [BlockLocation.mk ⟨1, 1⟩ 0 268435456 none,
        ⟨⟨1, 3⟩, 0, 268435456, none⟩], location.token = none := by decide
    show LawfulStored.fits location.token
    rw [htokens location hlocation]
    exact fun _ h => by cases h
  have hopened : OpenedAndExtended (keyRequest "k").name 1 twoKeysEntries := by
    have hbefore : ownHistory (keyRequest "k").name (twoKeysEntries.take 2) = [] := by
      decide +kernel
    have hafter : ownHistory (keyRequest "k").name (twoKeysEntries.drop 3) =
        [.extend 1 ⟨⟨1, 3⟩, 0, 268435456, none⟩ 5] := by decide +kernel
    have hentries : twoKeysEntries = twoKeysEntries.take 2 ++ ⟨.openKey (keyRequest "k"), 3,
        .ok (.record (keyWith "k" 3 3 [⟨⟨1, 1⟩, 0, 268435456, none⟩]))⟩ ::
          twoKeysEntries.drop 3 := by decide +kernel
    refine ⟨_, _, _, _, _, hentries, rfl, rfl, rfl, fun _ hmem => ?_, fun effect hmem => ?_, ?_⟩
    · rw [hbefore] at hmem
      cases hmem
    · rw [hafter, List.mem_singleton] at hmem
      exact ⟨_, _, _, hmem⟩
    · rw [hafter, List.length_singleton]
  refine ⟨⟨hempty, hcalls, rfl⟩, hopened, ?_⟩
  have hrun : untouched.chronicle {} twoKeys =
      (twoKeysEntries, (untouched.chronicle {} twoKeys).2) := by rw [twoKeysEntries]
  have hstarted : ∀ authority, (calm 8 6).authority = some authority →
      authority.isStarted = true := nofun
  obtain ⟨hfaults, -⟩ | ⟨-, hcount⟩ :=
    lookupKey_of_history (t := ()) hempty hcalls hrun rfl hstarted hfits
  · exact absurd rfl hfaults
  · exact hcount 1 rfl hopened

end ObjectMeta
