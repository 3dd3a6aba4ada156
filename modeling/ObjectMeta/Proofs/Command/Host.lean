import ObjectMeta.Command.MemoryHost
import ObjectMeta.Proofs.Bytes
import ObjectMeta.Proofs.Command.FileTree
import ObjectMeta.Proofs.Command.Tasks

/-!
# What a call does to the machine

A call that is run changes no file but the database, and a database that only calls have filled has
no committed keys (`exec_task`).
-/

namespace ObjectMeta.Command

/-! ## 1. Programs on a machine -/

namespace MemoryHost

variable {ε ε' α β : Type} {s s' : MemoryHost} {path : String}

theorem run_bind {x : StateM MemoryHost α} {f : α → StateM MemoryHost β} {a : α}
    (h : x s = (a, s')) : (x >>= f) s = f a s' := by
  show (fun p : α × MemoryHost => f p.1 p.2) (x s) = _
  rw [h]

def exec (s : MemoryHost) (x : ExceptT ε (StateM MemoryHost) α) : Except ε α × MemoryHost :=
  x.run s

section Bind

variable {x : ExceptT ε (StateM MemoryHost) α} {f : α → ExceptT ε (StateM MemoryHost) β}

theorem exec_bind_ok {a : α} (h : s.exec x = (.ok a, s')) :
    s.exec (x >>= f) = s'.exec (f a) := by
  show (fun p : Except ε α × MemoryHost => ExceptT.bindCont f p.1 p.2) (s.exec x) = _
  rw [h]
  rfl

theorem exec_bind_error {e : ε} (h : s.exec x = (.error e, s')) :
    s.exec (x >>= f) = (.error e, s') := by
  show (fun p : Except ε α × MemoryHost => ExceptT.bindCont f p.1 p.2) (s.exec x) = _
  rw [h]
  rfl

/-- A program that succeeds does so in each of its parts. -/
theorem exec_bind_eq_ok {b : β} (h : s.exec (x >>= f) = (.ok b, s')) :
    ∃ a t, s.exec x = (.ok a, t) ∧ t.exec (f a) = (.ok b, s') := by
  rcases hx : s.exec x with ⟨result, t⟩
  cases result with
  | error e => rw [exec_bind_error hx] at h; cases h
  | ok a => exact ⟨a, t, rfl, exec_bind_ok hx ▸ h⟩

theorem exec_map_ok {g : α → β} {a : α} (h : s.exec x = (.ok a, s')) :
    s.exec (g <$> x) = (.ok (g a), s') := by
  rw [← bind_pure_comp]
  exact exec_bind_ok h

end Bind

theorem exec_pure (a : α) : s.exec (pure a : ExceptT ε (StateM MemoryHost) α) = (.ok a, s) := rfl

theorem exec_throw (e : ε) : s.exec (throw e : ExceptT ε (StateM MemoryHost) α) = (.error e, s) :=
  rfl

theorem exec_lift (x : StateM MemoryHost α) :
    s.exec (liftM x : ExceptT ε (StateM MemoryHost) α) = (.ok (x s).1, (x s).2) := rfl

theorem exec_attempt (wrap : ε → ε') {action : StateM MemoryHost (Except ε α)}
    {result : Except ε α} (h : action s = (result, s')) :
    s.exec (attempt wrap action) = (result.mapError wrap, s') := by
  show (fun p : Except ε α × MemoryHost => (p.1.mapError wrap, p.2)) (action s) = _
  rw [h]

theorem exec_attempt_eq_ok (wrap : ε → ε') {action : StateM MemoryHost (Except ε α)} {a : α}
    (h : s.exec (attempt wrap action) = (.ok a, s')) : action s = (.ok a, s') := by
  rcases haction : action s with ⟨result, t⟩
  rw [exec_attempt wrap haction] at h
  cases result with
  | error e => cases h
  | ok a' => cases h; rfl

section Host

variable {bytes : Bytes} {root : FileTree} {e : FileError}

theorem openFile_ok (h : s.root.openFile path = .ok (bytes, root)) :
    host.openFile path s = (.ok bytes, s.withRoot root) := by
  simp only [host, h]

theorem openFile_error (h : s.root.openFile path = .error e) :
    host.openFile path s = (.error e, s) := by
  simp only [host, h]

theorem write_ok (h : s.root.write path bytes = .ok root) :
    host.write path bytes s = (.ok (), s.withRoot root) := by
  simp only [host, h]

/-- A file that was written has what was written to it. -/
theorem read_of_write {u : Unit} (h : host.write path bytes s = (.ok u, s')) :
    s'.root.read path = .ok bytes := by
  cases hwrite : s.root.write path bytes with
  | error e => simp only [host, hwrite] at h; cases h
  | ok root =>
    rw [write_ok hwrite] at h
    cases h
    exact (FileTree.opens_of_write hwrite).read

end Host

end MemoryHost

open MemoryHost FileTree

variable {s : MemoryHost} {root root' initial : FileTree} {place : Place} {path : String}
  {bytes : Bytes} {journal : List Transaction}

/-! ## 2. Databases -/

namespace FileTree

def HasParent (root : FileTree) (path : String) : Prop :=
  ∀ directory, Path.parent? path = some directory → directory ≠ "" → root.IsMade directory

/-- The database at a path can be opened, and its journal is this. -/
structure HoldsJournal (root : FileTree) (path : String) (journal : List Transaction) : Prop where
  parent : root.HasParent path
  opens : ∃ bytes, root.Opens path bytes ∧ Journal.decode bytes = some journal

theorem Grows.hasParent (h : Grows place root root') (hparent : root.HasParent path) :
    root'.HasParent path :=
  fun directory hdirectory hne => h.isMade (hparent directory hdirectory hne)

end FileTree

theorem makeParent_spec (s : MemoryHost) (path : String) : ∃ result root,
    makeParent host path s = (result, s.withRoot root) ∧ Furnishes s.root root ∧
      (result = .ok () → root.HasParent path) := by
  unfold makeParent HasParent
  cases hparent : Path.parent? path with
  | none => exact ⟨.ok (), s.root, rfl, .refl _, nofun⟩
  | some directory =>
    by_cases hempty : directory = ""
    · subst hempty
      exact ⟨.ok (), s.root, rfl, .refl _, fun _ _ hsome hne => absurd (Option.some.inj hsome).symm hne⟩
    · rcases createDirectories_spec s.root directory with ⟨hmakes, hmade⟩
      simp only [if_neg hempty]
      refine ⟨_, _, rfl, hmakes, fun hok directory' hsome _ => ?_⟩
      cases hsome
      exact hmade hok

/-- An empty file is no journal. -/
theorem ne_nil_of_decode (h : Journal.decode bytes = some journal) : bytes ≠ [] := by
  rintro rfl
  cases h

/-- No text is a journal. -/
theorem decode_eq_none {text : String} (h : textOfBytes bytes = .ok text) :
    Journal.decode bytes = none := by
  have htext : Bytes.toText? bytes = some text := by
    unfold textOfBytes at h
    cases hbytes : Bytes.toText? bytes with
    | none => rw [hbytes] at h; cases h
    | some found =>
      rw [hbytes] at h
      exact congrArg some (Except.ok.inj h)
  have hne : ∀ byte ∈ bytes, byte ≠ 0xff := by
    rw [Bytes.eq_ofText_of_toText? htext]
    exact fun byte hbyte => Bytes.ne_of_mem_ofText hbyte
  cases bytes with
  | nil => rfl
  | cons byte rest =>
    have hbyte : ((0xff : UInt8) == byte) = false := by
      simp [Ne.symm (hne byte List.mem_cons_self)]
    simp [Journal.decode, Journal.signature, List.isPrefixOf?, hbyte]

/-- Where the directory is there, it is not made. -/
theorem makeParent_of_hasParent (h : s.root.HasParent path) :
    makeParent host path s = (.ok (), s) := by
  unfold makeParent
  unfold HasParent at h
  cases hparent : Path.parent? path with
  | none => rfl
  | some directory =>
    by_cases hempty : directory = ""
    · subst hempty
      rfl
    · have hmade := (h directory hparent hempty).createDirectories
      simp only [if_neg hempty]
      show ((s.root.createDirectories directory).1, s.withRoot (s.root.createDirectories directory).2) = _
      rw [hmade]
      rfl

/-- Directories may be made, and an empty file at a path, or none, may be begun as a database. -/
structure FileTree.Prepares (path : String) (root root' : FileTree) : Prop where
  grows : Grows (Place.ofPath path) root root'
  kept {bytes : Bytes} (hne : bytes ≠ [])
    (h : root.node? (Place.ofPath path) = some (.file bytes)) :
    root'.node? (Place.ofPath path) = some (.file bytes)
  found {bytes : Bytes} (h : root'.node? (Place.ofPath path) = some (.file bytes)) :
    root.node? (Place.ofPath path) = some (.file bytes) ∨ bytes = [] ∨ bytes = Journal.encode []

theorem FileTree.Furnishes.prepares (h : Furnishes root root') (path : String) :
    Prepares path root root' :=
  ⟨h.grows _, fun _ => h.keeps, fun hfile => .inl (h.file hfile)⟩

theorem FileTree.Prepares.trans {root'' : FileTree} (h : Prepares path root root')
    (h' : Prepares path root' root'') : Prepares path root root'' := by
  refine ⟨h.grows.trans h'.grows, fun hne hfile => h'.kept hne (h.kept hne hfile), ?_⟩
  intro bytes hfile
  rcases h'.found hfile with hsame | hbegun
  · exact h.found hsame
  · exact .inr hbegun

/-- A file that is missing is made empty. -/
theorem FileTree.prepares_openFile (h : root.openFile path = .ok (bytes, root')) :
    root'.Opens path bytes ∧ Prepares path root root' := by
  rcases openFile_spec h with ⟨hopens, hgrows, hold⟩
  refine ⟨hopens, hgrows, ?_, ?_⟩
  · intro bytes' _ hfile
    rcases hold with hsame | ⟨hnone, _⟩
    · rw [hsame] at hfile
      cases hfile
      exact hopens.file
    · rw [hnone] at hfile
      cases hfile
  · intro bytes' hfile
    rw [hopens.file] at hfile
    cases hfile
    rcases hold with hsame | ⟨_, hempty⟩
    · exact .inl hsame
    · exact .inr (.inl hempty)

/-- An empty file can be begun as a database. -/
theorem FileTree.Opens.begin (h : root.Opens path []) : ∃ root',
    root.write path (Journal.encode []) = .ok root' ∧ root'.Opens path (Journal.encode []) ∧
      Prepares path root root' := by
  rcases h.write (Journal.encode []) with ⟨root', hwrite, hopens, hgrows⟩
  refine ⟨root', hwrite, hopens, hgrows, ?_, ?_⟩
  · intro bytes hne hfile
    rw [h.file] at hfile
    cases hfile
    exact absurd rfl hne
  · intro bytes hfile
    rw [hopens.file] at hfile
    cases hfile
    exact .inr (.inr rfl)

/-- Files that are not empty are read as before. -/
theorem FileTree.Prepares.read {file : String} (h : Prepares path root root')
    (hread : root.read file = .ok bytes) (hne : bytes ≠ []) : root'.read file = .ok bytes := by
  by_cases hplace : Place.ofPath file = Place.ofPath path
  · rw [read_eq_ok_iff] at hread ⊢
    exact ⟨h.grows.locate hread.1, hplace ▸ h.kept hne (hplace ▸ hread.2)⟩
  · exact h.grows.read hread hplace

/-- Opening a database prepares it, and if it succeeds, the database can be opened again. -/
theorem openDatabase_spec (s : MemoryHost) (path : String) : ∃ result root,
    s.exec (openDatabase host path) = (result, s.withRoot root) ∧ Prepares path s.root root ∧
      ∀ journal, result = .ok journal → root.HoldsJournal path journal := by
  unfold openDatabase
  rcases makeParent_spec s path with ⟨made, furnished, hmake, hmakes, hparent⟩
  have hmakeParent := exec_attempt DatabaseError.directory hmake
  cases made with
  | error e => exact ⟨_, _, exec_bind_error hmakeParent, hmakes.prepares path, nofun⟩
  | ok u =>
    rw [exec_bind_ok hmakeParent]
    let t := s.withRoot furnished
    cases hopen : t.root.openFile path with
    | error e =>
      have hopenFile := exec_attempt DatabaseError.file (openFile_error hopen)
      exact ⟨_, _, exec_bind_error hopenFile, hmakes.prepares path, nofun⟩
    | ok opened =>
      rcases opened with ⟨bytes, root⟩
      rw [exec_bind_ok (exec_attempt DatabaseError.file (openFile_ok hopen))]
      rcases prepares_openFile hopen with ⟨hopens, hopened⟩
      have hprepares := (hmakes.prepares path).trans hopened
      have hparent' := hopened.grows.hasParent (hparent rfl)
      by_cases hempty : bytes = []
      · subst hempty
        let u := t.withRoot root
        have hopens' : u.root.Opens path [] := hopens
        rcases hopens'.begin with ⟨begun, hwrite, hbegun, hbegins⟩
        have hbegin := exec_attempt DatabaseError.file (write_ok hwrite)
        refine ⟨_, _, exec_bind_ok hbegin, hprepares.trans hbegins, fun journal hjournal => ?_⟩
        cases hjournal
        exact ⟨hbegins.grows.hasParent hparent', _, hbegun, Journal.decode_encode []⟩
      · simp only [if_neg hempty]
        cases hdecode : Journal.decode bytes with
        | none => exact ⟨_, _, exec_throw _, hprepares, nofun⟩
        | some journal =>
          refine ⟨_, _, exec_pure _, hprepares, fun journal' hjournal => ?_⟩
          cases hjournal
          exact ⟨hparent', bytes, hopens, hdecode⟩

/-- A database that can be opened is opened without any change. -/
theorem openDatabase_of_holds (h : s.root.HoldsJournal path journal) :
    s.exec (openDatabase host path) = (.ok journal, s) := by
  rcases h.opens with ⟨bytes, hopens, hdecode⟩
  unfold openDatabase
  rw [exec_bind_ok (exec_attempt DatabaseError.directory (makeParent_of_hasParent h.parent)),
    exec_bind_ok (exec_attempt DatabaseError.file (openFile_ok hopens.openFile))]
  simp only [if_neg (ne_nil_of_decode hdecode), hdecode]
  rfl

/-- Another journal can be written to a database that can be opened. -/
theorem FileTree.HoldsJournal.write (h : root.HoldsJournal path journal)
    (journal' : List Transaction) : ∃ root', root.write path (Journal.encode journal') = .ok root' ∧
      root'.HoldsJournal path journal' ∧ Grows (Place.ofPath path) root root' ∧
      root'.node? (Place.ofPath path) = some (.file (Journal.encode journal')) := by
  rcases h.opens with ⟨bytes, hopens, _⟩
  rcases hopens.write (Journal.encode journal') with ⟨root', hwrite, hopens', hgrows⟩
  exact ⟨root', hwrite, ⟨hgrows.hasParent h.parent, _, hopens', Journal.decode_encode journal'⟩,
    hgrows, hopens'.file⟩

/-! ## 3. Signing keys -/

def FileTree.HoldsKey (root : FileTree) (path : String) (seed : Ed25519.Seed) : Prop :=
  ∃ bytes text, root.read path = .ok bytes ∧ textOfBytes bytes = .ok text ∧
    Ed25519.Seed.ofText text = .ok seed

def issuer (config : Config) (seed : Ed25519.Seed) : TokenAuthority ed25519 where
  lifetime := config.security.blockTokenExpiry
  signingKey := some seed

def MemoryHost.hostWith (fresh : StateM MemoryHost Ed25519.Seed) : Host (StateM MemoryHost) :=
  { host with freshSeed := fresh }

variable {seed : Ed25519.Seed} {config : Config} {fresh : StateM MemoryHost Ed25519.Seed}

theorem textOfBytes_nil : textOfBytes [] = .ok "" := by decide +kernel

/-- No seed is empty. -/
theorem bytes_ne_nil {text : String} (htext : textOfBytes bytes = .ok text)
    (hseed : Ed25519.Seed.ofText text = .ok seed) : bytes ≠ [] := by
  rintro rfl
  have hnone : (Ed25519.Seed.ofText "").toOption = none := by decide +kernel
  rw [textOfBytes_nil] at htext
  cases htext
  rw [hseed] at hnone
  cases hnone

/-- A key file is read as text, and the text as a seed. -/
theorem loadSigningKey_of_isPresent (h : s.root.isPresent path = true) :
    s.exec (loadSigningKey (hostWith fresh) path) =
      ((((s.root.read path).bind textOfBytes).mapError (.readingKey path)).bind fun text =>
        (Ed25519.Seed.ofText text).mapError .token, s) := by
  have hpresent : s.exec (liftM ((hostWith fresh).isPresent path) :
      ExceptT Failure (StateM MemoryHost) Bool) = (.ok true, s) := by
    rw [exec_lift]
    show (Except.ok (s.root.isPresent path), s) = _
    rw [h]
  have hfile : (do return (← (hostWith fresh).read path).bind textOfBytes :
      StateM MemoryHost _) s = ((s.root.read path).bind textOfBytes, s) := rfl
  have hattempt := exec_attempt (Failure.readingKey path) hfile
  unfold loadSigningKey
  rw [exec_bind_ok hpresent]
  simp only [if_true]
  -- how a seed is read from a text is of no account
  generalize Ed25519.Seed.ofText = ofText
  cases htext : (s.root.read path).bind textOfBytes with
  | error e =>
    rw [htext] at hattempt
    exact exec_bind_error hattempt
  | ok text =>
    rw [htext] at hattempt
    exact exec_bind_ok hattempt

theorem loadSigningKey_of_holds (h : s.root.HoldsKey path seed) :
    s.exec (loadSigningKey (hostWith fresh) path) = (.ok seed, s) := by
  rcases h with ⟨bytes, text, hread, htext, hseed⟩
  rw [loadSigningKey_of_isPresent (isPresent_of_read hread), hread]
  simp only [Except.bind, htext, Except.mapError, hseed]

theorem startAuthority_of_holds (h : s.root.HoldsKey (signingKeyFile config) seed) :
    s.exec (startAuthority host config) = (.ok (issuer config seed), s) := by
  unfold startAuthority
  have hload : s.exec (loadSigningKey host (signingKeyFile config)) = (.ok seed, s) :=
    loadSigningKey_of_holds h
  rw [exec_bind_ok hload]
  rfl

/-! ## 4. Tasks -/

variable {task : Task}

def MemoryHost.after (s : MemoryHost) (n : Nat) : MemoryHost := { s with readings := s.readings + n }

theorem MemoryHost.shows (s : MemoryHost) :
    Shows host.now (fun t => ∃ n, t = s.after n) fun time => ∃ n, time = s.clock n := by
  rintro _ ⟨n, rfl⟩
  exact ⟨⟨_, rfl⟩, n + 1, rfl⟩

def surroundings (s : MemoryHost) (config : Config) (seed : Ed25519.Seed) : Surroundings ed25519 where
  config := config
  start := s.clock s.readings
  authority := some (issuer config seed)

/-- A task that has an authority is done on the journal that was opened, and the journal after it
is written if it is another one. -/
theorem run_task {s' : MemoryHost} {n : Nat}
    (hopen : s.exec (openDatabase host config.service.databasePath) = (.ok journal, s'))
    (hkey : s'.root.HoldsKey (signingKeyFile config) seed)
    (hneeds : (config.blockTokensEnabled || task.needsAuthority) = true)
    {told : Except Failure Report} {durable : DurableStore}
    (hperform : task.perform host.now (surroundings s' config seed) (.durable (.ofJournal journal))
      (s'.after 1) = ((told, .durable durable), s'.after n))
    (hholds : s'.root.HoldsJournal config.service.databasePath journal) :
    ∃ root, s.exec (task.run host config) = (told, (s'.after n).withRoot root) ∧
      root.HoldsJournal config.service.databasePath durable.journal ∧
      Grows (Place.ofPath config.service.databasePath) s'.root root := by
  have hstart : s'.exec (liftM host.now : ExceptT Failure (StateM MemoryHost) Int64) =
      (.ok (s'.clock s'.readings), s'.after 1) := exec_lift _
  have hauthority : (s'.after 1).exec (some <$> startAuthority host config) =
      (.ok (some (issuer config seed)), s'.after 1) := by
    have hkey' : (s'.after 1).root.HoldsKey (signingKeyFile config) seed := hkey
    exact exec_map_ok (startAuthority_of_holds hkey')
  have hperform' : (s'.after 1).exec (liftM (task.perform host.now (surroundings s' config seed)
      (.durable (.ofJournal journal))) : ExceptT Failure (StateM MemoryHost) _) =
        (.ok (told, .durable durable), s'.after n) := by
    rw [exec_lift, hperform]
  have hdone (t : MemoryHost) : t.exec (ExceptT.mk (pure told)) = (told, t) := rfl
  unfold Task.run
  simp only
  rw [exec_bind_ok (exec_attempt _ hopen), exec_bind_ok hstart]
  simp only [if_pos hneeds]
  by_cases hsame : durable.journal = journal
  · refine ⟨s'.root, (exec_bind_ok hauthority).trans ((exec_bind_ok hperform').trans ?_),
      hsame ▸ hholds, .refl ..⟩
    exact (congrArg _ (if_pos hsame)).trans (hdone _)
  · rcases hholds.write durable.journal with ⟨root, hwrite, hholds', hgrows, _⟩
    refine ⟨root, (exec_bind_ok hauthority).trans ((exec_bind_ok hperform').trans ?_), hholds',
      hgrows⟩
    have hsave : host.write config.service.databasePath (Journal.encode durable.journal)
        (s'.after n) = (.ok (), (s'.after n).withRoot root) := write_ok hwrite
    refine (congrArg _ (if_neg hsame)).trans ?_
    exact (exec_bind_ok (exec_attempt _ hsave)).trans (hdone _)

/-- What is in the database is empty, or the journal of a store without committed keys. -/
def FileTree.HoldsUncommitted (root : FileTree) (path : String) : Prop :=
  ∀ bytes, root.node? (Place.ofPath path) = some (.file bytes) → bytes ≠ [] →
    ∃ journal, Journal.decode bytes = some journal ∧
      (Store.durable (.ofJournal journal)).Uncommitted

theorem FileTree.HoldsUncommitted.store (h : root.HoldsUncommitted path)
    (hholds : root.HoldsJournal path journal) :
    (Store.durable (.ofJournal journal)).Uncommitted := by
  rcases hholds.opens with ⟨bytes, hopens, hdecode⟩
  rcases h bytes hopens.file (ne_nil_of_decode hdecode) with ⟨journal', hdecode', huncommitted⟩
  rw [hdecode] at hdecode'
  cases hdecode'
  exact huncommitted

/-- Opening a database commits nothing. -/
theorem FileTree.Prepares.holdsUncommitted (h : Prepares path root root')
    (huncommitted : root.HoldsUncommitted path) : root'.HoldsUncommitted path := by
  intro bytes hfile hne
  rcases h.found hfile with hsame | hnil | hbegun
  · exact huncommitted bytes hsame hne
  · exact absurd hnil hne
  · exact ⟨[], hbegun ▸ Journal.decode_encode [], Store.uncommitted_empty⟩

theorem FileTree.Prepares.holdsKey {file : String} (h : Prepares path root root')
    (hkey : root.HoldsKey file seed) : root'.HoldsKey file seed := by
  rcases hkey with ⟨bytes, text, hread, htext, hseed⟩
  exact ⟨bytes, text, h.read hread (bytes_ne_nil htext hseed), htext, hseed⟩

/-- A task on a database without committed keys leaves one; it changes no other file, and the blocks
that it tells carry tokens that were issued at readings of the clock.  The database can be opened
from the first success on. -/
theorem exec_task (s : MemoryHost) (hkey : s.root.HoldsKey (signingKeyFile config) seed)
    (hneeds : (config.blockTokensEnabled || task.needsAuthority) = true) (hfits : task.Fits)
    (h : s.root.HoldsUncommitted config.service.databasePath) :
    ∃ told s', s.exec (task.run host config) = (told, s') ∧
      Grows (Place.ofPath config.service.databasePath) s.root s'.root ∧
      s'.root.HoldsUncommitted config.service.databasePath ∧
      ((∃ journal, s.root.HoldsJournal config.service.databasePath journal) ∨
        (∃ report, told = .ok report) →
          ∃ journal, s'.root.HoldsJournal config.service.databasePath journal) ∧
      ∀ report, told = .ok report → ∃ durable,
        task.Performed (surroundings s config seed) (fun time => ∃ n, time = s.clock n) told
          durable := by
  rcases openDatabase_spec s config.service.databasePath with
    ⟨opened, root, hopen, hprepares, hholds⟩
  have huncommitted := hprepares.holdsUncommitted h
  cases opened with
  | error e =>
    have hexec : s.exec (task.run host config) = (.error _, s.withRoot root) :=
      exec_bind_error (exec_attempt (Failure.openingDatabase _) hopen)
    refine ⟨_, _, hexec, hprepares.grows, huncommitted, ?_, fun _ hreport => by cases hreport⟩
    rintro (⟨journal, hjournal⟩ | ⟨report, hreport⟩)
    · -- it would have been opened
      rw [openDatabase_of_holds hjournal] at hopen
      cases hopen
    · cases hreport
  | ok journal =>
    let t := s.withRoot root
    have hjournal : t.root.HoldsJournal config.service.databasePath journal := hholds journal rfl
    have hstore := huncommitted.store hjournal
    rcases Task.perform_spec (surroundings t config seed) t.shows ⟨_, rfl⟩ ⟨1, rfl⟩ hfits
      hstore with ⟨told, durable, _, hperform, ⟨n, rfl⟩, hperformed⟩
    rcases run_task hopen (hprepares.holdsKey hkey) hneeds hperform hjournal with
      ⟨root', hexec, hjournal', hgrows⟩
    refine ⟨_, _, hexec, hprepares.grows.trans hgrows, ?_, fun _ => ⟨_, hjournal'⟩,
      fun report _ => ⟨durable, hperformed⟩⟩
    intro bytes hfile hne
    rcases hjournal'.opens with ⟨bytes', hopens, hdecode⟩
    have hsame := hopens.file.symm.trans hfile
    cases hsame
    have hreopen : DurableStore.ofJournal durable.journal = durable := durable.reopen_eq
    exact ⟨_, hdecode, hreopen.symm ▸ hperformed.uncommitted⟩

/-! ## 5. Configurations -/

/-- The configuration that a file gives, and the warning if it gives none. -/
def FileTree.configIn (root : FileTree) (path : String) : Config × Option ConfigWarning :=
  if root.isPresent path then
    match (root.read path).bind textOfBytes with
    | .error error => ({}, some (.unreadable error))
    | .ok text =>
      match Config.ofToml? text with
      | none => ({}, some .malformed)
      | some config => (config, none)
  else ({}, none)

theorem loadConfig_eq (s : MemoryHost) (path : String) :
    loadConfig host path s = (s.root.configIn path, s) := by
  have hpresent : host.isPresent path s = (s.root.isPresent path, s) := rfl
  have hread : host.read path s = (s.root.read path, s) := rfl
  unfold loadConfig FileTree.configIn
  rw [run_bind hpresent]
  cases s.root.isPresent path with
  | false => rfl
  | true =>
    refine (run_bind hread).trans ?_
    cases (s.root.read path).bind textOfBytes with
    | error e => rfl
    | ok text =>
      dsimp only
      cases Config.ofToml? text <;> rfl

def MemoryHost.configFor (s : MemoryHost) (settings : GeneralSettings) : Config :=
  settings.apply (s.root.configIn settings.configPath).1

theorem run_invocation (s : MemoryHost) (invocation : Invocation) :
    (invocation.run host : StateM MemoryHost Completion) s =
      let run := s.exec (invocation.task.run host (s.configFor invocation.settings))
      (⟨(s.root.configIn invocation.settings.configPath).2, run.1⟩, run.2) := by
  unfold Invocation.run
  exact run_bind (loadConfig_eq s invocation.settings.configPath)

/-- A configuration with tokens is one that a file gives. -/
theorem FileTree.exists_read (h : (root.configIn path).1.blockTokensEnabled = true) :
    ∃ bytes text config, root.read path = .ok bytes ∧ textOfBytes bytes = .ok text ∧
      Config.ofToml? text = some config ∧ root.configIn path = (config, none) := by
  unfold configIn at h ⊢
  split at h
  · next hpresent =>
    cases hread : root.read path with
    | error e => rw [hread] at h; cases h
    | ok bytes =>
      rw [hread] at h
      cases htext : textOfBytes bytes with
      | error e => simp [Except.bind, htext] at h; cases h
      | ok text =>
        cases hconfig : Config.ofToml? text with
        | none => simp [Except.bind, htext, hconfig] at h; cases h
        | some config =>
          refine ⟨bytes, text, config, rfl, htext, hconfig, ?_⟩
          simp [hpresent, Except.bind, htext, hconfig]
  · cases h

/-- A configuration with tokens is found again if its file is kept. -/
theorem FileTree.Grows.configIn (h : Grows place root root')
    (henabled : (root.configIn path).1.blockTokensEnabled = true)
    (hplace : Place.ofPath path ≠ place) : root'.configIn path = root.configIn path := by
  rcases exists_read henabled with ⟨bytes, text, config, hread, htext, hconfig, hfound⟩
  have hread' := h.read hread hplace
  rw [hfound]
  unfold FileTree.configIn
  simp [isPresent_of_read hread', hread', Except.bind, htext, hconfig]

/-! ## 6. Files that are no database -/

namespace FileTree.HoldsUncommitted

variable {file : String} (h : root.HoldsUncommitted path)
include h

/-- A text is elsewhere than the database. -/
theorem ofPath_ne {text : String} (hread : root.read file = .ok bytes)
    (htext : textOfBytes bytes = .ok text) (hne : bytes ≠ []) :
    Place.ofPath file ≠ Place.ofPath path := by
  intro hplace
  have hfile := (read_eq_ok_iff.1 hread).2
  rw [hplace] at hfile
  rcases h bytes hfile hne with ⟨journal, hdecode, _⟩
  rw [decode_eq_none htext] at hdecode
  cases hdecode

theorem key_ne (hkey : root.HoldsKey file seed) : Place.ofPath file ≠ Place.ofPath path := by
  rcases hkey with ⟨bytes, text, hread, htext, hseed⟩
  exact h.ofPath_ne hread htext (bytes_ne_nil htext hseed)

theorem config_ne (henabled : (root.configIn file).1.blockTokensEnabled = true) :
    Place.ofPath file ≠ Place.ofPath path := by
  rcases exists_read henabled with ⟨bytes, text, config, hread, htext, hconfig, hfound⟩
  apply h.ofPath_ne hread htext
  rintro rfl
  have hdefault : Config.ofToml? "" = some {} := by decide +kernel
  rw [textOfBytes_nil] at htext
  cases htext
  rw [hdefault] at hconfig
  cases hconfig
  rw [hfound] at henabled
  cases henabled

end FileTree.HoldsUncommitted

end ObjectMeta.Command
