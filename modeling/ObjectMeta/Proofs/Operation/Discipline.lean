import ObjectMeta.Operation.World
import ObjectMeta.Proofs.Lock.Guards
import ObjectMeta.Proofs.Operation.Trace
import ObjectMeta.Proofs.Record.Layout

/-!
# The locking discipline

Entries of the tables belong to locks: a volume and a bucket to their own, an open key to the lock
of its bucket or, with that lock shared, to its own (`Covers`).  A disciplined program writes only
what it covers and gives back what it took (`Disciplined`).  A program that gathers before it
settles (`Gathers`, `Settled`) reads nothing that could change before its decisive action, after
which its result no longer depends on the tables and it has at most one open key left to write.
-/

namespace ObjectMeta

/-! ## 1. Covered entries -/

/-- The guards in hand allow what the mode allows on a path. -/
def Holds (held : List LockGuard) (path : ResourcePath) (mode : LockMode) : Prop :=
  ⟨path, .write⟩ ∈ held ∨ mode = .read ∧ ⟨path, .read⟩ ∈ held

/-- The guards in hand keep an entry from being changed by others and, with mode `write`, from being
looked at by others. -/
inductive Covers (held : List LockGuard) (mode : LockMode) : Table → Bytes → Prop where
  | volume {v : String} {key : Bytes} (hold : Holds held (.volume v) mode)
      (eq : key = (ResourcePath.volume v).tableKey) : Covers held mode .volumes key
  | bucket {v b : String} {key : Bytes} (name : ValidName v)
      (hold : Holds held (.bucket v b) mode)
      (eq : key = (ResourcePath.bucket v b).tableKey) : Covers held mode .buckets key
  | keysOfBucket {v b k : String} {key : Bytes} (name : ValidName v) (name' : ValidName b)
      (hold : Holds held (.bucket v b) .write)
      (eq : key = (ResourcePath.key v b k).tableKey) : Covers held mode .openKeys key
  | openKey {v b k : String} {key : Bytes} (name : ValidName v) (name' : ValidName b)
      (shared : Holds held (.bucket v b) .read) (hold : Holds held (.key v b k) mode)
      (eq : key = (ResourcePath.key v b k).tableKey) : Covers held mode .openKeys key

variable {held held' : List LockGuard} {path : ResourcePath} {mode : LockMode} {table : Table}
  {key : Bytes}

theorem Holds.mem (h : Holds held path mode) : ∃ m, ⟨path, m⟩ ∈ held := by
  obtain h | ⟨-, h⟩ := h
  · exact ⟨_, h⟩
  · exact ⟨_, h⟩

theorem Holds.of_write (h : Holds held path .write) : ⟨path, .write⟩ ∈ held := by
  obtain h | ⟨h, -⟩ := h
  · exact h
  · cases h

theorem Holds.mono (h : Holds held path mode) (hs : ∀ g ∈ held, g ∈ held') :
    Holds held' path mode :=
  h.imp (hs _) fun h => ⟨h.1, hs _ h.2⟩

theorem Covers.mono (h : Covers held mode table key) (hs : ∀ g ∈ held, g ∈ held') :
    Covers held' mode table key := by
  cases h with
  | volume hold eq => exact .volume (hold.mono hs) eq
  | bucket name hold eq => exact .bucket name (hold.mono hs) eq
  | keysOfBucket name name' hold eq => exact .keysOfBucket name name' (hold.mono hs) eq
  | openKey name name' shared hold eq =>
    exact .openKey name name' (shared.mono hs) (hold.mono hs) eq

theorem Holds.to_read (h : Holds held path .write) : Holds held path .read := .inl h.of_write

theorem Covers.to_read (h : Covers held .write table key) : Covers held .read table key := by
  cases h with
  | volume hold eq => exact .volume hold.to_read eq
  | bucket name hold eq => exact .bucket name hold.to_read eq
  | keysOfBucket name name' hold eq => exact .keysOfBucket name name' hold eq
  | openKey name name' shared hold eq => exact .openKey name name' shared hold.to_read eq

theorem Covers.table_ne_keys (h : Covers held mode table key) : table ≠ .keys := by
  cases h <;> decide

/-- Whoever covers an entry for writing has a guard that conflicts with one of whoever else covers
it. -/
theorem Covers.conflict (h : Covers held .write table key) (h' : Covers held' mode table key) :
    ∃ path m, ⟨path, .write⟩ ∈ held ∧ ⟨path, m⟩ ∈ held' ∨
      ⟨path, .write⟩ ∈ held' ∧ ⟨path, m⟩ ∈ held := by
  cases h with
  | volume hold eq =>
    obtain ⟨hold', eq'⟩ := h'
    rw [eq, ResourcePath.tableKey_inj] at eq'
    obtain ⟨m, hm⟩ := hold'.mem
    exact ⟨_, m, .inl ⟨hold.of_write, eq' ▸ hm⟩⟩
  | bucket name hold eq =>
    cases h' with
    | bucket _ hold' eq' =>
      rw [eq, ResourcePath.tableKey_inj] at eq'
      obtain ⟨m, hm⟩ := hold'.mem
      exact ⟨_, m, .inl ⟨hold.of_write, eq' ▸ hm⟩⟩
  -- The lock of a bucket is shared by whoever works on one of its keys.
  | keysOfBucket name name' hold eq =>
    cases h' with
    | keysOfBucket namew namew' hold' eq' =>
      rw [eq, ResourcePath.tableKey_inj, ResourcePath.key_inj name name' namew namew'] at eq'
      obtain ⟨rfl, rfl, -⟩ := eq'
      exact ⟨_, _, .inl ⟨hold.of_write, hold'.of_write⟩⟩
    | openKey namew namew' shared hold' eq' =>
      rw [eq, ResourcePath.tableKey_inj, ResourcePath.key_inj name name' namew namew'] at eq'
      obtain ⟨rfl, rfl, -⟩ := eq'
      obtain ⟨m, hm⟩ := shared.mem
      exact ⟨_, m, .inl ⟨hold.of_write, hm⟩⟩
  | openKey name name' shared hold eq =>
    cases h' with
    | keysOfBucket namew namew' hold' eq' =>
      rw [eq, ResourcePath.tableKey_inj, ResourcePath.key_inj name name' namew namew'] at eq'
      obtain ⟨rfl, rfl, -⟩ := eq'
      obtain ⟨m, hm⟩ := shared.mem
      exact ⟨_, m, .inr ⟨hold'.of_write, hm⟩⟩
    | openKey namew namew' shared' hold' eq' =>
      rw [eq, ResourcePath.tableKey_inj, ResourcePath.key_inj name name' namew namew'] at eq'
      obtain ⟨rfl, rfl, rfl⟩ := eq'
      obtain ⟨m, hm⟩ := hold'.mem
      exact ⟨_, m, .inl ⟨hold.of_write, hm⟩⟩

/-- An entry that one thread covers for writing is covered by no other. -/
theorem LockTable.Tracks.not_covers {τ : Type} [DecidableEq τ] {locks : LockTable τ}
    {held : τ → List LockGuard} (h : locks.Tracks held) {t t' : τ} (ht : t ≠ t')
    (hw : Covers (held t) .write table key) : ¬Covers (held t') mode table key := by
  intro hc
  obtain ⟨path, m, ⟨hp, hp'⟩ | ⟨hp, hp'⟩⟩ := hw.conflict hc
  · exact h.compatible ht hp hp'
  · exact h.compatible ht.symm hp hp'

/-! ## 2. Disciplined programs -/

/-- An entry is filed where its record says: the record of an open key names the key. -/
def Filed (table : Table) (key value : Bytes) : Prop :=
  table = .openKeys → ∀ record, Stored.decode KeyRecord value = .ok record →
    record.path.tableKey = key

theorem KeyRecord.fits_names {record : KeyRecord} (h : LawfulStored.fits record.path.text) :
    LawfulStored.fits record.volume ∧ LawfulStored.fits record.bucket ∧
      LawfulStored.fits record.key := by
  -- the text of the path holds the names, so it is longer than any of them
  have hlength : (Bytes.ofText record.path.text).length < 256 ^ 8 := h
  simp only [path, ResourcePath.key, Bytes.ofText_append, List.length_append] at hlength
  exact ⟨(by omega : (Bytes.ofText record.volume).length < 256 ^ 8),
    (by omega : (Bytes.ofText record.bucket).length < 256 ^ 8),
    (by omega : (Bytes.ofText record.key).length < 256 ^ 8)⟩

theorem KeyRecord.fits_of_single {record : KeyRecord} {version : LocationVersion}
    (hpath : LawfulStored.fits record.path.text) (hversions : record.versions = [version])
    (hlength : version.locations.length < 256 ^ 8)
    (htokens : ∀ location ∈ version.locations, LawfulStored.fits location) :
    LawfulStored.fits record := by
  obtain ⟨hvol, hbucket, hkey⟩ := record.fits_names hpath
  refine ⟨hvol, hbucket, hkey, ?_⟩
  rw [hversions]
  refine ⟨(by decide : 1 < 256 ^ 8), fun v hv => ?_⟩
  rw [List.mem_singleton.1 hv]
  exact ⟨hlength, htokens⟩

/-- What a record is read back as keeps its path, even where blocks or tokens were too many. -/
theorem filed_encode (record : KeyRecord) (h : LawfulStored.fits record.volume ∧
    LawfulStored.fits record.bucket ∧ LawfulStored.fits record.key) :
    Filed .openKeys record.path.tableKey (Stored.encode record) := by
  intro _ found hfound
  obtain ⟨hvol, hbucket, hkey⟩ := Stored.names_of_decode_encode h.1 h.2.1 h.2.2 hfound
  rw [KeyRecord.path, hvol, hbucket, hkey]
  rfl

def Access.Credible : Access → Prop
  | ⟨.get table key, .ok (some value)⟩ => Filed table key value
  | _ => True

/-- A write needs a cover and is filed where its record says, and only a lock in hand can be given
back. -/
def Action.Fair (held : List LockGuard) : Action → Prop
  | release path mode => ⟨path, mode⟩ ∈ held
  | put table key value => Covers held .write table key ∧ Filed table key value
  | delete .. => False
  | _ => True

def Action.Files : Action → Prop
  | put table key value => Filed table key value
  | _ => True

theorem Action.Fair.files {action : Action} (h : action.Fair held) : action.Files := by
  cases action with
  | put table key value => exact h.2
  | _ => trivial

namespace Program

variable {α : Type}

/-- Every action from here on is fair, and no lock is left in the end. -/
def Disciplined : Trace → Program α → Prop :=
  Always Access.Credible (fun trace action => action.Fair trace.held) fun trace _ => trace.held = []

@[simp] theorem disciplined_done {trace : Trace} {value : α} :
    (done value).Disciplined trace ↔ trace.held = [] := Iff.rfl

@[simp] theorem disciplined_step {trace : Trace} {action : Action}
    {next : action.Answer → Program α} :
    (step action next).Disciplined trace ↔ action.Fair trace.held ∧
      ∀ answer, (Access.mk action answer).Credible →
        (next answer).Disciplined (trace ++ [⟨action, answer⟩]) := Iff.rfl

/-! ## 3. Gathering and settling -/

/-- Only the surroundings can still change the result, and at most one open key is still to be
written, before any lock is given back. -/
def Settled : Bool → Program α → Prop
  | _, done _ => True
  | _, step (.release ..) next => (next ()).Settled false
  | mayPut, step .now next => ∀ time : Int64, (next time).Settled mayPut
  | mayPut, step (.mint owner block maxLength) next =>
    ∀ answer : (Action.mint owner block maxLength).Answer, (next answer).Settled mayPut
  | mayPut, step (.put table key value) next =>
    mayPut = true ∧ table = .openKeys ∧
      ∀ answer : (Action.put table key value).Answer, (next answer).Settled false
  | _, step _ _ => False

end Program

def Action.Gathering (held : List LockGuard) : Action → Prop
  | acquire .. | now | allocate _ => True
  | get table key => table = .openKeys → Covers held .read table key
  | contains table _ | put table _ _ => table ≠ .openKeys
  | _ => False

/-- What the program learned cannot change while it holds its locks: the entry is covered, or never
changes again. -/
def Access.Persists (held : List LockGuard) : Access → Prop
  | ⟨.acquire .., _⟩ | ⟨.now, _⟩ => True
  | ⟨.get table key, .ok _⟩ => table = .keys ∨ Covers held .read table key
  | ⟨.contains table key, .ok found⟩ =>
    (table = .volumes ∧ found = true) ∨ Covers held .read table key
  | _ => False

def Access.Stands (store : Store) : Access → Prop
  | ⟨.get table key, .ok value⟩ => store.get table key = value
  | ⟨.contains table key, .ok found⟩ => store.contains table key = found
  | _ => True

namespace Program

variable {α : Type}

/-- Whatever the answers are, the program keeps learning things that last until it settles. -/
def Gathers : Trace → Program α → Prop
  | _, done _ => False
  | trace, step action next => action.Gathering trace.held ∧
    ∀ answer, (next answer).Settled true ∨
      (Access.mk action answer).Persists trace.held ∧
        (next answer).Gathers (trace ++ [⟨action, answer⟩])

end Program

theorem Access.Persists.mono {access : Access} (h : access.Persists held)
    (hs : ∀ g ∈ held, g ∈ held') : access.Persists held' := by
  obtain ⟨action, answer⟩ := access
  cases action with
  | acquire | now => trivial
  | get table key =>
    cases answer with
    | error e => exact h.elim
    | ok value => exact h.imp id fun hc => hc.mono hs
  | contains table key =>
    cases answer with
    | error e => exact h.elim
    | ok found => exact h.imp id fun hc => hc.mono hs
  | _ => exact h.elim

end ObjectMeta
