import ObjectMeta.Command.FileTree

/-!
# What becomes of files

A path that can be followed leads to the place that its names spell, whatever else is in the tree
(`Place.ofPath`).  So it can still be followed when only directories were made, and when only one
file was written, every file elsewhere is read as before (`FileTree.Grows`).  A file that was
opened once is opened again without any change to the tree (`FileTree.Opens`).
-/

namespace ObjectMeta.Command

/-! ## 1. Places that paths spell -/

def Place.follow (place : Place) (name : String) : Place :=
  if name = "" ∨ name = "." then place
  else if name = ".." then place.dropLast
  else place ++ [name]

/-- The place that a path leads to wherever it can be followed. -/
def Place.ofPath (path : String) : Place := (Path.names path).foldl Place.follow []

inductive Node where
  | file (bytes : Bytes)
  | directory
  deriving DecidableEq, Repr

namespace FileTree

def top : FileTree → Node
  | file bytes => .file bytes
  | directory _ => .directory

def node? (tree : FileTree) (place : Place) : Option Node := (tree.at? place).map top

variable {tree tree' tree'' node : FileTree} {place next p q : Place} {name path : String}
  {names : List String} {bytes : Bytes} {made : Bool}

theorem node?_file (bytes : Bytes) (name : String) (rest : Place) :
    (file bytes).node? (name :: rest) = none := rfl

theorem node?_directory (entries : Assoc String FileTree) (name : String) (rest : Place) :
    (directory entries).node? (name :: rest) = (entries.get? name).bind (·.node? rest) := by
  simp only [node?, at?, Option.map_bind]
  rfl

theorem node?_eq_file_iff : tree.node? p = some (.file bytes) ↔ tree.at? p = some (file bytes) := by
  unfold node?
  cases tree.at? p with
  | none => simp
  | some found => cases found <;> simp [top]

theorem node?_eq_directory_iff :
    tree.node? p = some .directory ↔ ∃ entries, tree.at? p = some (directory entries) := by
  unfold node?
  cases tree.at? p with
  | none => simp
  | some found => cases found <;> simp [top]

/-- There is nothing inside what is no directory. -/
theorem node?_append_cons (h : tree.node? place ≠ some .directory) (name : String)
    (rest : Place) : tree.node? (place ++ name :: rest) = none := by
  induction place generalizing tree with
  | nil =>
    cases tree with
    | file bytes => rfl
    | directory entries => exact absurd rfl h
  | cons parent below ih =>
    cases tree with
    | file bytes => rfl
    | directory entries =>
      rw [node?_directory] at h
      rw [List.cons_append, node?_directory]
      cases hget : entries.get? parent with
      | none => rfl
      | some found =>
        rw [hget] at h
        exact ih h

/-- There is a directory above everything. -/
theorem node?_dropLast (h : tree.node? place = some .directory) :
    tree.node? place.dropLast = some .directory := by
  cases hplace : place.reverse with
  | nil =>
    rw [List.reverse_eq_nil_iff] at hplace
    subst hplace
    exact h
  | cons name above =>
    rw [List.reverse_eq_cons_iff] at hplace
    subst hplace
    rw [List.dropLast_concat]
    by_cases hparent : tree.node? above.reverse = some .directory
    · exact hparent
    · rw [node?_append_cons hparent] at h
      cases h

/-- A path can be followed from a directory by a name that is not too long. -/
theorem step_eq_ok_iff : tree.step place name = .ok next ↔
    tree.node? place = some .directory ∧ name.utf8ByteSize ≤ nameLimit ∧
      place.follow name = next := by
  have hdots : ∀ name ∈ ["", ".", ".."], name.utf8ByteSize ≤ nameLimit := by decide
  unfold step node? Place.follow
  cases tree.at? place with
  | none => simp
  | some tree =>
    cases tree with
    | file bytes => simp [top]
    | directory entries =>
      by_cases hname : name = "" ∨ name = "."
      · have hshort := hdots name (by rcases hname with rfl | rfl <;> decide)
        simp [top, hname, hshort]
      · by_cases hup : name = ".."
        · simpa [top, hup] using fun _ => hdots ".." (by decide)
        · by_cases hlong : nameLimit < name.utf8ByteSize
          · simp [top, hname, hup, hlong, Nat.not_le.2 hlong]
          · simp [top, hname, hup, hlong, Nat.not_lt.1 hlong]

/-- What is not a directory is reached by its own name. -/
theorem step_fresh (h : tree.step place name = .ok next)
    (hnext : tree.node? next ≠ some .directory) :
    tree.node? place = some .directory ∧ next = place ++ [name] := by
  rcases step_eq_ok_iff.1 h with ⟨hplace, _, hfollow⟩
  unfold Place.follow at hfollow
  split at hfollow
  · rw [← hfollow] at hnext
    exact absurd hplace hnext
  · split at hfollow
    · rw [← hfollow] at hnext
      exact absurd (node?_dropLast hplace) hnext
    · exact ⟨hplace, hfollow.symm⟩

theorem foldlM_step_eq (h : names.foldlM tree.step place = .ok next) :
    names.foldl Place.follow place = next := by
  induction names generalizing place with
  | nil => exact Except.ok.inj h
  | cons name rest ih =>
    rw [List.foldlM_cons] at h
    cases hstep : tree.step place name with
    | error e => rw [hstep] at h; cases h
    | ok mid =>
      rw [hstep] at h
      rw [List.foldl_cons, (step_eq_ok_iff.1 hstep).2.2]
      exact ih h

/-! ## 2. One file or directory more -/

/-- Setting an entry of a directory changes what is there alone. -/
theorem node?_set (entries : Assoc String FileTree) (name : String) (node : FileTree)
    (name' : String) (rest : Place) :
    (directory (entries.set name node)).node? (name' :: rest) =
      if name = name' then node.node? rest else (directory entries).node? (name' :: rest) := by
  rw [node?_directory, node?_directory, Assoc.get?_set]
  split <;> rfl

/-- Putting something without contents into a directory changes what is at its place alone, unless
it takes the place of another directory. -/
theorem node?_put (hplace : tree.node? place = some .directory)
    (hold : tree.node? (place ++ [name]) ≠ some .directory)
    (hnode : ∀ name rest, node.node? (name :: rest) = none) (p : Place) :
    (tree.put (place ++ [name]) node).node? p =
      if p = place ++ [name] then some node.top else tree.node? p := by
  induction place generalizing tree p with
  | nil =>
    cases tree with
    | file bytes => cases hplace
    | directory entries =>
      have hput : (directory entries).put ([] ++ [name]) node =
          directory (entries.set name node) := by simp [put]
      rw [hput]
      cases p with
      | nil => rfl
      | cons name' rest =>
        rw [node?_set]
        by_cases hname : name = name'
        · subst hname
          rw [if_pos rfl]
          cases rest with
          | nil => simp [node?, at?]
          | cons name' rest =>
            -- what was there before was a file or nothing
            have hnone : (directory entries).node? (name :: name' :: rest) = none :=
              node?_append_cons hold name' rest
            simp [hnode, hnone]
        · rw [if_neg hname, if_neg (by simp [Ne.symm hname])]
  | cons parent above ih =>
    cases tree with
    | file bytes => cases hplace
    | directory entries =>
      rw [node?_directory] at hplace
      rw [List.cons_append, node?_directory] at hold
      cases hget : entries.get? parent with
      | none => rw [hget] at hplace; cases hplace
      | some below =>
        rw [hget] at hplace hold
        rw [List.cons_append, put, hget, Option.getD_some]
        cases p with
        | nil => rfl
        | cons name' rest =>
          rw [node?_set]
          by_cases hname : parent = name'
          · subst hname
            rw [if_pos rfl, node?_directory, hget]
            simpa using ih hplace hold rest
          · rw [if_neg hname, if_neg (by simp [Ne.symm hname])]

/-- What is reached by names and is no directory is in one. -/
theorem exists_parent (h : names.foldlM tree.step place = .ok next) (hnames : names ≠ [])
    (hnext : tree.node? next ≠ some .directory) :
    ∃ parent name, next = parent ++ [name] ∧ tree.node? parent = some .directory := by
  rw [← List.dropLast_concat_getLast hnames, List.foldlM_append] at h
  cases hway : names.dropLast.foldlM tree.step place with
  | error e => rw [hway] at h; cases h
  | ok parent =>
    rw [hway] at h
    have hstep : tree.step parent (names.getLast hnames) = .ok next := by
      rw [← h]
      exact (bind_pure _).symm
    rcases step_fresh hstep hnext with ⟨hparent, hlast⟩
    exact ⟨parent, _, hlast, hparent⟩

/-! ## 3. Paths -/

theorem names_eq (h : FileTree.names path = .ok names) : names = Path.names path := by
  unfold FileTree.names at h
  split at h
  · cases h
  · split at h
    · cases h
    · split at h
      · cases h
      · exact (Except.ok.inj h).symm

theorem names_ne_nil (path : String) : Path.names path ≠ [] := by
  have hsplit : ∀ cs, Path.splitSlashes cs ≠ [] := by
    intro cs
    cases cs with
    | nil => exact List.cons_ne_nil _ _
    | cons c rest =>
      unfold Path.splitSlashes
      split <;> exact List.cons_ne_nil _ _
  unfold Path.names
  rw [Ne, List.map_eq_nil_iff]
  exact hsplit _

theorem locate_eq_ok_iff : tree.locate path = .ok p ↔
    FileTree.names path = .ok (Path.names path) ∧
      (Path.names path).foldlM tree.step [] = .ok p := by
  unfold locate
  cases hnames : FileTree.names path with
  | error e => simp [bind, Except.bind]
  | ok names =>
    rw [names_eq hnames]
    simp [bind, Except.bind]

theorem locateFile_eq_ok_iff : tree.locateFile path = .ok p ↔
    FileTree.names path = .ok (Path.names path) ∧ (Path.names path).getLast? ≠ some "" ∧
      (Path.names path).foldlM tree.step [] = .ok p := by
  unfold locateFile
  cases hnames : FileTree.names path with
  | error e => simp [bind, Except.bind]
  | ok names =>
    rw [names_eq hnames]
    by_cases hlast : (Path.names path).getLast? = some ""
    · simp only [bind, Except.bind, if_pos hlast]
      split <;> simp [hlast]
    · simp [bind, Except.bind, hlast]

theorem locate_eq (h : tree.locate path = .ok p) : Place.ofPath path = p :=
  foldlM_step_eq (locate_eq_ok_iff.1 h).2

theorem locateFile_eq (h : tree.locateFile path = .ok p) : Place.ofPath path = p :=
  foldlM_step_eq (locateFile_eq_ok_iff.1 h).2.2

theorem read_eq_ok_iff : tree.read path = .ok bytes ↔
    tree.locate path = .ok (Place.ofPath path) ∧
      tree.node? (Place.ofPath path) = some (.file bytes) := by
  unfold read node?
  cases hlocate : tree.locate path with
  | error e => simp [bind, Except.bind]
  | ok place =>
    rw [locate_eq hlocate]
    cases hat : tree.at? place with
    | none => simp [bind, Except.bind, hat]
    | some found => cases found <;> simp [bind, Except.bind, pure, Except.pure, hat, top]

theorem isPresent_of_read (h : tree.read path = .ok bytes) : tree.isPresent path = true := by
  rcases read_eq_ok_iff.1 h with ⟨hlocate, hfile⟩
  unfold isPresent
  rw [hlocate]
  show (tree.at? (Place.ofPath path)).isSome = true
  rw [node?_eq_file_iff.1 hfile]
  rfl

/-! ## 4. Trees that grow -/

/-- Directories stay, and so do the files elsewhere than at a place. -/
structure Grows (place : Place) (tree tree' : FileTree) : Prop where
  directory {p : Place} (h : tree.node? p = some .directory) : tree'.node? p = some .directory
  file {p : Place} {bytes : Bytes} (hp : p ≠ place) (h : tree.node? p = some (.file bytes)) :
    tree'.node? p = some (.file bytes)

namespace Grows

theorem refl (place : Place) (tree : FileTree) : Grows place tree tree := ⟨id, fun _ h => h⟩

theorem trans (h : Grows place tree tree') (h' : Grows place tree' tree'') :
    Grows place tree tree'' where
  directory hp := h'.directory (h.directory hp)
  file hp hfile := h'.file hp (h.file hp hfile)

variable (h : Grows place tree tree')
include h

theorem step (hstep : tree.step p name = .ok q) : tree'.step p name = .ok q := by
  rw [step_eq_ok_iff] at hstep ⊢
  exact ⟨h.directory hstep.1, hstep.2⟩

theorem foldlM (hway : names.foldlM tree.step p = .ok q) : names.foldlM tree'.step p = .ok q := by
  induction names generalizing p with
  | nil => exact hway
  | cons name rest ih =>
    rw [List.foldlM_cons] at hway ⊢
    cases hstep : tree.step p name with
    | error e => rw [hstep] at hway; cases hway
    | ok mid =>
      rw [hstep] at hway
      rw [h.step hstep]
      exact ih hway

theorem locate (hlocate : tree.locate path = .ok p) : tree'.locate path = .ok p := by
  rw [locate_eq_ok_iff] at hlocate ⊢
  exact ⟨hlocate.1, h.foldlM hlocate.2⟩

theorem locateFile (hlocate : tree.locateFile path = .ok p) : tree'.locateFile path = .ok p := by
  rw [locateFile_eq_ok_iff] at hlocate ⊢
  exact ⟨hlocate.1, hlocate.2.1, h.foldlM hlocate.2.2⟩

theorem read (hread : tree.read path = .ok bytes) (hpath : Place.ofPath path ≠ place) :
    tree'.read path = .ok bytes := by
  rw [read_eq_ok_iff] at hread ⊢
  exact ⟨h.locate hread.1, h.file hpath hread.2⟩

end Grows

/-! ## 5. Files that are opened and written -/

/-- A file with these bytes can be opened and written at a path. -/
structure Opens (tree : FileTree) (path : String) (bytes : Bytes) : Prop where
  located : tree.locateFile path = .ok (Place.ofPath path)
  file : tree.node? (Place.ofPath path) = some (.file bytes)

/-- A file is put where a path leads to if there is no directory, and nothing else changes. -/
theorem put_file (hlocate : tree.locateFile path = .ok place)
    (hplace : tree.node? place ≠ some .directory) (bytes : Bytes) :
    (tree.put place (file bytes)).Opens path bytes ∧
      Grows (Place.ofPath path) tree (tree.put place (file bytes)) := by
  rcases locateFile_eq_ok_iff.1 hlocate with ⟨_, _, hway⟩
  rcases exists_parent hway (names_ne_nil path) hplace with ⟨parent, name, rfl, hparent⟩
  have hnode := node?_put hparent hplace (node?_file bytes)
  have hpath := locateFile_eq hlocate
  have hgrows : Grows (Place.ofPath path) tree (tree.put (parent ++ [name]) (file bytes)) := by
    constructor
    · intro p hp
      rw [hnode, if_neg]
      · exact hp
      · intro heq
        exact hplace (heq ▸ hp)
    · intro p bytes' hp hfile
      rwa [hnode, if_neg (hpath ▸ hp)]
  refine ⟨⟨hgrows.locateFile (hpath ▸ hlocate), ?_⟩, hgrows⟩
  rw [hpath, hnode, if_pos rfl]
  rfl

/-- A file can be written where a path leads to exactly if there is no directory. -/
theorem write_eq_ok_iff : tree.write path bytes = .ok tree' ↔ ∃ place,
    tree.locateFile path = .ok place ∧ tree.node? place ≠ some .directory ∧
      tree' = tree.put place (file bytes) := by
  unfold FileTree.write
  cases hlocate : tree.locateFile path with
  | error e => simp [bind, Except.bind]
  | ok place =>
    cases hat : tree.at? place with
    | none => simp [bind, Except.bind, pure, Except.pure, node?, hat, eq_comm]
    | some found => cases found <;>
      simp [bind, Except.bind, pure, Except.pure, throw, throwThe, MonadExceptOf.throw, node?, hat,
        top, eq_comm]

/-- A file that is opened was there, or it was made and is empty. -/
theorem openFile_spec (h : tree.openFile path = .ok (bytes, tree')) :
    tree'.Opens path bytes ∧ Grows (Place.ofPath path) tree tree' ∧
      (tree.node? (Place.ofPath path) = some (.file bytes) ∨
        tree.node? (Place.ofPath path) = none ∧ bytes = []) := by
  unfold openFile at h
  cases hlocate : tree.locateFile path with
  | error e => rw [hlocate] at h; cases h
  | ok place =>
    rw [hlocate] at h
    have hpath := locateFile_eq hlocate
    cases hat : tree.at? place with
    | none =>
      simp only [bind, Except.bind, hat] at h
      cases h
      have hnone : tree.node? place = none := by simp [node?, hat]
      rcases put_file hlocate (by simp [hnone]) [] with ⟨hopens, hgrows⟩
      exact ⟨hopens, hgrows, .inr ⟨hpath ▸ hnone, rfl⟩⟩
    | some found =>
      cases found with
      | directory entries => simp [bind, Except.bind, hat] at h
      | file bytes' =>
        simp only [bind, Except.bind, hat] at h
        cases h
        have hfile : tree.node? (Place.ofPath path) = some (.file bytes) := by
          simp [node?, hpath, hat, top]
        exact ⟨⟨hpath ▸ hlocate, hfile⟩, .refl .., .inl hfile⟩

namespace Opens

variable (h : tree.Opens path bytes)
include h

theorem openFile : tree.openFile path = .ok (bytes, tree) := by
  unfold FileTree.openFile
  rw [h.located]
  simp [bind, Except.bind, pure, Except.pure, node?_eq_file_iff.1 h.file]

/-- A file that can be opened can be written. -/
theorem write (bytes' : Bytes) : ∃ tree', tree.write path bytes' = .ok tree' ∧
    tree'.Opens path bytes' ∧ Grows (Place.ofPath path) tree tree' := by
  have hplace : tree.node? (Place.ofPath path) ≠ some .directory := by simp [h.file]
  exact ⟨_, write_eq_ok_iff.2 ⟨_, h.located, hplace, rfl⟩, put_file h.located hplace bytes'⟩

theorem read : tree.read path = .ok bytes := by
  rcases locateFile_eq_ok_iff.1 h.located with ⟨hnames, _, hway⟩
  exact read_eq_ok_iff.2 ⟨locate_eq_ok_iff.2 ⟨hnames, hway⟩, h.file⟩

end Opens

/-- What was written can be read. -/
theorem opens_of_write (h : tree.write path bytes = .ok tree') : tree'.Opens path bytes := by
  obtain ⟨place, hlocate, hplace, rfl⟩ := write_eq_ok_iff.1 h
  exact (put_file hlocate hplace bytes).1

/-! ## 6. Directories that are made -/

/-- Only directories are new. -/
def Furnishes (tree tree' : FileTree) : Prop :=
  ∀ p, tree'.node? p = tree.node? p ∨ tree.node? p = none ∧ tree'.node? p = some .directory

namespace Furnishes

theorem refl (tree : FileTree) : Furnishes tree tree := fun _ => .inl rfl

theorem trans (h : Furnishes tree tree') (h' : Furnishes tree' tree'') :
    Furnishes tree tree'' := by
  intro p
  rcases h p with hp | hp
  · rcases h' p with hp' | hp'
    · exact .inl (hp'.trans hp)
    · exact .inr ⟨hp ▸ hp'.1, hp'.2⟩
  · rcases h' p with hp' | hp'
    · exact .inr ⟨hp.1, hp'.trans hp.2⟩
    · rw [hp.2] at hp'
      cases hp'.1

theorem keeps (h : Furnishes tree tree') {found : Node} (hp : tree.node? p = some found) :
    tree'.node? p = some found := by
  rcases h p with heq | hnone
  · exact heq.trans hp
  · rw [hp] at hnone
    cases hnone.1

theorem grows (h : Furnishes tree tree') (place : Place) : Grows place tree tree' :=
  ⟨h.keeps, fun _ => h.keeps⟩

theorem file (h : Furnishes tree tree') (hp : tree'.node? p = some (.file bytes)) :
    tree.node? p = some (.file bytes) := by
  rcases h p with heq | hnew
  · exact heq.symm.trans hp
  · rw [hp] at hnew
    cases hnew.2

end Furnishes

/-- Names can be followed from a place from directory to directory. -/
def Walks (tree : FileTree) : Place → List String → Prop
  | _, [] => True
  | place, name :: names => tree.step place name = .ok (place.follow name) ∧
    tree.node? (place.follow name) = some .directory ∧ tree.Walks (place.follow name) names

theorem Grows.walks (h : Grows place tree tree') (hwalks : tree.Walks p names) :
    tree'.Walks p names := by
  induction names generalizing p with
  | nil => trivial
  | cons name rest ih =>
    exact ⟨h.step hwalks.1, h.directory hwalks.2.1, ih hwalks.2.2⟩

/-- Where every directory is there, none is made. -/
theorem Walks.makeAlong (h : tree.Walks place names) :
    tree.makeAlong place made names = (.ok (), tree) := by
  induction names generalizing place with
  | nil => rfl
  | cons name rest ih =>
    rcases h with ⟨hstep, hnext, hrest⟩
    rcases node?_eq_directory_iff.1 hnext with ⟨entries, hat⟩
    unfold FileTree.makeAlong
    simp only [hstep, hat]
    exact ih hrest

/-- A directory can be made where there is nothing. -/
theorem furnishes_put (hplace : tree.node? place = some .directory)
    (hnone : tree.node? (place ++ [name]) = none) :
    Furnishes tree (tree.put (place ++ [name]) (directory ∅)) ∧
      (tree.put (place ++ [name]) (directory ∅)).node? (place ++ [name]) = some .directory := by
  have hnode (p : Place) : (tree.put (place ++ [name]) (directory ∅)).node? p =
      if p = place ++ [name] then some .directory else tree.node? p :=
    node?_put hplace (by simp [hnone]) (fun _ _ => rfl) p
  refine ⟨fun p => ?_, (hnode _).trans (if_pos rfl)⟩
  rw [hnode]
  split
  · next heq =>
    rw [heq]
    exact .inr ⟨hnone, rfl⟩
  · exact .inl rfl

/-- Making directories makes nothing else, and if it succeeds they are there. -/
theorem makeAlong_spec (tree : FileTree) (place : Place) (made : Bool) (names : List String) :
    Furnishes tree (tree.makeAlong place made names).2 ∧
      ((tree.makeAlong place made names).1 = .ok () →
        (tree.makeAlong place made names).2.Walks place names) := by
  induction names generalizing tree place made with
  | nil => exact ⟨.refl tree, fun _ => trivial⟩
  | cons name rest ih =>
    unfold makeAlong
    cases hstep : tree.step place name with
    | error e => exact ⟨.refl tree, nofun⟩
    | ok next =>
      have hfollow := (step_eq_ok_iff.1 hstep).2.2
      cases hat : tree.at? next with
      | none =>
        have hnone : tree.node? next = none := by simp [node?, hat]
        rcases step_fresh hstep (by simp [hnone]) with ⟨hplace, rfl⟩
        rcases furnishes_put hplace hnone with ⟨hput, hnext⟩
        rcases ih (tree.put (place ++ [name]) (directory ∅)) (place ++ [name]) true with
          ⟨hmakes, hwalks⟩
        have hgrows := (hput.trans hmakes).grows []
        simp only [hat]
        refine ⟨hput.trans hmakes, fun hok => ?_⟩
        rw [Walks, hfollow]
        exact ⟨hgrows.step hstep, (hmakes.grows []).directory hnext, hwalks hok⟩
      | some found =>
        cases found with
        | file bytes =>
          simp only [hat]
          exact ⟨.refl tree, nofun⟩
        | directory entries =>
          simp only [hat]
          have hnext : tree.node? next = some .directory := by simp [node?, hat, top]
          rcases ih tree next made with ⟨hmakes, hwalks⟩
          have hgrows := hmakes.grows []
          refine ⟨hmakes, fun hok => ?_⟩
          rw [Walks, hfollow]
          exact ⟨hgrows.step hstep, hgrows.directory hnext, hwalks hok⟩

/-- A path leads through directories to a directory. -/
def IsMade (tree : FileTree) (path : String) : Prop :=
  ∃ names, FileTree.names path = .ok names ∧ tree.Walks [] names

theorem Grows.isMade (h : Grows place tree tree') (hmade : tree.IsMade path) :
    tree'.IsMade path := by
  rcases hmade with ⟨names, hnames, hwalks⟩
  exact ⟨names, hnames, h.walks hwalks⟩

theorem IsMade.createDirectories (h : tree.IsMade path) :
    tree.createDirectories path = (.ok (), tree) := by
  rcases h with ⟨names, hnames, hwalks⟩
  unfold FileTree.createDirectories
  rw [hnames]
  exact hwalks.makeAlong

theorem createDirectories_spec (tree : FileTree) (path : String) :
    Furnishes tree (tree.createDirectories path).2 ∧
      ((tree.createDirectories path).1 = .ok () → (tree.createDirectories path).2.IsMade path) := by
  unfold createDirectories
  cases hnames : FileTree.names path with
  | error e => exact ⟨.refl tree, nofun⟩
  | ok names =>
    rcases makeAlong_spec tree [] false names with ⟨hmakes, hwalks⟩
    exact ⟨hmakes, fun hok => ⟨names, hnames, hwalks hok⟩⟩

end FileTree

end ObjectMeta.Command
