import ObjectMeta.Assoc
import ObjectMeta.Command.Files

/-!
# Files in memory

A tree of directories and files as a value, and what opening, writing and making do to it by path.
A path is followed name by name; the names so reached, without points and empty names, are a place
in the tree.  The working directory is the root.
-/

namespace ObjectMeta.Command

inductive FileTree where
  | file (bytes : Bytes)
  | directory (entries : Assoc String FileTree)

/-- The names on the way from the root. -/
abbrev Place := List String

namespace FileTree

instance : Inhabited FileTree := ⟨directory ∅⟩

/-! ## 1. Places -/

def at? : FileTree → Place → Option FileTree
  | tree, [] => some tree
  | file _, _ :: _ => none
  | directory entries, name :: rest => (entries.get? name).bind (·.at? rest)

/-- The tree with something at a place; directories that are missing on the way are made. -/
def put : FileTree → Place → FileTree → FileTree
  | _, [], node => node
  | file bytes, _ :: _, _ => file bytes
  | directory entries, name :: rest, node =>
    directory (entries.set name (((entries.get? name).getD default).put rest node))

def files : FileTree → List Place
  | file _ => [[]]
  | directory ⟨entries⟩ =>
    entries.attach.flatMap fun ⟨(name, node), _⟩ => node.files.map (name :: ·)
decreasing_by
  rename_i h
  have := List.sizeOf_lt_of_mem h
  simp only [directory.sizeOf_spec, Assoc.mk.sizeOf_spec, Prod.mk.sizeOf_spec] at this ⊢
  omega

/-! ## 2. Paths -/

/-- The most bytes that a name may have. -/
def nameLimit : Nat := 255

def pathLimit : Nat := 4095

def names (path : String) : Except FileError (List String) :=
  if '\x00' ∈ path.toList then .error .nulInPath
  else if path = "" then .error .notFound
  else if pathLimit < path.utf8ByteSize then .error .nameTooLong
  else .ok (Path.names path)

/-- One step along a path, from a place that has to be a directory. -/
def step (tree : FileTree) (place : Place) (name : String) : Except FileError Place :=
  match tree.at? place with
  | none => .error .notFound
  | some (file _) => .error .notADirectory
  | some (directory _) =>
    if name = "" ∨ name = "." then .ok place
    else if name = ".." then .ok place.dropLast
    else if nameLimit < name.utf8ByteSize then .error .nameTooLong
    else .ok (place ++ [name])

/-- The place that a path leads to, whether or not there is anything. -/
def locate (tree : FileTree) (path : String) : Except FileError Place := do
  (← names path).foldlM tree.step []

/-- The place of a file that is going to be written.  A path that ends in a slash names a directory,
whatever there is, if only its last name is in one. -/
def locateFile (tree : FileTree) (path : String) : Except FileError Place := do
  let names ← names path
  if names.getLast? = some "" then
    let way := (names.reverse.dropWhile (· = "")).tail.reverse
    let _ ← (way ++ ["."]).foldlM tree.step []
    throw .isADirectory
  else names.foldlM tree.step []

/-! ## 3. Actions -/

def isPresent (tree : FileTree) (path : String) : Bool :=
  ((tree.locate path).toOption.bind tree.at?).isSome

def read (tree : FileTree) (path : String) : Except FileError Bytes := do
  match tree.at? (← tree.locate path) with
  | none => throw .notFound
  | some (directory _) => throw .isADirectory
  | some (file bytes) => return bytes

/-- The bytes of a file that is going to be written, and the tree with that file in it. -/
def openFile (tree : FileTree) (path : String) : Except FileError (Bytes × FileTree) := do
  let place ← tree.locateFile path
  match tree.at? place with
  | none => return ([], tree.put place (file []))
  | some (directory _) => throw .isADirectory
  | some (file bytes) => return (bytes, tree)

def write (tree : FileTree) (path : String) (bytes : Bytes) : Except FileError FileTree := do
  let place ← tree.locateFile path
  match tree.at? place with
  | some (directory _) => throw .isADirectory
  | none | some (file _) => return tree.put place (file bytes)

/-- Makes the directories along names that are missing, from a place on; `made` says that one was
made before.  Those made before an error stay.  A file in the way is no directory to go into, and
once a directory was made it exists where the next one should be. -/
def makeAlong (tree : FileTree) (place : Place) (made : Bool) :
    List String → Except FileError Unit × FileTree
  | [] => (.ok (), tree)
  | name :: names =>
    match tree.step place name with
    | .error error => (.error error, tree)
    | .ok next =>
      match tree.at? next with
      | none => makeAlong (tree.put next (directory ∅)) next true names
      | some (directory _) => makeAlong tree next made names
      | some (file _) =>
        (.error (if made ∨ names = [] then .alreadyExists else .notADirectory), tree)

def createDirectories (tree : FileTree) (path : String) : Except FileError Unit × FileTree :=
  match names path with
  | .error error => (.error error, tree)
  | .ok names => makeAlong tree [] false names

end FileTree

end ObjectMeta.Command
