import ObjectMeta.Command.FileTree
import ObjectMeta.Command.Run

/-!
# A machine in memory

Files, a clock and a source of seeds as a value, so that whole series of calls can be run, and
reasoned about, without a real machine.  The clock may say something else at every reading, and
every seed is another one.
-/

namespace ObjectMeta.Command

structure MemoryHost where
  /-- What is below the root. -/
  root : FileTree := .directory ∅
  /-- What the clock says at each reading, by default 20 milliseconds after the one before. -/
  clock : Nat → Int64 := fun n => 1800000000000 + 20 * Int64.ofNat n
  /-- How often the clock was read. -/
  readings : Nat := 0
  /-- How many seeds were made. -/
  seeds : Nat := 0

namespace MemoryHost

def withRoot (s : MemoryHost) (root : FileTree) : MemoryHost := { s with root }

def host : Host (StateM MemoryHost) where
  isPresent path := fun s => (s.root.isPresent path, s)
  read path := fun s => (s.root.read path, s)
  openFile path := fun s =>
    match s.root.openFile path with
    | .ok (bytes, root) => (.ok bytes, s.withRoot root)
    | .error error => (.error error, s)
  write path bytes := fun s =>
    match s.root.write path bytes with
    | .ok root => (.ok (), s.withRoot root)
    | .error error => (.error error, s)
  createDirectories path := fun s =>
    let (result, root) := s.root.createDirectories path
    (result, s.withRoot root)
  now := fun s => (s.clock s.readings, { s with readings := s.readings + 1 })
  freshSeed := fun s =>
    (⟨Bytes.leBytes Ed25519.keyLength (s.seeds + 1), by simp⟩, { s with seeds := s.seeds + 1 })

def run (s : MemoryHost) (words : List String) : Ending × MemoryHost :=
  (runWords host none words : StateM MemoryHost Ending).run s

def withDirectory (s : MemoryHost) (path : String) : Except FileError MemoryHost :=
  match s.root.createDirectories path with
  | (.ok (), root) => .ok (s.withRoot root)
  | (.error error, _) => .error error

def withFile (s : MemoryHost) (path : String) (bytes : Bytes) : Except FileError MemoryHost := do
  let s ← match Path.parent? path with
    | none => pure s
    | some directory => if directory = "" then pure s else s.withDirectory directory
  return s.withRoot (← s.root.write path bytes)

def filesBelow (s : MemoryHost) (path : String) : List String :=
  let found := ((s.root.locate path).toOption.bind s.root.at?).map FileTree.files
  ((found.getD []).map fun place => "/".intercalate place).mergeSort fun a b => a ≤ b

end MemoryHost

end ObjectMeta.Command
