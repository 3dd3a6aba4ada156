import ObjectMeta.Crypto.Ed25519
import ObjectMeta.Text.Utf8

/-!
# Files and their paths

What the program needs of the machine it runs on, as a record of actions in any monad, and the two
things it computes from paths: the directory that holds a file, and the same path with another
extension.
-/

namespace ObjectMeta.Command

/-! ## Errors -/

inductive FileError where
  | notFound
  | accessDenied
  | alreadyExists
  | notADirectory
  | isADirectory
  /-- A path, or a name in it, is too long. -/
  | nameTooLong
  /-- A path has a NUL in it. -/
  | nulInPath
  /-- A file to be read as text is not UTF-8. -/
  | notText
  /-- A database file holds no journal. -/
  | notAJournal
  /-- Another error of the operating system, in its words. -/
  | other (message : String)
  deriving DecidableEq, Repr, Inhabited

def FileError.message : FileError → String
  | notFound => "No such file or directory (os error 2)"
  | accessDenied => "Permission denied (os error 13)"
  | alreadyExists => "File exists (os error 17)"
  | notADirectory => "Not a directory (os error 20)"
  | isADirectory => "Is a directory (os error 21)"
  | nameTooLong => "File name too long (os error 36)"
  | nulInPath => "file name contained an unexpected NUL byte"
  | notText => "stream did not contain valid UTF-8"
  | notAJournal => "invalid data"
  | other message => message

/-! ## Actions -/

/-- The actions on files, clocks and randomness that the program takes. -/
structure Host (m : Type → Type) where
  /-- Whether there is anything at a path. -/
  isPresent : String → m Bool
  /-- The bytes of a file. -/
  read : String → m (Except FileError Bytes)
  /-- The bytes of a file that is going to be written; a file that is not there is made, empty. -/
  openFile : String → m (Except FileError Bytes)
  /-- Gives a file new bytes; a file that is not there is made. -/
  write : String → Bytes → m (Except FileError Unit)
  /-- Makes a directory and those on the way to it, as far as they are missing. -/
  createDirectories : String → m (Except FileError Unit)
  /-- The time in milliseconds since 1970. -/
  now : m Int64
  /-- A seed that nobody can guess. -/
  freshSeed : m Ed25519.Seed

def textOfBytes (b : Bytes) : Except FileError String :=
  match Bytes.toText? b with
  | some text => .ok text
  | none => .error .notText

/-! ## Paths -/

namespace Path

def splitSlashes : List Char → List (List Char)
  | [] => [[]]
  | c :: rest =>
    match c, splitSlashes rest with
    | '/', names => [] :: names
    | _, [] => [[c]]
    | _, name :: names => (c :: name) :: names

def names (path : String) : List String := (splitSlashes path.toList).map String.ofList

/-- A path, read backwards, without slashes and single points as names at its end. -/
def trimEnd : List Char → List Char
  | ['/'] => ['/']
  | '/' :: rest => trimEnd rest
  | ['.', '/'] => ['/']
  | '.' :: '/' :: rest => trimEnd rest
  | reversed => reversed

/-- The directory that holds what is at a path: the path without its last name, which is empty for a
lone name, and `none` for the root and the empty path. -/
def parent? (path : String) : Option String :=
  match trimEnd path.toList.reverse with
  | [] | ['/'] => none
  | reversed =>
    some (String.ofList (trimEnd (reversed.dropWhile (· ≠ '/'))).reverse)

/-- A name without its extension, the part from the last point on; a point at the front begins no
extension. -/
def stem (name : List Char) : List Char :=
  match (name.reverse.dropWhile (· ≠ '.')) with
  | [] | ['.'] => name
  | _ :: rest => rest.reverse

/-- The path with another extension.  A path that ends in no name stays as it is.  The old extension
is cut off behind its point, which leaves no name either where it leaves two points. -/
def withExtension (path extension : String) : String :=
  let reversed := trimEnd path.toList.reverse
  let name := (reversed.takeWhile (· ≠ '/')).reverse
  if name = [] ∨ name = ['.'] ∨ name = ['.', '.'] then path
  else
    let directory := (reversed.dropWhile (· ≠ '/')).reverse
    let cut := stem name ++ ['.']
    String.ofList (directory ++ if cut = ['.', '.'] then cut else cut ++ extension.toList)

end Path

end ObjectMeta.Command
