import ObjectMeta.Command.Run
import Std.Time.DateTime.Timestamp

/-!
# The command-line program

Runs one call on the real machine: its files, its clock, and its source of randomness.
-/

namespace ObjectMeta.Main

open Command

/-- An error of the operating system by its number, which some calls report as a negative one. -/
def errorOfCode (code : UInt32) (message : String) : FileError :=
  match if code.toNat < UInt32.size / 2 then code.toNat else UInt32.size - code.toNat with
  | 2 => .notFound
  | 13 => .accessDenied
  | 17 => .alreadyExists
  | 20 => .notADirectory
  | 21 => .isADirectory
  | 36 => .nameTooLong
  | _ => .other message

def fileError (error : IO.Error) : FileError :=
  match error with
  | .noFileOrDirectory _ code details => errorOfCode code details
  | .alreadyExists _ code details => errorOfCode code details
  | .permissionDenied _ code details => errorOfCode code details
  | .inappropriateType _ code details => errorOfCode code details
  | .invalidArgument _ code details => errorOfCode code details
  | .otherError code details => errorOfCode code details
  | _ => .other (toString error)

def attemptAt {α : Type} (path : String) (action : IO α) : IO (Except FileError α) := do
  if path.contains '\x00' then return .error .nulInPath
  try return .ok (← action)
  catch error => return .error (fileError error)

/-- Whether there is a directory at a path, and `none` if there is nothing. -/
def isDirectory? (path : String) : IO (Option Bool) := do
  match ← attemptAt path (IO.FS.realPath path) with
  | .ok place => return some (← place.isDir)
  | .error _ => return none

def createDirectory (path : String) : IO (Except FileError Unit) := do
  match ← attemptAt path (IO.FS.createDir path) with
  | .error .alreadyExists =>
    return if (← isDirectory? path) = some true then .ok () else .error .alreadyExists
  | result => return result

/-- Makes a directory and at most `depth` of those on the way to it, as far as they are missing. -/
def createWay (path : String) : (depth : Nat) → IO (Except FileError Unit)
  | 0 => createDirectory path
  | depth + 1 => do
    match ← createDirectory path, Path.parent? path with
    | .error .notFound, some outer =>
      if outer = "" then return .error .notFound
      match ← createWay outer depth with
      | .ok () => createDirectory path
      | result => return result
    | result, _ => return result

/-- Makes a directory and those on the way to it; there are fewer than it has characters. -/
def createDirectories (path : String) : IO (Except FileError Unit) := createWay path path.length

def now : IO Int64 := do
  let reading ← Std.Time.Timestamp.now
  return Int64.ofInt reading.toMillisecondsSinceUnixEpoch.val

def freshSeed : IO Ed25519.Seed := do
  let bytes ← IO.getRandomBytes (USize.ofNat Ed25519.keyLength)
  match Ed25519.Seed.ofBytes? bytes.data.toList with
  | some seed => return seed
  | none => throw (IO.userError "no random bytes")

def readBytes (path : String) : IO Bytes := do
  return (← IO.FS.readBinFile path).data.toList

def openBytes (path : String) : IO Bytes := do
  let _ ← IO.FS.Handle.mk path .append
  readBytes path

def host : Host IO where
  isPresent path := return (← isDirectory? path).isSome
  read path := attemptAt path (readBytes path)
  openFile path := attemptAt path (openBytes path)
  write path bytes := attemptAt path (IO.FS.writeBinFile path ⟨bytes.toArray⟩)
  createDirectories := createDirectories
  now := now
  freshSeed := freshSeed

def run (words : List String) : IO UInt32 := do
  let ending ← runWords host (← IO.getEnv databaseVariable) words
  (← IO.getStdout).putStr ending.out
  (← IO.getStderr).putStr ending.err
  return ending.code.toUInt32

end ObjectMeta.Main

def main (words : List String) : IO UInt32 := ObjectMeta.Main.run words
