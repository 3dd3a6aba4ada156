import ObjectMeta.Command.Help

/-!
# Invocations

What the program can be asked for in one call: general settings and one task.  The words of a call
are the general options, the name of a task, and the task's own parameters and options.
-/

namespace ObjectMeta.Command

def programName : String := "keystead-om"

def programVersion : String := "0.1.0"

structure KeyArguments where
  volume : String
  bucket : String
  key : String
  /-- Whom block tokens are issued to. -/
  user : Option String := none
  deriving DecidableEq, Repr, Inhabited

inductive Task where
  | createVolume (volume owner : String)
  | createBucket (volume bucket : String)
  | openKey (key : KeyArguments) (size : Option Int64) (replicationType : String)
      (replicationFactor : UInt8)
  | allocateBlock (key : KeyArguments) (version : UInt64)
  | lookupKey (key : KeyArguments)
  | verifyToken (token : String)
  deriving DecidableEq, Repr

structure GeneralSettings where
  configPath : String := "/etc/keystead/om.toml"
  /-- The database, where it is not the one that the configuration names. -/
  databasePath : Option String := none
  logLevel : Option String := none
  chillMode : Bool := false
  deriving DecidableEq, Repr, Inhabited

structure Invocation where
  settings : GeneralSettings
  task : Task
  deriving DecidableEq, Repr

/-! ## Values in words -/

def natural? (cs : List Char) : Option Nat :=
  if cs ≠ [] && cs.all Char.isDigit then
    some (cs.foldl (fun n c => 10 * n + (c.toNat - 48)) 0)
  else none

/-- The integer that digits spell, behind at most one sign. -/
def integer? (word : String) : Option Int :=
  match word.toList with
  | '-' :: digits => (natural? digits).map fun n => -(n : Int)
  | '+' :: digits => (natural? digits).map Int.ofNat
  | digits => (natural? digits).map Int.ofNat

def int64? (word : String) : Option Int64 := do
  let n ← integer? word
  if Int64.minValue.toInt ≤ n && n ≤ Int64.maxValue.toInt then some (Int64.ofInt n) else none

def byte? (word : String) : Option UInt8 := do
  let n ← integer? word
  if 0 ≤ n && n < 256 then some (UInt8.ofNat n.toNat) else none

/-- A natural number of 64 bits, with at most a plus before it. -/
def word64? (word : String) : Option UInt64 := do
  let n ← match word.toList with
    | '+' :: digits => natural? digits
    | digits => natural? digits
  if n < UInt64.size then some (UInt64.ofNat n) else none

def path? (word : String) : Option String := if word = "" then none else some word

/-! ## The grammar of a call -/

def valueOption {σ α : Type} (name : String) (read : String → Option α) (put : α → σ → σ)
    (about : String) (fallback : Option String := none) : OptionRule σ where
  name := name
  effect := .value fun word settings => (read word).map (put · settings)
  about := about
  fallback := fallback

/-- The variable of the environment that names the database if no option does. -/
def databaseVariable : String := "KEYSTEAD_DB_PATH"

def generalOptions : List (OptionRule GeneralSettings) := [
  { valueOption "config" some (fun configPath s => { s with configPath })
      "Configuration file path" (some "default: /etc/keystead/om.toml") with letter := some 'c' },
  valueOption "db-path" path? (fun path s => { s with databasePath := some path })
    "Metadata database path (overrides om.db_path)" (some ("env: " ++ databaseVariable ++ "=")),
  valueOption "log-level" some (fun level s => { s with logLevel := some level })
    "Log level (overrides logging.level)",
  { name := "chill-mode", effect := .switch fun s => { s with chillMode := true },
    about := "Refuse block allocations as if the cluster were in chill mode" },
  .help,
  .version]

structure TaskArguments where
  key : KeyArguments := ⟨"", "", "", none⟩
  token : String := ""
  owner : String := "admin"
  size : Option Int64 := none
  replicationType : String := "STAND_ALONE"
  replicationFactor : UInt8 := 1
  version : UInt64 := 1

structure TaskRule where
  grammar : Grammar TaskArguments
  task : TaskArguments → Task

namespace TaskRule

def volume : Parameter TaskArguments :=
  ⟨"volume", fun volume a => { a with key := { a.key with volume } }⟩

def bucket : Parameter TaskArguments :=
  ⟨"bucket", fun bucket a => { a with key := { a.key with bucket } }⟩

def key : Parameter TaskArguments := ⟨"key", fun key a => { a with key := { a.key with key } }⟩

def token : Parameter TaskArguments := ⟨"token", fun token a => { a with token }⟩

def user : OptionRule TaskArguments :=
  valueOption "user" some (fun user a => { a with key := { a.key with user := some user } })
    "Identity the block tokens are issued to"

def all : List TaskRule := [
  ⟨{ name := "create-volume", about := "Register a volume", parameters := [volume],
     options := [valueOption "owner" some (fun owner a => { a with owner }) ""
       (some "default: admin")] },
   fun a => .createVolume a.key.volume a.owner⟩,
  ⟨{ name := "create-bucket", about := "Register a bucket inside an existing volume",
     parameters := [volume, bucket] },
   fun a => .createBucket a.key.volume a.key.bucket⟩,
  ⟨{ name := "open-key", about := "Open a key and allocate its first block",
     parameters := [volume, bucket, key],
     options := [
       user,
       valueOption "size" int64? (fun size a => { a with size := some size })
         "Expected data size in bytes",
       valueOption "replication-type" some (fun replicationType a => { a with replicationType })
         "STAND_ALONE, RATIS or CHAINED" (some "default: STAND_ALONE"),
       valueOption "replication-factor" byte?
         (fun replicationFactor a => { a with replicationFactor }) "1 or 3" (some "default: 1")] },
   fun a => .openKey a.key a.size a.replicationType a.replicationFactor⟩,
  ⟨{ name := "allocate-block", about := "Allocate one more block for an open key version",
     parameters := [volume, bucket, key],
     options := [
       user,
       valueOption "version" word64? (fun version a => { a with version }) ""
         (some "default: 1")] },
   fun a => .allocateBlock a.key a.version⟩,
  ⟨{ name := "lookup-key", about := "Look up a key", parameters := [volume, bucket, key],
     options := [user] },
   fun a => .lookupKey a.key⟩,
  ⟨{ name := "verify-token", about := "Verify a hex-encoded block token", parameters := [token] },
   fun a => .verifyToken a.token⟩]

def find? (name : String) : Option TaskRule := all.find? (·.grammar.name = name)

end TaskRule

/-! ## Descriptions -/

def helpTask : String × String :=
  ("help", "Print this message or the help of the given subcommand(s)")

def programHelp : String :=
  let tasks := TaskRule.all.map fun rule => (rule.grammar.name, rule.grammar.about)
  helpText "Keystead key manager" (programName ++ " [OPTIONS] <COMMAND>")
    [helpTable "Commands" 2 (tasks ++ [helpTask])] generalOptions

def helpTaskHelp : String :=
  helpTask.2 ++ "\n\nUsage: " ++ programName ++ " help [COMMAND]...\n\n" ++
    helpTable "Arguments" 2 [("[COMMAND]...", "Print help for the subcommand(s)")]

/-! ## Reading a call -/

inductive NoTask where
  /-- A text is asked for. -/
  | text (shown : String)
  | misuse (error : UsageError)
  deriving DecidableEq, Repr

def NoTask.ofStop (description : String) : Stop → NoTask
  | .help => text description
  | .version => text (programName ++ " " ++ programVersion ++ "\n")
  | .misuse error => misuse error

/-- The description that the words after `help` ask for: that of the program, or of one task. -/
def describe : List String → NoTask
  | [] => .text programHelp
  | name :: rest =>
    let description? := if name = helpTask.1 then some helpTaskHelp
      else (TaskRule.find? name).map fun rule => rule.grammar.help programName
    match description?, rest with
    | none, _ => .misuse (.unknownCommand name)
    | some description, [] => .text description
    | some _, word :: _ => .misuse (.unknownCommand word)

def TaskRule.read (rule : TaskRule) (words : List String) : Except NoTask Task :=
  ((rule.grammar.read {} words).map rule.task).mapError
    (NoTask.ofStop (rule.grammar.help programName))

namespace Invocation

/-- Names the database by the environment, unless an option did. -/
def useEnvironment (database : Option String) (settings : GeneralSettings) :
    Except NoTask GeneralSettings :=
  match settings.databasePath, database with
  | none, some word =>
    match path? word with
    | some path => .ok { settings with databasePath := some path }
    | none => .error (.misuse (.invalidValue ("--db-path " ++ placeholder "db-path") word))
  | _, _ => .ok settings

/-- Reads the general options, then the task; the last general option is judged after the task. -/
def readWords (database : Option String) :
    List String → Reading GeneralSettings → Except NoTask Invocation
  | [], r => do
    discard ((r.settle).mapError (NoTask.ofStop programHelp))
    throw (.misuse .missingCommand)
  | word :: rest, r =>
    match WordShape.ofWord word with
    | .endOfOptions => .error (.misuse .missingCommand)
    | .option option => do
      readWords database rest
        (← (r.readOptionWord generalOptions word option).mapError (NoTask.ofStop programHelp))
    | .plain =>
      match r.takeValue? word with
      | some r => readWords database rest r
      | none =>
        if word = helpTask.1 then .error (describe rest)
        else
          match TaskRule.find? word with
          | none => .error (.misuse (.unknownCommand word))
          | some rule => do
            let task ← rule.read rest
            let r ← (r.settle).mapError (NoTask.ofStop programHelp)
            return ⟨← useEnvironment database r.settings, task⟩

/-- The invocation that the words of a call spell; `database` is what the environment says about the
database. -/
def ofWords (database : Option String) (words : List String) : Except NoTask Invocation :=
  readWords database words { settings := {} }

end Invocation

end ObjectMeta.Command
