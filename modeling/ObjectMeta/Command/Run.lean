import ObjectMeta.Command.Task
import ObjectMeta.Config.Load
import ObjectMeta.Store.Journal
import ObjectMeta.Token.Seed

/-!
# Running an invocation

An invocation reads the configuration, opens the database, gets the signing key if tokens are
issued or verified, does its task and keeps what the task has stored.  The files are made on the
way: a database where there is none even if the task then fails, and a signing key when one is
first needed.
-/

namespace ObjectMeta.Command

variable {m : Type → Type} [Monad m]

/-! ## Configuration -/

/-- Why the default configuration is used instead of the one that was asked for. -/
inductive ConfigWarning where
  | unreadable (error : FileError)
  | malformed
  deriving DecidableEq, Repr

def ConfigWarning.message : ConfigWarning → String
  | unreadable error => "Warning: Failed to read config file: " ++ error.message ++ "\n"
  | malformed => "Warning: Failed to parse config file\n"

/-- The configuration in a file.  Without the file, and with a warning where it cannot be used, it
is the default one. -/
def loadConfig (host : Host m) (path : String) : m (Config × Option ConfigWarning) := do
  if ← host.isPresent path then
    match (← host.read path).bind textOfBytes with
    | .error error => return ({}, some (.unreadable error))
    | .ok text =>
      match Config.ofToml? text with
      | none => return ({}, some .malformed)
      | some config => return (config, none)
  else return ({}, none)

def GeneralSettings.apply (settings : GeneralSettings) (config : Config) : Config :=
  { config with
    service := { config.service with
      databasePath := settings.databasePath.getD config.service.databasePath }
    allocator := { config.allocator with
      chillMode := settings.chillMode || config.allocator.chillMode } }

/-! ## Files -/

def attempt {ε ε' α : Type} (wrap : ε → ε') (action : m (Except ε α)) : ExceptT ε' m α :=
  ExceptT.adapt wrap (ExceptT.mk action)

def makeParent (host : Host m) (path : String) : m (Except FileError Unit) :=
  match Path.parent? path with
  | none => return .ok ()
  | some directory => if directory = "" then return .ok () else host.createDirectories directory

/-- The journal in a database file, which is made if it is missing and begun if it is empty. -/
def openDatabase (host : Host m) (path : String) :
    ExceptT DatabaseError m (List Transaction) := do
  attempt .directory (makeParent host path)
  let bytes ← attempt .file (host.openFile path)
  if bytes = [] then
    attempt .file (host.write path (Journal.encode []))
    return []
  else
    match Journal.decode bytes with
    | some journal => return journal
    | none => throw (.file .notAJournal)

/-- The signing key in a file, which is made with a new key if it is missing. -/
def loadSigningKey (host : Host m) (path : String) : ExceptT Failure m Ed25519.Seed := do
  if ← host.isPresent path then
    let text ← attempt (.readingKey path) (return (← host.read path).bind textOfBytes)
    attempt .token (pure (Ed25519.Seed.ofText text))
  else
    let seed ← host.freshSeed
    attempt .keyDirectory (makeParent host path)
    attempt (.writingKey path) (host.write path (Bytes.ofText seed.text))
    return seed

def signingKeyFile (config : Config) : String :=
  config.security.signingKeyPath.getD (Path.withExtension config.service.databasePath "key")

def startAuthority (host : Host m) (config : Config) :
    ExceptT Failure m (TokenAuthority ed25519) := do
  let seed ← loadSigningKey host (signingKeyFile config)
  let idle : TokenAuthority ed25519 := { lifetime := config.security.blockTokenExpiry }
  attempt .token (pure (idle.start seed))

/-! ## Calls -/

def Task.run (host : Host m) (config : Config) (task : Task) : ExceptT Failure m Report := do
  let path := config.service.databasePath
  let journal ← attempt (.openingDatabase path) (openDatabase host path).run
  let start ← host.now
  let authority ←
    if config.blockTokensEnabled || task.needsAuthority then some <$> startAuthority host config
    else pure none
  let around := { config, start, authority }
  let (result, store) ←
    (task.perform host.now around (.durable (DurableStore.ofJournal journal)) : m _)
  unless store.journal = journal do
    attempt .savingDatabase (host.write path (Journal.encode store.journal))
  ExceptT.mk (pure result)

structure Completion where
  warning : Option ConfigWarning
  result : Except Failure Report

def Invocation.run (host : Host m) (invocation : Invocation) : m Completion := do
  let (config, warning) ← loadConfig host invocation.settings.configPath
  let result ← (invocation.task.run host (invocation.settings.apply config)).run
  return { warning, result }

inductive Ending where
  /-- A text was asked for. -/
  | shown (text : String)
  | misused (error : UsageError)
  | completed (completion : Completion)

namespace Ending

/-- The exit code: zero for success, one for a task that fails, two for words that spell no call. -/
def code : Ending → UInt8
  | shown _ => 0
  | misused _ => 2
  | completed ⟨_, .ok _⟩ => 0
  | completed ⟨_, .error _⟩ => 1

def out : Ending → String
  | shown text => text
  | completed ⟨_, .ok report⟩ => report.text
  | misused _ | completed ⟨_, .error _⟩ => ""

/-- What is told besides: warnings and failures. -/
def err : Ending → String
  | shown _ => ""
  | misused error =>
    "error: " ++ error.message ++ "\n\nFor more information, try '--help'.\n"
  | completed completion =>
    (completion.warning.map ConfigWarning.message).getD "" ++
      match completion.result with
      | .ok _ => ""
      | .error failure => failure.text

end Ending

/-- Runs the call that words spell; `database` is what the environment says about the database. -/
def runWords (host : Host m) (database : Option String) (words : List String) : m Ending := do
  match Invocation.ofWords database words with
  | .error (.text shown) => return .shown shown
  | .error (.misuse error) => return .misused error
  | .ok invocation => return .completed (← invocation.run host)

end ObjectMeta.Command
