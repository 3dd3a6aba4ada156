/-!
# Command-line words

A command is described by its parameters and its options, each of which says what a word does to
the settings `σ` that the command collects.  Words are read from left to right.  An option's value
stands in the same word after an equals sign (or right after a single letter) or is the next word,
which then must not look like an option.  Each option is given at most once, and after a word `--`
no word is an option.
-/

namespace ObjectMeta.Command

inductive UsageError where
  | unknownOption (word : String)
  | unknownCommand (word : String)
  /-- A switch was given a value. -/
  | unexpectedValue (option value : String)
  | missingValue (option : String)
  | invalidValue (option value : String)
  | repeated (option : String)
  /-- There is no parameter left for a word. -/
  | unexpectedWord (word : String)
  | missingWords (parameters : List String)
  | missingCommand
  deriving DecidableEq, Repr

def UsageError.message : UsageError → String
  | unknownOption word => "unexpected argument '" ++ word ++ "' found"
  | unknownCommand word => "unrecognized subcommand '" ++ word ++ "'"
  | unexpectedValue option value =>
    "unexpected value '" ++ value ++ "' for '" ++ option ++ "' found; no more were expected"
  | missingValue option => "a value is required for '" ++ option ++ "' but none was supplied"
  | invalidValue option value => "invalid value '" ++ value ++ "' for '" ++ option ++ "'"
  | repeated option => "the argument '" ++ option ++ "' cannot be used multiple times"
  | unexpectedWord word => "unexpected argument '" ++ word ++ "' found"
  | missingWords parameters =>
    "the following required arguments were not provided:" ++
      String.join (parameters.map ("\n  " ++ ·))
  | missingCommand => "a subcommand is required but one was not provided"

/-- Why reading ends before the words do. -/
inductive Stop where
  /-- The description of the command is asked for. -/
  | help
  /-- The version of the program is asked for. -/
  | version
  | misuse (error : UsageError)
  deriving DecidableEq, Repr

inductive Effect (σ : Type) where
  /-- Changes the settings, without a value. -/
  | switch (turnOn : σ → σ)
  /-- Takes a value, which may be refused. -/
  | value (put : String → σ → Option σ)
  | help
  | version

structure OptionRule (σ : Type) where
  name : String
  letter : Option Char := none
  effect : Effect σ
  about : String := ""
  /-- Where the value comes from if the option is not given. -/
  fallback : Option String := none

/-- A word that has to be given, at its place among such words. -/
structure Parameter (σ : Type) where
  name : String
  put : String → σ → σ

structure Grammar (σ : Type) where
  name : String
  about : String
  parameters : List (Parameter σ) := []
  options : List (OptionRule σ) := []

variable {σ : Type}

def placeholder (name : String) : String :=
  "<" ++ name.map (fun c => if c = '-' then '_' else c.toUpper) ++ ">"

namespace OptionRule

def help : OptionRule σ :=
  { name := "help", letter := some 'h', effect := .help, about := "Print help" }

def version : OptionRule σ :=
  { name := "version", letter := some 'V', effect := .version, about := "Print version" }

def takesValue (rule : OptionRule σ) : Bool :=
  match rule.effect with
  | .value _ => true
  | _ => false

def label (rule : OptionRule σ) : String :=
  "--" ++ rule.name ++ if rule.takesValue then " " ++ placeholder rule.name else ""

end OptionRule

/-! ## Kinds of words -/

inductive OptionWord where
  | long (name : String) (value : Option String)
  /-- A minus, a letter and what follows it. -/
  | short (letter : Char) (rest : List Char)
  deriving DecidableEq, Repr

inductive WordShape where
  /-- The word `--`. -/
  | endOfOptions
  | option (word : OptionWord)
  | plain
  deriving DecidableEq, Repr

def splitAtEquals (cs : List Char) : List Char × Option (List Char) :=
  match cs.dropWhile (· ≠ '=') with
  | [] => (cs, none)
  | _ :: value => (cs.takeWhile (· ≠ '='), some value)

/-- The shape of a word; a minus alone is plain. -/
def WordShape.ofWord (word : String) : WordShape :=
  match word.toList with
  | ['-', '-'] => endOfOptions
  | '-' :: '-' :: rest =>
    let (name, value) := splitAtEquals rest
    option (.long (String.ofList name) (value.map String.ofList))
  | '-' :: letter :: rest => option (.short letter rest)
  | _ => plain

def attachedValue : List Char → Option String
  | [] => none
  | '=' :: value => some (String.ofList value)
  | value => some (String.ofList value)

/-! ## Reading -/

/-- How far the words of a command have been read. -/
structure Reading (σ : Type) where
  settings : σ
  /-- The names of the options that were used. -/
  used : List String := []
  /-- The last option, if its value is the next word or was the last one; the value is judged when
  the next option or parameter is read. -/
  pending : Option (OptionRule σ × Option String) := none
  /-- The parameters that still lack a word. -/
  unfilled : List (Parameter σ) := []

namespace Reading

def misuse {α : Type} (error : UsageError) : Except Stop α := .error (.misuse error)

/-- Changes the settings by an option that was not used before. -/
def record (r : Reading σ) (rule : OptionRule σ) (settings : σ) : Except Stop (Reading σ) :=
  if rule.name ∈ r.used then misuse (.repeated rule.label)
  else .ok { r with settings, used := rule.name :: r.used }

def use (r : Reading σ) (rule : OptionRule σ) (value : Option String) :
    Except Stop (Reading σ) :=
  match rule.effect, value with
  | .value put, some word =>
    match put word r.settings with
    | some settings => r.record rule settings
    | none => misuse (.invalidValue rule.label word)
  | .value _, none => misuse (.missingValue rule.label)
  | _, some word => misuse (.unexpectedValue rule.label word)
  | .switch turnOn, none => r.record rule (turnOn r.settings)
  | .help, none => .error .help
  | .version, none => .error .version

def settle (r : Reading σ) : Except Stop (Reading σ) :=
  match r.pending with
  | none => .ok r
  | some (rule, value) => use { r with pending := none } rule value

/-- Reads an option with the value that stands in its word; without one its value is still to
come. -/
def readOption (r : Reading σ) (rule : OptionRule σ) (value : Option String) :
    Except Stop (Reading σ) := do
  if rule.takesValue && value.isNone then
    return { ← r.settle with pending := some (rule, none) }
  else if !rule.takesValue && value.isSome then
    r.use rule value
  else
    (← r.settle).use rule value

def readOptionWord (r : Reading σ) (options : List (OptionRule σ)) (word : String) :
    OptionWord → Except Stop (Reading σ)
  | .long name value =>
    match options.find? (·.name = name) with
    | some rule => r.readOption rule value
    | none => misuse (.unknownOption word)
  | .short letter rest =>
    match options.find? (·.letter = some letter) with
    | some rule => r.readOption rule (if rule.takesValue then attachedValue rest else none)
    | none => misuse (.unknownOption word)

def readParameter (r : Reading σ) (word : String) : Except Stop (Reading σ) := do
  let r ← r.settle
  match r.unfilled with
  | [] => misuse (.unexpectedWord word)
  | parameter :: unfilled => return { r with settings := parameter.put word r.settings, unfilled }

/-- Reads a word that looks like no option: the value of the option before it, or `none` if there
is no such option. -/
def takeValue? (r : Reading σ) (word : String) : Option (Reading σ) :=
  match r.pending with
  | some (rule, none) => some { r with pending := some (rule, some word) }
  | _ => none

def finish (r : Reading σ) : Except Stop σ := do
  let r ← r.settle
  if r.unfilled.isEmpty then return r.settings
  else misuse (.missingWords (r.unfilled.map fun parameter => placeholder parameter.name))

end Reading

namespace Grammar

def rules (g : Grammar σ) : List (OptionRule σ) := g.options ++ [.help]

def readWords (g : Grammar σ) : List String → Reading σ → Except Stop σ
  | [], r => r.finish
  | word :: rest, r =>
    match WordShape.ofWord word with
    | .endOfOptions => do (← rest.foldlM Reading.readParameter r).finish
    | .plain => do
      match r.takeValue? word with
      | some r => g.readWords rest r
      | none => g.readWords rest (← r.readParameter word)
    | .option option => do g.readWords rest (← r.readOptionWord g.rules word option)

def read (g : Grammar σ) (settings : σ) (words : List String) : Except Stop σ :=
  g.readWords words { settings, unfilled := g.parameters }

end Grammar

end ObjectMeta.Command
