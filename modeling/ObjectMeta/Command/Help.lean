import ObjectMeta.Command.Grammar

/-!
# Descriptions of commands

The text that a command shows about itself: what it does, how it is called, and tables of its
subcommands, parameters and options.  Every row of a table is one line, however long.
-/

namespace ObjectMeta.Command

def blankText (n : Nat) : String := String.ofList (List.replicate n ' ')

/-- A text with spaces after it, to a width. -/
def padded (width : Nat) (s : String) : String := s ++ blankText (width - s.length)

def helpTable (title : String) (indent : Nat) (rows : List (String × String)) : String :=
  let width := rows.foldl (fun n row => max n row.1.length) 0 + 2
  let line (row : String × String) : String :=
    blankText indent ++ padded width row.1 ++ row.2 ++ "\n"
  title ++ ":\n" ++ String.join (rows.map line)

variable {σ : Type}

def OptionRule.row (rule : OptionRule σ) : String × String :=
  let letter := match rule.letter with
    | some c => String.ofList ['-', c, ',', ' ']
    | none => blankText 4
  let remarks := match rule.fallback with
    | some remark => ["[" ++ remark ++ "]"]
    | none => []
  let about := if rule.about = "" then [] else [rule.about]
  (letter ++ rule.label, " ".intercalate (about ++ remarks))

def helpText (about call : String) (tables : List String) (options : List (OptionRule σ)) :
    String :=
  about ++ "\n\nUsage: " ++ call ++ "\n\n" ++
    "\n".intercalate (tables ++ [helpTable "Options" 2 (options.map OptionRule.row)])

def Grammar.help (program : String) (g : Grammar σ) : String :=
  let parameters := g.parameters.map fun parameter => placeholder parameter.name
  let call := " ".intercalate
    ([program, g.name] ++ (if g.options.isEmpty then [] else ["[OPTIONS]"]) ++ parameters)
  helpText g.about call [helpTable "Arguments" 2 (parameters.map fun name => (name, ""))] g.rules

end ObjectMeta.Command
