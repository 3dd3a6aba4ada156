/-!
# Configuration documents

What a configuration text says before it is known what it should say: values, lists and tables, in
either notation.
-/

namespace ObjectMeta

inductive TableOrigin where
  /-- Written in one place. -/
  | literal
  /-- Opened by a header of its own. -/
  | header
  /-- Passed on the way to a table further down. -/
  | passed
  /-- Passed by a name with dots. -/
  | dotted
  deriving DecidableEq, Repr

inductive Document where
  | null
  | boolean (value : Bool)
  | integer (value : Int)
  /-- A number that is no integer. -/
  | real
  | text (value : String)
  /-- A text with half of a surrogate pair. -/
  | brokenText
  /-- A date, a time or both. -/
  | date
  | list (items : List Document)
  /-- A list of tables, each opened by a header. -/
  | tables (items : List Document)
  /-- Named entries in order; a name may occur twice, and `none` is a broken one. -/
  | table (origin : TableOrigin) (entries : List (Option String × Document))

abbrev Document.Entries := List (Option String × Document)

end ObjectMeta
