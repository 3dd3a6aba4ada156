import ObjectMeta.Text.Quoted

/-!
# Printed values

Values as the program prints them: JSON over several lines, each level two spaces further in, the
members of an object by name.
-/

namespace ObjectMeta.Command

inductive Output where
  | null
  | boolean (value : Bool)
  | integer (value : Int)
  | text (value : String)
  | list (items : List Output)
  | members (entries : List (String × Output))

namespace Output

/-- An object whose members are put in order. -/
def object (entries : List (String × Output)) : Output :=
  members (entries.mergeSort fun a b => a.1 ≤ b.1)

def optional : Option String → Output
  | none => null
  | some value => text value

/-- A character inside quotes: the quote, the backslash and control characters are escaped. -/
def escaped (c : Char) : String :=
  if c = '"' then "\\\""
  else if c = '\\' then "\\\\"
  else if c = '\x08' then "\\b"
  else if c = '\x0c' then "\\f"
  else if c = '\n' then "\\n"
  else if c = '\r' then "\\r"
  else if c = '\t' then "\\t"
  else if c.toNat < 16 then "\\u000" ++ Text.hexDigits c.toNat
  else if c.toNat < 32 then "\\u00" ++ Text.hexDigits c.toNat
  else String.singleton c

def quoted (s : String) : String := "\"" ++ String.join (s.toList.map escaped) ++ "\""

def newLine (level : Nat) : String := String.ofList ('\n' :: List.replicate (2 * level) ' ')

/-- Items between brackets, each on lines of its own. -/
def block (opening closing : String) (level : Nat) (items : List String) : String :=
  if items.isEmpty then opening ++ closing
  else
    opening ++ newLine (level + 1) ++ ("," ++ newLine (level + 1)).intercalate items ++
      newLine level ++ closing

mutual

def textAt (level : Nat) : Output → String
  | null => "null"
  | boolean true => "true"
  | boolean false => "false"
  | integer value => toString value
  | text value => quoted value
  | list items => block "[" "]" level (itemTexts (level + 1) items)
  | members entries => block "\x7b" "\x7d" level (memberTexts (level + 1) entries)

def itemTexts (level : Nat) : List Output → List String
  | [] => []
  | item :: rest => textAt level item :: itemTexts level rest

def memberTexts (level : Nat) : List (String × Output) → List String
  | [] => []
  | (name, value) :: rest =>
    (quoted name ++ ": " ++ textAt level value) :: memberTexts level rest

end

def pretty (value : Output) : String := textAt 0 value

end Output

end ObjectMeta.Command
