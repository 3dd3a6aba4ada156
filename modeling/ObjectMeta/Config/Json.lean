import ObjectMeta.Config.Document
import ObjectMeta.Text.Parser

/-!
# JSON documents

Reads JSON: no comments, no commas before a closing bracket, no leading zeros, no control characters
in texts.  A number with a fraction, an exponent, or a minus before a zero is no integer.
-/

namespace ObjectMeta.Json

open Text Text.Parser

def blanks : Parser Unit := do
  discard (takeWhile fun c => c == ' ' || c == '\t' || c == '\n' || c == '\r')

def lexeme {α : Type} (p : Parser α) : Parser α := p <* blanks

def codeUnit : Parser Nat := do return numeral 16 (← count isHexDigit 4)

def escape : Parser Nat := do
  match ← satisfy fun _ => true with
  | '"' => return 0x22
  | '\\' => return 0x5c
  | '/' => return 0x2f
  | 'b' => return 8
  | 'f' => return 12
  | 'n' => return 10
  | 'r' => return 13
  | 't' => return 9
  | 'u' => codeUnit
  | _ => failure

/-- Takes one character of a text, as a code point or half of a surrogate pair. -/
def textUnit : Parser Nat :=
  (char '\\' *> escape) <|>
    Char.toNat <$> satisfy fun c => c ≠ '"' && c ≠ '\\' && 0x20 ≤ c.toNat

/-- The text of code units, unless one is half of a pair only. -/
def joinUnits : List Nat → Option (List Char)
  | [] => some []
  | [n] => if 0xd800 ≤ n && n < 0xe000 then none else some [Char.ofNat n]
  | high :: low :: rest =>
    if 0xd800 ≤ high && high < 0xdc00 && 0xdc00 ≤ low && low < 0xe000 then
      (joinUnits rest).map (Char.ofNat (0x10000 + (high - 0xd800) * 0x400 + (low - 0xdc00)) :: ·)
    else if 0xd800 ≤ high && high < 0xe000 then none
    else (joinUnits (low :: rest)).map (Char.ofNat high :: ·)

/-- Takes a text; `none` if it is broken. -/
def quoted : Parser (Option String) := do
  char '"'
  let units ← many textUnit
  char '"'
  return (joinUnits units).map String.ofList

def digits : Parser (List Char) :=
  (do char '0'; return ['0']) <|> do
    let first ← satisfy fun c => '1' ≤ c && c ≤ '9'
    return first :: (← takeWhile Char.isDigit)

def fraction : Parser Unit := do
  char '.'
  discard (takeWhile1 Char.isDigit)

def exponent : Parser Unit := do
  discard (satisfy fun c => c == 'e' || c == 'E')
  discard (Parser.optional (satisfy fun c => c == '+' || c == '-'))
  discard (takeWhile1 Char.isDigit)

def number : Parser Document := do
  let minus ← Parser.optional (char '-')
  let n := numeral 10 (← digits)
  let fraction? ← Parser.optional fraction
  let exponent? ← Parser.optional exponent
  if fraction?.isSome || exponent?.isSome then return .real
  else if minus.isNone then return .integer n
  else if n = 0 then return .real
  else return .integer (-n)

/-- Takes a value at most `depth` levels deep. -/
def value : (depth : Nat) → Parser Document
  | 0 => failure
  | depth + 1 => lexeme do
    match ← peek? with
    | some '{' =>
      lexeme (char '{')
      let entry : Parser (Option String × Document) := do
        let name ← lexeme quoted
        lexeme (char ':')
        return (name, ← value depth)
      let entries ← Parser.optional (sepBy1 entry (lexeme (char ',')))
      char '}'
      return .table .literal (entries.getD [])
    | some '[' =>
      lexeme (char '[')
      let items ← Parser.optional (sepBy1 (value depth) (lexeme (char ',')))
      char ']'
      return .list (items.getD [])
    | some '"' => return ((← quoted).map Document.text).getD .brokenText
    | some 't' => do literal "true"; return .boolean true
    | some 'f' => do literal "false"; return .boolean false
    | some 'n' => do literal "null"; return .null
    | _ => number

def parse? (s : String) : Option Document := run? (blanks *> value (s.length + 1)) s

end ObjectMeta.Json
