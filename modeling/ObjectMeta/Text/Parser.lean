/-!
# Parsers

A parser takes characters from the front of a text and yields a value, or fails and takes nothing.
Repetition is bounded by what is left of the text, so every parser ends.
-/

namespace ObjectMeta.Text

/-- Takes a value from the front of a text. -/
abbrev Parser (α : Type) := StateT (List Char) Option α

namespace Parser

variable {α β : Type}

def satisfy (f : Char → Bool) : Parser Char := fun
  | [] => none
  | c :: rest => if f c then some (c, rest) else none

def char (c : Char) : Parser Unit := do discard (satisfy (· == c))

def chars (cs : List Char) : Parser Unit := cs.forM char

def literal (s : String) : Parser Unit := chars s.toList

def peek? : Parser (Option Char) := fun cs => some (cs.head?, cs)

def takeWhile (f : Char → Bool) : Parser (List Char) := fun cs =>
  some (cs.takeWhile f, cs.dropWhile f)

def takeWhile1 (f : Char → Bool) : Parser (List Char) := do
  let cs ← takeWhile f
  if cs.isEmpty then failure else return cs

def count (f : Char → Bool) : (n : Nat) → Parser (List Char)
  | 0 => return []
  | n + 1 => do
    let c ← satisfy f
    return c :: (← count f n)

def optional (p : Parser α) : Parser (Option α) := (some <$> p) <|> pure none

def upTo (p : Parser α) : (limit : Nat) → Parser (List α)
  | 0 => return []
  | limit + 1 => do
    match ← optional p with
    | none => return []
    | some a => return a :: (← upTo p limit)

def many (p : Parser α) : Parser (List α) := fun cs => upTo p (cs.length + 1) cs

def sepBy1 (p : Parser α) (separator : Parser β) : Parser (List α) := do
  let first ← p
  let others ← many (separator *> p)
  return first :: others

def endOfText : Parser Unit := fun
  | [] => some ((), [])
  | _ :: _ => none

def run? (p : Parser α) (s : String) : Option α := ((p <* endOfText).run s.toList).map Prod.fst

end Parser

/-- The number that digits of a base spell, most significant first. -/
def numeral (base : Nat) (digits : List Char) : Nat :=
  digits.foldl (fun n c =>
    base * n + (if c ≤ '9' then c.toNat - 48 else if c ≤ 'F' then c.toNat - 55 else c.toNat - 87)) 0

def isHexDigit (c : Char) : Bool :=
  c.isDigit || ('a' ≤ c && c ≤ 'f') || ('A' ≤ c && c ≤ 'F')

end ObjectMeta.Text
