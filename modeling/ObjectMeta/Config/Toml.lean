import ObjectMeta.Config.Document
import ObjectMeta.Text.Parser

/-!
# TOML documents

Reads TOML 1.0 in two layers: the values on the right of an equals sign, and the lines that put them
into tables.  A table may be opened once, by its header or by names with dots but not by both, and a
name may be set once.
-/

namespace ObjectMeta.Toml

open Text Text.Parser

/-! ## 1. Blanks and names -/

/-- How deep lists, tables in one line and names with dots may go. -/
def depthLimit : Nat := 80

def isCommentChar (c : Char) : Bool := c == '\t' || (0x20 ≤ c.toNat && c.toNat ≠ 0x7f)

def blanks : Parser Unit := do discard (takeWhile fun c => c == ' ' || c == '\t')

def newline : Parser Unit := char '\n' <|> literal "\r\n"

def comment : Parser Unit := do
  char '#'
  discard (takeWhile isCommentChar)

/-- Takes blanks, comments and line ends; a comment has to end with its line. -/
def filler : Parser Unit := do
  blanks
  discard (many ((newline <|> (comment *> newline)) *> blanks))

def lineEnd : Parser Unit := do
  blanks
  discard (Parser.optional comment)
  newline <|> endOfText

/-! ## 2. Texts -/

def scalar? (n : Nat) : Option Char :=
  if n.isValidChar then some (Char.ofNat n) else none

def numericEscape (width : Nat) : Parser Char := do
  match scalar? (numeral 16 (← count isHexDigit width)) with
  | some c => return c
  | none => failure

def escape : Parser Char := do
  match ← satisfy fun _ => true with
  | 'b' => return '\x08'
  | 't' => return '\t'
  | 'n' => return '\n'
  | 'f' => return '\x0c'
  | 'r' => return '\r'
  | '"' => return '"'
  | '\\' => return '\\'
  | 'u' => numericEscape 4
  | 'U' => numericEscape 8
  | _ => failure

def isBasicChar (c : Char) : Bool := isCommentChar c && c ≠ '"' && c ≠ '\\'

def isLiteralChar (c : Char) : Bool := isCommentChar c && c ≠ '\''

def basicText : Parser (List Char) := do
  char '"'
  let cs ← many (satisfy isBasicChar <|> (char '\\' *> escape))
  char '"'
  return cs

def literalText : Parser (List Char) := do
  char '\''
  let cs ← takeWhile isLiteralChar
  char '\''
  return cs

def newlineChar : Parser Char := newline *> pure '\n'

/-- Takes a backslash at the end of a line, with all blanks and line ends after it. -/
def lineContinuation : Parser Unit := do
  char '\\'
  blanks
  newline
  blanks
  discard (many (newline *> blanks))

/-- Takes up to two quotes that do not close a text of several lines. -/
def innerQuotes (quote : Char) : Parser (List Char) := do
  let run ← takeWhile (· == quote)
  if run.isEmpty || 2 < run.length then failure else return run

/-- Takes the quotes that close a text of several lines; up to two more belong to the text. -/
def closingQuotes (quote : Char) : Parser (List Char) := do
  let run ← takeWhile (· == quote)
  if run.length < 3 || 5 < run.length then failure else return run.drop 3

/-- Takes a text of several lines; `piece` is what it may hold besides quotes. -/
def multilineText (quote : Char) (piece : Parser (List Char)) : Parser (List Char) := do
  chars [quote, quote, quote]
  discard (Parser.optional newline)
  let pieces ← many (piece <|> innerQuotes quote)
  return pieces.flatten ++ (← closingQuotes quote)

def basicPiece : Parser (List Char) :=
  (List.singleton <$> (satisfy isBasicChar <|> newlineChar)) <|>
    (lineContinuation *> pure []) <|> (List.singleton <$> (char '\\' *> escape))

def literalPiece : Parser (List Char) :=
  List.singleton <$> (satisfy isLiteralChar <|> newlineChar)

def anyText : Parser String :=
  String.ofList <$> (multilineText '"' basicPiece <|> multilineText '\'' literalPiece <|>
    basicText <|> literalText)

def namePart : Parser String :=
  String.ofList <$> (basicText <|> literalText <|>
    takeWhile1 fun c => c.isAlphanum || c == '-' || c == '_')

def name : Parser (List String) := do
  let parts ← sepBy1 (blanks *> namePart <* blanks) (char '.')
  if parts.length < depthLimit then return parts else failure

/-! ## 3. Numbers and dates -/

def separatedDigits (isDigit : Char → Bool) : Parser (List Char) := do
  let first ← satisfy isDigit
  let others ← many (Parser.optional (char '_') *> satisfy isDigit)
  return first :: others

def decimalDigits : Parser (List Char) :=
  (do
    let first ← satisfy fun c => '1' ≤ c && c ≤ '9'
    let others ← many (Parser.optional (char '_') *> satisfy Char.isDigit)
    return first :: others) <|> count Char.isDigit 1

/-- Takes a sign; whether it is a minus. -/
def sign : Parser Bool := do
  match ← Parser.optional (satisfy fun c => c == '+' || c == '-') with
  | some c => return c == '-'
  | none => return false

/-- An integer of a document, if it has 64 bits. -/
def integer64 (n : Int) : Parser Document :=
  if Int64.minValue.toInt ≤ n && n ≤ Int64.maxValue.toInt then return .integer n else failure

def integer : Parser Document :=
  (do
    literal "0x"
    integer64 (numeral 16 (← separatedDigits isHexDigit))) <|>
  (do
    literal "0o"
    integer64 (numeral 8 (← separatedDigits fun c => '0' ≤ c && c ≤ '7'))) <|>
  (do
    literal "0b"
    integer64 (numeral 2 (← separatedDigits fun c => c == '0' || c == '1'))) <|>
  (do
    let minus ← sign
    let n : Int := numeral 10 (← decimalDigits)
    integer64 (if minus then -n else n))

/-- Whether `digits * 10 ^ exponent` is beyond the largest double-precision number when rounded to
one. -/
def overflows (digits : Nat) (exponent : Int) : Bool :=
  let limit := (1 <<< 1024) - (1 <<< 970)
  let magnitude : Int := (toString digits).length + exponent
  if digits = 0 || magnitude < 309 then false
  else if 309 < magnitude then true
  else if 0 ≤ exponent then limit ≤ digits * Nat.pow 10 exponent.toNat
  else limit * Nat.pow 10 (-exponent).toNat ≤ digits

def exponent : Parser Int := do
  discard (satisfy fun c => c == 'e' || c == 'E')
  let minus ← sign
  let n : Int := numeral 10 (← separatedDigits Char.isDigit)
  return if minus then -n else n

/-- Takes a number with a fraction or an exponent, or one that is not finite; a finite one has to
stay below infinity. -/
def real : Parser Document :=
  (do
    let minus ← sign
    let whole ← decimalDigits
    let fraction ← Parser.optional (char '.' *> separatedDigits Char.isDigit)
    let exponent? ← Parser.optional exponent
    if fraction.isNone && exponent?.isNone then failure
    let fraction := fraction.getD []
    let scale : Int := exponent?.getD 0 - fraction.length
    if !minus && overflows (numeral 10 (whole ++ fraction)) scale then failure
    return .real) <|>
  (do
    discard sign
    literal "inf" <|> literal "nan"
    return .real)

def fixedNumber (width low high : Nat) : Parser Nat := do
  let n := numeral 10 (← count Char.isDigit width)
  if low ≤ n && n ≤ high then return n else failure

def daysOfMonth (year month : Nat) : Nat :=
  if month = 2 then
    if year % 4 = 0 && (year % 100 ≠ 0 || year % 400 = 0) then 29 else 28
  else if month = 4 || month = 6 || month = 9 || month = 11 then 30
  else 31

def day : Parser Unit := do
  let year ← fixedNumber 4 0 9999
  char '-'
  let month ← fixedNumber 2 1 12
  char '-'
  discard (fixedNumber 2 1 (daysOfMonth year month))

def timeOfDay : Parser Unit := do
  discard (fixedNumber 2 0 23)
  char ':'
  discard (fixedNumber 2 0 59)
  char ':'
  discard (fixedNumber 2 0 60)
  discard (Parser.optional (char '.' *> takeWhile1 Char.isDigit))

def timeOffset : Parser Unit :=
  discard (satisfy fun c => c == 'Z' || c == 'z') <|> do
    discard (satisfy fun c => c == '+' || c == '-')
    discard (fixedNumber 2 0 23)
    char ':'
    discard (fixedNumber 2 0 59)

def date : Parser Document := do
  (do
    day
    discard (Parser.optional do
      discard (satisfy fun c => c == 'T' || c == 't' || c == ' ')
      timeOfDay
      discard (Parser.optional timeOffset))) <|> timeOfDay
  return .date

/-! ## 4. Tables -/

def find? (entries : Document.Entries) (key : String) : Option Document :=
  (entries.find? fun e => e.1 == some key).map (·.2)

def replace (entries : Document.Entries) (key : String) (value : Document) : Document.Entries :=
  if entries.any fun e => e.1 == some key then
    entries.map fun e => if e.1 == some key then (e.1, value) else e
  else entries ++ [(some key, value)]

def updateLast (f : Document → Option Document) : List Document → Option (List Document)
  | [] => none
  | [d] => (f d).map fun d => [d]
  | d :: rest => (updateLast f rest).map (d :: ·)

/-- Follows a header's name down to the table that holds its last part, and changes that table.
What is missing on the way is made, a list of tables stands for its last one, and other values are
in the way. -/
def inTable (f : Document.Entries → Option Document.Entries) :
    List String → Document.Entries → Option Document.Entries
  | [], entries => f entries
  | key :: rest, entries => do
    let changed ← match find? entries key with
      | none => (inTable f rest []).map (.table .passed ·)
      | some (.table .literal _) => none
      | some (.table origin inner) => (inTable f rest inner).map (.table origin ·)
      | some (.tables items) =>
        (updateLast (fun
          | .table origin inner => (inTable f rest inner).map (.table origin ·)
          | _ => none) items).map .tables
      | some _ => none
    return replace entries key changed

/-- Sets a name below a table that parts with dots lead to.  The table it is set in is made, or
was made, by names with dots, those on the way may also be passed by headers, and the name must be
new. -/
def setDotted (key : String) (value : Document) :
    List String → Document.Entries → Option Document.Entries
  | [], entries =>
    if (find? entries key).isSome then none else some (entries ++ [(some key, value)])
  | part :: rest, entries => do
    let changed ← match find? entries part with
      | none => (setDotted key value rest []).map (.table .dotted ·)
      | some (.table .dotted inner) => (setDotted key value rest inner).map (.table .dotted ·)
      | some (.table .passed inner) =>
        if rest.isEmpty then none
        else (setDotted key value rest inner).map (.table .passed ·)
      | some (.tables items) =>
        if rest.isEmpty then none
        else (updateLast (fun
          | .table origin inner => (setDotted key value rest inner).map (.table origin ·)
          | _ => none) items).map .tables
      | some _ => none
    return replace entries part changed

def setName (parts : List String) (value : Document) (entries : Document.Entries) :
    Option Document.Entries :=
  match parts.getLast? with
  | none => none
  | some key => setDotted key value parts.dropLast entries

/-! ## 5. Values -/

def scalar : Parser Document := do
  match ← peek? with
  | some '"' | some '\'' => .text <$> anyText
  | some 't' => do literal "true"; return .boolean true
  | some 'f' => do literal "false"; return .boolean false
  | _ => date <|> real <|> integer

/-- Takes a value; lists and tables in one line go at most `depth` levels deep. -/
def value : (depth : Nat) → Parser Document
  | 0 => scalar
  | depth + 1 => do
    match ← peek? with
    | some '[' =>
      char '['
      let items ← Parser.optional (sepBy1 (filler *> value depth <* filler) (char ','))
      if items.isSome then discard (Parser.optional (char ','))
      filler
      char ']'
      return .list (items.getD [])
    | some '{' =>
      char '{'
      let entry : Parser (List String × Document) := do
        let parts ← name
        char '='
        blanks
        let v ← value depth
        blanks
        return (parts, v)
      let entries ← Parser.optional (sepBy1 entry (char ','))
      blanks
      char '}'
      match (entries.getD []).foldlM (fun table e => setName e.1 e.2 table) [] with
      | some table => return .table .literal table
      | none => failure
    | _ => scalar

/-! ## 6. Documents -/

inductive Line where
  | empty
  /-- A name set to a value. -/
  | set (parts : List String) (value : Document)
  /-- A header that opens a table. -/
  | header (parts : List String)
  /-- A header that opens one more table of a list. -/
  | listHeader (parts : List String)

def line : Parser Line := do
  blanks
  match ← peek? with
  | none => failure
  | some '#' | some '\n' | some '\r' => do lineEnd; return .empty
  | some '[' =>
    let parsed ← (do
        literal "[["
        let parts ← name
        literal "]]"
        return Line.listHeader parts) <|>
      (do
        char '['
        let parts ← name
        char ']'
        return .header parts)
    lineEnd
    return parsed
  | some _ =>
    let parts ← name
    char '='
    blanks
    let v ← value (depthLimit - 1)
    lineEnd
    return .set parts v

/-- The tables closed so far, and the one that lines are put into. -/
structure Progress where
  root : Document.Entries := []
  /-- The path of the open table; without one it is the root. -/
  path : List String := []
  /-- Whether the open table belongs to a list. -/
  inList : Bool := false
  entries : Document.Entries := []

def Progress.close (p : Progress) : Option Document.Entries :=
  match p.path.getLast? with
  | none => some p.entries
  | some key =>
    inTable (fun entries =>
      if p.inList then
        match find? entries key with
        | none => some (replace entries key (.tables [.table .header p.entries]))
        | some (.tables items) =>
          some (replace entries key (.tables (items ++ [.table .header p.entries])))
        | some _ => none
      else some (replace entries key (.table .header p.entries))) p.path.dropLast p.root

def openTable (parts : List String) (root : Document.Entries) : Option Progress := do
  let key ← parts.getLast?
  -- The table is taken out of its place while it is open; a passed one keeps its entries.
  let around ← inTable (fun entries =>
    match find? entries key with
    | none => some entries
    | some (.table .passed _) => some entries
    | some _ => none) parts.dropLast root
  return { root := around, path := parts, entries := inner key parts.dropLast around }
where
  /-- The entries of a passed table. -/
  inner (key : String) : List String → Document.Entries → Document.Entries
    | [], entries =>
      match find? entries key with
      | some (.table _ found) => found
      | _ => []
    | part :: rest, entries =>
      match find? entries part with
      | some (.table _ found) => inner key rest found
      | some (.tables items) =>
        match items.getLast? with
        | some (.table _ found) => inner key rest found
        | _ => []
      | _ => []

def openList (parts : List String) (root : Document.Entries) : Option Progress := do
  let key ← parts.getLast?
  let around ← inTable (fun entries =>
    match find? entries key with
    | none => some entries
    | some (.tables _) => some entries
    | some _ => none) parts.dropLast root
  return { root := around, path := parts, inList := true }

def Progress.add (p : Progress) : Line → Option Progress
  | .empty => some p
  | .set parts v => do return { p with entries := ← setName parts v p.entries }
  | .header parts => do openTable parts (← p.close)
  | .listHeader parts => do openList parts (← p.close)

/-- Takes all lines; a mark of the byte order may come first. -/
def lines : Parser (List Line) := do
  discard (Parser.optional (char '\ufeff'))
  let found ← many line
  blanks
  return found

def parse? (s : String) : Option Document := do
  let found ← run? lines s
  let progress ← found.foldlM Progress.add {}
  return .table .header (← progress.close)

end ObjectMeta.Toml
