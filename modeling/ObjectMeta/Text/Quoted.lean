import ObjectMeta.Text.Unprintable

/-!
# Quoted text

A text between quotes, or a character between apostrophes, for a reader of diagnostics: the quote
in use and the backslash are preceded by a backslash, four control characters have letters of
their own, and every other character without a glyph is written by its number.
-/

namespace ObjectMeta.Text

/-- The lower-case hexadecimal digits of a number, without leading zeros. -/
def hexDigits (n : Nat) : String := String.ofList (Nat.toDigits 16 n)

def escaped (quote c : Char) : String :=
  if c = quote then String.ofList ['\\', quote]
  else if c = '\\' then "\\\\"
  else if c = '\n' then "\\n"
  else if c = '\r' then "\\r"
  else if c = '\t' then "\\t"
  else if c = '\x00' then "\\0"
  else if isUnprintable c then "\\u\x7b" ++ hexDigits c.toNat ++ "\x7d"
  else String.singleton c

def quoted (s : String) : String :=
  "\"" ++ String.join (s.toList.map (escaped '"')) ++ "\""

def quotedChar (c : Char) : String :=
  "'" ++ escaped '\'' c ++ "'"

end ObjectMeta.Text
