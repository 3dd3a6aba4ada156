import ObjectMeta.Bytes
import ObjectMeta.Text.Quoted

/-!
# Hexadecimal text

A byte is written as two digits, in lower case; digits of either case are read.  Reading judges the
length first and then the digits from left to right, so a text with two faults has one answer.
-/

namespace ObjectMeta.Hex

inductive Fault where
  | oddLength
  /-- The byte at `index` of the text's UTF-8 form is no digit. -/
  | invalidCharacter (byte : UInt8) (index : Nat)
  deriving DecidableEq, Repr

/-- The fault in words; the byte stands as the character of the same number. -/
def Fault.message : Fault → String
  | .oddLength => "Odd number of digits"
  | .invalidCharacter byte index =>
    "Invalid character " ++ Text.quotedChar (Char.ofNat byte.toNat) ++ " at position " ++
      toString index

def digit (n : Nat) : Char :=
  if n < 10 then Char.ofNat (48 + n) else Char.ofNat (87 + n)

def encode (b : Bytes) : String :=
  String.ofList (b.flatMap fun x => [digit (x.toNat / 16), digit (x.toNat % 16)])

def digitValue? (b : UInt8) : Option UInt8 :=
  if 48 ≤ b && b ≤ 57 then some (b - 48)
  else if 65 ≤ b && b ≤ 70 then some (b - 55)
  else if 97 ≤ b && b ≤ 102 then some (b - 87)
  else none

/-- Reads pairs of digits; `index` is the position of the first. -/
def decodePairs (index : Nat) : Bytes → Except Fault Bytes
  | [] => .ok []
  | [_] => .error .oddLength
  | a :: b :: rest => do
    let some high := digitValue? a | throw (.invalidCharacter a index)
    let some low := digitValue? b | throw (.invalidCharacter b (index + 1))
    return (16 * high + low) :: (← decodePairs (index + 2) rest)

def decodeBytes (b : Bytes) : Except Fault Bytes :=
  if b.length % 2 = 1 then .error .oddLength else decodePairs 0 b

def decode (s : String) : Except Fault Bytes := decodeBytes (Bytes.ofText s)

end ObjectMeta.Hex
