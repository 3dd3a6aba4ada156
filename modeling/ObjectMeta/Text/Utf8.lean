import ObjectMeta.Bytes

/-!
# Where UTF-8 goes wrong

`Bytes.toText?` says whether bytes are UTF-8; this module says where and how they are not.  A
machine reads one byte after the other and keeps how many bytes of the current character it has
seen and what the next one may be.  The first byte it cannot take decides the fault: the character
that it belongs to, or the byte alone when it cannot start a character.
-/

namespace ObjectMeta.Utf8

inductive Fault where
  /-- The bytes from `index` are no start of a character; `length` of them were read as one. -/
  | invalid (length index : Nat)
  /-- The bytes end inside the character at `index`. -/
  | incomplete (index : Nat)
  deriving DecidableEq, Repr

def Fault.message : Fault → String
  | .invalid length index =>
    "invalid utf-8 sequence of " ++ toString length ++ " bytes from index " ++ toString index
  | .incomplete index => "incomplete utf-8 byte sequence from index " ++ toString index

/-- What a character still lacks: the range of its next byte and how many bytes follow that one. -/
structure Pending where
  low : UInt8
  high : UInt8
  more : Nat
  deriving DecidableEq, Repr

/-- What follows the first byte of a character: `none` if no character starts with it, and
`some none` if it is a character by itself. -/
def start (b : UInt8) : Option (Option Pending) :=
  if b ≤ 0x7f then some none
  else if 0xc2 ≤ b && b ≤ 0xdf then some (some ⟨0x80, 0xbf, 0⟩)
  else if b == 0xe0 then some (some ⟨0xa0, 0xbf, 1⟩)
  else if b == 0xed then some (some ⟨0x80, 0x9f, 1⟩)
  else if 0xe1 ≤ b && b ≤ 0xef then some (some ⟨0x80, 0xbf, 1⟩)
  else if b == 0xf0 then some (some ⟨0x90, 0xbf, 2⟩)
  else if 0xf1 ≤ b && b ≤ 0xf3 then some (some ⟨0x80, 0xbf, 2⟩)
  else if b == 0xf4 then some (some ⟨0x80, 0x8f, 2⟩)
  else none

def Pending.next (p : Pending) : Option Pending :=
  match p.more with
  | 0 => none
  | more + 1 => some ⟨0x80, 0xbf, more⟩

/-- Reads on from the middle of the text: the current character begins at `index`, `seen` bytes of
it have been read and `pending` says what it lacks. -/
def scan (index seen : Nat) : Option Pending → Bytes → Option Fault
  | none, [] => none
  | some _, [] => some (.incomplete index)
  | none, b :: rest =>
    match start b with
    | none => some (.invalid 1 index)
    | some none => scan (index + 1) 0 none rest
    | some (some p) => scan index 1 (some p) rest
  | some p, b :: rest =>
    if p.low ≤ b && b ≤ p.high then
      match p.next with
      | none => scan (index + seen + 1) 0 none rest
      | some q => scan index (seen + 1) (some q) rest
    else some (.invalid seen index)

def fault? (b : Bytes) : Option Fault := scan 0 0 none b

/-- The text of well-formed bytes, or their first fault. -/
def decode (b : Bytes) : Except Fault String :=
  match Bytes.toText? b with
  | some s => .ok s
  | none => .error ((fault? b).getD (.incomplete b.length))

theorem decode_eq_ok_iff {b : Bytes} {s : String} : decode b = .ok s ↔ b = Bytes.ofText s := by
  rw [← Bytes.toText?_eq_some_iff]
  unfold decode
  cases Bytes.toText? b <;> simp

end ObjectMeta.Utf8
