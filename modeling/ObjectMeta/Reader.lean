import ObjectMeta.Bytes

/-!
# Readers

A reader takes what it needs from the front of a byte string and leaves the rest, or fails with a
reason.  Readers compose in sequence, so a layout is read field by field.
-/

namespace ObjectMeta

/-- Reads a value from the front of a byte string. -/
abbrev Reader (ε α : Type) := StateT Bytes (Except ε) α

namespace Reader

variable {ε α : Type}

def fail (reason : ε) : Reader ε α := fun _ => .error reason

/-- Takes exactly `n` bytes; `short` is the reason when there are fewer. -/
def take (n : Nat) (short : ε) : Reader ε Bytes := fun b =>
  if b.length < n then .error short else .ok (b.take n, b.drop n)

def times (n : Nat) (read : Reader ε α) : Reader ε (List α) :=
  match n with
  | 0 => pure []
  | n + 1 => do
    let first ← read
    let others ← times n read
    return first :: others

end Reader

end ObjectMeta
