/-!
# Byte strings and fixed-width integers in them

Byte strings are lists of bytes, so that codecs are functions on lists and their laws are list
inductions.  A natural number has one little-endian and one big-endian form of every width.
-/

namespace ObjectMeta

abbrev Bytes := List UInt8

namespace Bytes

/-! ## 1. Text -/

def ofText (s : String) : Bytes := s.toByteArray.data.toList

def toText? (b : Bytes) : Option String := String.fromUTF8? ⟨b.toArray⟩

theorem ofText_append (s t : String) : ofText (s ++ t) = ofText s ++ ofText t := by
  simp [ofText]

@[simp] theorem toText?_ofText (s : String) : toText? (ofText s) = some s := by
  have h : (⟨(ofText s).toArray⟩ : ByteArray) = s.toByteArray := by
    simp [ofText]
  simp only [toText?, String.fromUTF8?, h, s.isValidUTF8, dite_true]
  rfl

theorem eq_ofText_of_toText? {b : Bytes} {s : String} (h : toText? b = some s) :
    b = ofText s := by
  simp only [toText?, String.fromUTF8?] at h
  split at h
  · cases h
    simp [ofText, String.fromUTF8]
  · cases h

/-- Decoding accepts exactly the bytes that encoding produces. -/
theorem toText?_eq_some_iff {b : Bytes} {s : String} : toText? b = some s ↔ b = ofText s :=
  ⟨eq_ofText_of_toText?, fun h => h ▸ toText?_ofText s⟩

/-! ## 2. Little-endian and big-endian numbers -/

/-- The `width` low-order bytes of a number, least significant first. -/
def leBytes : (width n : Nat) → Bytes
  | 0, _ => []
  | width + 1, n => UInt8.ofNat n :: leBytes width (n / 256)

/-- The number whose bytes these are, least significant first. -/
def leNat : Bytes → Nat
  | [] => 0
  | b :: rest => b.toNat + 256 * leNat rest

def beBytes (width n : Nat) : Bytes := (leBytes width n).reverse

def beNat (b : Bytes) : Nat := leNat b.reverse

@[simp] theorem length_leBytes (width n : Nat) : (leBytes width n).length = width := by
  induction width generalizing n with
  | zero => rfl
  | succ width ih => simp [leBytes, ih]

@[simp] theorem length_beBytes (width n : Nat) : (beBytes width n).length = width := by
  simp [beBytes]

/-! ## 3. Signed 64-bit integers -/

/-- The signed integer with these 64 bits. -/
def signed (n : Nat) : Int64 := (UInt64.ofNat n).toInt64

/-- The 64 bits of a signed integer, as a number below `2 ^ 64`. -/
def bits (i : Int64) : Nat := i.toUInt64.toNat

end Bytes

end ObjectMeta
