import Mathlib.Algebra.Group.Nat.Defs
import ObjectMeta.Bytes

/-!
# Numbers, texts and their bytes

Reading a form of width `w` gives the number back modulo `256 ^ w` (`leNat_leBytes`,
`beNat_beBytes`), and every byte string is the form of the number it reads as (`leBytes_leNat`,
`beBytes_beNat`).  The bytes of a text leave one byte out (`ne_of_mem_ofText`).
-/

namespace ObjectMeta.Bytes

/-! ## 1. Natural numbers -/

theorem leNat_leBytes (width n : Nat) : leNat (leBytes width n) = n % 256 ^ width := by
  induction width generalizing n with
  | zero => simp [leBytes, leNat, Nat.mod_one]
  | succ width ih =>
    have hbyte : (UInt8.ofNat n).toNat = n % 256 := UInt8.toNat_ofNat'
    rw [leBytes, leNat, ih, hbyte, Nat.pow_succ, Nat.mul_comm (256 ^ width) 256, Nat.mod_mul]

theorem leBytes_leNat (b : Bytes) : leBytes b.length (leNat b) = b := by
  induction b with
  | nil => rfl
  | cons b rest ih =>
    have hb := b.toNat_lt
    simp only [List.length_cons, leBytes, leNat]
    have hdiv : (b.toNat + 256 * leNat rest) / 256 = leNat rest := by omega
    have hmod : UInt8.ofNat (b.toNat + 256 * leNat rest) = b := by
      apply UInt8.toNat_inj.1
      simp only [UInt8.toNat_ofNat']
      omega
    rw [hdiv, hmod, ih]

theorem leNat_lt (b : Bytes) : leNat b < 256 ^ b.length := by
  induction b with
  | nil => simp [leNat]
  | cons b rest ih =>
    have hb := b.toNat_lt
    simp only [leNat, List.length_cons, Nat.pow_succ]
    omega

theorem beNat_beBytes (width n : Nat) : beNat (beBytes width n) = n % 256 ^ width := by
  simp [beNat, beBytes, leNat_leBytes]

theorem beBytes_beNat (b : Bytes) : beBytes b.length (beNat b) = b := by
  have h := leBytes_leNat b.reverse
  rw [List.length_reverse] at h
  simp [beBytes, beNat, h]

theorem beNat_lt (b : Bytes) : beNat b < 256 ^ b.length := by
  have h := leNat_lt b.reverse
  rwa [List.length_reverse] at h

/-! ## 2. Signed 64-bit integers -/

@[simp] theorem signed_bits (i : Int64) : signed (bits i) = i := by
  simp [signed, bits]

theorem bits_lt (i : Int64) : bits i < 256 ^ 8 := by
  have := i.toUInt64.toNat_lt
  simpa [bits] using this

theorem bits_signed {n : Nat} (h : n < 256 ^ 8) : bits (signed n) = n := by
  simp only [signed, bits, UInt64.toUInt64_toInt64, UInt64.toNat_ofNat']
  exact Nat.mod_eq_of_lt (by simpa using h)

/-! ## 3. Text -/

/-- The bytes of a text, character by character. -/
theorem ofText_eq_flatMap (s : String) : ofText s = s.toList.flatMap String.utf8EncodeChar := by
  have hchars (cs : List Char) : ofText (String.ofList cs) = cs.flatMap String.utf8EncodeChar := by
    simp [ofText, String.ofList, List.utf8Encode]
  rw [← hchars, String.ofList_toList]

/-- No text has the byte with all bits set in it. -/
theorem ne_of_mem_ofText {s : String} {byte : UInt8} (h : byte ∈ ofText s) : byte ≠ 0xff := by
  have hsmall : ∀ n < 255, UInt8.ofNat n ≠ 0xff := by
    intro n hn heq
    have hnat := congrArg UInt8.toNat heq
    simp only [UInt8.toNat_ofNat', UInt8.reduceToNat] at hnat
    omega
  rw [ofText_eq_flatMap] at h
  rcases List.mem_flatMap.1 h with ⟨c, _, hc⟩
  -- one, two, three or four bytes
  unfold String.utf8EncodeChar at hc
  simp only at hc
  split at hc
  · rw [List.mem_singleton.1 hc]
    exact hsmall _ (by omega)
  · split at hc
    · simp only [List.mem_cons, List.not_mem_nil, or_false] at hc
      rcases hc with rfl | rfl <;> exact hsmall _ (by omega)
    · split at hc
      · simp only [List.mem_cons, List.not_mem_nil, or_false] at hc
        rcases hc with rfl | rfl | rfl <;> exact hsmall _ (by omega)
      · simp only [List.mem_cons, List.not_mem_nil, or_false] at hc
        rcases hc with rfl | rfl | rfl | rfl <;> exact hsmall _ (by omega)

end ObjectMeta.Bytes
