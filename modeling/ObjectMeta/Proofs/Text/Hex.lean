import ObjectMeta.Proofs.Bytes
import ObjectMeta.Proofs.Text.Blank
import ObjectMeta.Text.Hex

/-!
# Hexadecimal text that is read

A text is read as the bytes that its digits spell, in either case.  What is no such text is judged
by its UTF-8 bytes: by their number if it is odd, and by the first that is no digit otherwise
(`Hex.decode_eq_iff`).  So the digits of a byte string are read back as these bytes, with white
space around them or without (`Hex.decode_trim`).
-/

namespace ObjectMeta.Hex

/-! ## 1. Digits -/

def IsDigit (c : Char) : Prop := c ∈ "0123456789abcdefABCDEF".toList

/-- A character is the digit of a number, in either case. -/
def Denotes (c : Char) (n : Nat) : Prop :=
  (c, n) ∈ "0123456789abcdef".toList.zipIdx ++ "0123456789ABCDEF".toList.zipIdx

def IsDigitByte (byte : UInt8) : Prop := byte ∈ Bytes.ofText "0123456789abcdefABCDEF"

instance (c : Char) : Decidable (IsDigit c) :=
  inferInstanceAs (Decidable (c ∈ "0123456789abcdefABCDEF".toList))

instance (c : Char) (n : Nat) : Decidable (Denotes c n) :=
  inferInstanceAs (Decidable
    ((c, n) ∈ "0123456789abcdef".toList.zipIdx ++ "0123456789ABCDEF".toList.zipIdx))

instance (byte : UInt8) : Decidable (IsDigitByte byte) :=
  inferInstanceAs (Decidable (byte ∈ Bytes.ofText "0123456789abcdefABCDEF"))

variable {c : Char} {byte : UInt8} {n : Nat}

/-- What holds of every digit is found out by looking at each. -/
@[elab_as_elim]
theorem IsDigit.check {p : Char → Prop} [DecidablePred p] (h : IsDigit c)
    (hall : ("0123456789abcdefABCDEF".toList.all fun c => p c) = true) : p c :=
  of_decide_eq_true (List.all_eq_true.1 hall c h)

@[elab_as_elim]
theorem Denotes.check {p : Char → Nat → Prop} [∀ c n, Decidable (p c n)] (h : Denotes c n)
    (hall : (("0123456789abcdef".toList.zipIdx ++ "0123456789ABCDEF".toList.zipIdx).all
      fun e => p e.1 e.2) = true) : p c n :=
  of_decide_eq_true (List.all_eq_true.1 hall (c, n) h)

/-- A digit is one byte of UTF-8. -/
theorem IsDigit.utf8 (h : IsDigit c) :
    String.utf8EncodeChar c = [c.toUInt8] ∧ IsDigitByte c.toUInt8 := h.check (by decide +kernel)

theorem IsDigit.not_blank (h : IsDigit c) : Text.isBlank c = false := h.check (by decide +kernel)

theorem IsDigit.denotes (h : IsDigit c) : ∃ n < 16, Denotes c n := h.check (by decide +kernel)

theorem IsDigitByte.char (h : IsDigitByte byte) :
    IsDigit (Char.ofNat byte.toNat) ∧ (Char.ofNat byte.toNat).toUInt8 = byte := by
  have hall : ∀ byte ∈ Bytes.ofText "0123456789abcdefABCDEF",
      IsDigit (Char.ofNat byte.toNat) ∧ (Char.ofNat byte.toNat).toUInt8 = byte := by
    decide +kernel
  exact hall byte h

theorem Denotes.isDigit (h : Denotes c n) : IsDigit c := h.check (by decide +kernel)

theorem Denotes.digitValue? (h : Denotes c n) :
    digitValue? c.toUInt8 = some (UInt8.ofNat n) := h.check (by decide +kernel)

/-- Only a digit has a value. -/
theorem digitValue?_eq_none (h : ¬ IsDigitByte byte) : digitValue? byte = none := by
  have hall : ∀ n < 256, IsDigitByte (UInt8.ofNat n) ∨ digitValue? (UInt8.ofNat n) = none := by
    decide +kernel
  have hbyte := hall byte.toNat byte.toNat_lt
  rw [UInt8.ofNat_toNat] at hbyte
  exact hbyte.resolve_left h

theorem exists_digitValue? (h : IsDigitByte byte) : ∃ value, digitValue? byte = some value := by
  rcases h.char.1.denotes with ⟨n, _, hdenotes⟩
  exact ⟨_, h.char.2 ▸ hdenotes.digitValue?⟩

theorem denotes_digit : ∀ n < 16, Denotes (digit n) n := by decide +kernel

/-- The other digit of a number becomes the one that is written when it is put in lower case. -/
theorem denotes_iff_toLower (hn : n < 16) : Denotes c n ↔ c.toLower = digit n := by
  refine ⟨fun h => h.check (by decide +kernel), fun h => ?_⟩
  have hupper : ∀ k < 26, ∀ n < 16, (Char.ofNat (65 + k)).toLower = digit n →
      Denotes (Char.ofNat (65 + k)) n := by decide +kernel
  by_cases hcase : 65 ≤ c.toNat ∧ c.toNat ≤ 90
  · have hc : Char.ofNat (65 + (c.toNat - 65)) = c := by
      rw [show 65 + (c.toNat - 65) = c.toNat by omega, Char.ofNat_toNat]
    exact hc ▸ hupper (c.toNat - 65) (by omega) n hn (hc.symm ▸ h)
  · have hsame : c.toLower = c := dif_neg hcase
    rw [← hsame, h]
    exact denotes_digit n hn

theorem halves (x : UInt8) :
    16 * UInt8.ofNat (x.toNat / 16) + UInt8.ofNat (x.toNat % 16) = x := by
  apply UInt8.toNat_inj.1
  have hx := x.toNat_lt
  simp only [UInt8.toNat_add, UInt8.toNat_mul, UInt8.toNat_ofNat', UInt8.reduceToNat]
  omega

/-! ## 2. Spelling -/

/-- Digits spell bytes, two by two, with the upper half of a byte first. -/
inductive Spells : List Char → Bytes → Prop
  | nil : Spells [] []
  | cons {high low : Char} {rest : List Char} {x : UInt8} {bytes : Bytes}
      (hhigh : Denotes high (x.toNat / 16)) (hlow : Denotes low (x.toNat % 16))
      (hrest : Spells rest bytes) : Spells (high :: low :: rest) (x :: bytes)

namespace Spells

variable {cs : List Char} {bytes : Bytes}

theorem isDigit (h : Spells cs bytes) : ∀ c ∈ cs, IsDigit c := by
  induction h with
  | nil => exact nofun
  | cons hhigh hlow _ ih =>
    exact List.forall_mem_cons.2 ⟨hhigh.isDigit, List.forall_mem_cons.2 ⟨hlow.isDigit, ih⟩⟩

theorem length_eq (h : Spells cs bytes) : cs.length = 2 * bytes.length := by
  induction h with
  | nil => rfl
  | cons _ _ _ ih => simp only [List.length_cons, ih]; omega

/-- Digits spell one byte string, which is what is read from them. -/
theorem decodePairs (h : Spells cs bytes) (index : Nat) :
    decodePairs index (cs.map Char.toUInt8) = .ok bytes := by
  induction h generalizing index with
  | nil => rfl
  | @cons high low rest x bytes hhigh hlow hrest ih =>
    simp only [List.map_cons, Hex.decodePairs, hhigh.digitValue?, hlow.digitValue?, ih]
    show Except.ok (_ :: bytes) = _
    rw [halves]

end Spells

/-- Digits in pairs spell something. -/
theorem exists_spells : ∀ {cs : List Char}, cs.length % 2 = 0 → (∀ c ∈ cs, IsDigit c) →
    ∃ bytes, Spells cs bytes
  | [], _, _ => ⟨[], .nil⟩
  | [_], hlength, _ => by cases hlength
  | high :: low :: rest, hlength, hdigits => by
    rcases (hdigits high (by simp)).denotes with ⟨m, hm, hhigh⟩
    rcases (hdigits low (by simp)).denotes with ⟨n, hn, hlow⟩
    have hlength' : rest.length % 2 = 0 := by
      simp only [List.length_cons] at hlength
      omega
    rcases exists_spells hlength' (fun c hc => hdigits c (by simp [hc])) with ⟨bytes, hrest⟩
    have hbyte : (UInt8.ofNat (16 * m + n)).toNat = 16 * m + n := by
      rw [UInt8.toNat_ofNat']
      omega
    refine ⟨UInt8.ofNat (16 * m + n) :: bytes, .cons ?_ ?_ hrest⟩
    · rwa [hbyte, show (16 * m + n) / 16 = m by omega]
    · rwa [hbyte, show (16 * m + n) % 16 = n by omega]

theorem toList_encode (b : Bytes) : (encode b).toList =
    b.flatMap fun x => [digit (x.toNat / 16), digit (x.toNat % 16)] := String.toList_ofList

/-- Digits spell a byte string if they are, in lower case, the text of it. -/
theorem spells_iff_toLower {s : String} {b : Bytes} :
    Spells s.toList b ↔ s.toLower = encode b := by
  unfold String.toLower
  rw [← String.toList_inj, String.toList_map, toList_encode]
  generalize s.toList = cs
  constructor
  · intro h
    induction h with
    | nil => rfl
    | @cons high low rest x bytes hhigh hlow _ ih =>
      have hx := x.toNat_lt
      rw [List.map_cons, List.map_cons, (denotes_iff_toLower (by omega)).1 hhigh,
        (denotes_iff_toLower (by omega)).1 hlow, ih]
      rfl
  · intro h
    induction b generalizing cs with
    | nil => exact List.map_eq_nil_iff.1 h ▸ .nil
    | cons x bytes ih =>
      have hx := x.toNat_lt
      rcases List.map_eq_cons_iff.1 h with ⟨high, _, rfl, hhigh, h'⟩
      rcases List.map_eq_cons_iff.1 h' with ⟨low, rest, rfl, hlow, hrest⟩
      exact .cons ((denotes_iff_toLower (by omega)).2 hhigh)
        ((denotes_iff_toLower (by omega)).2 hlow) (ih rest hrest)

theorem spells_encode (b : Bytes) : Spells (encode b).toList b := by
  rw [toList_encode]
  induction b with
  | nil => exact .nil
  | cons x rest ih =>
    have hx := x.toNat_lt
    exact .cons (denotes_digit _ (by omega)) (denotes_digit _ (by omega)) ih

/-! ## 3. Digits as bytes -/

section Bytes

variable {s : String}

theorem ofText_eq_map (h : ∀ c ∈ s.toList, IsDigit c) :
    Bytes.ofText s = s.toList.map Char.toUInt8 := by
  rw [Bytes.ofText_eq_flatMap, List.map_eq_flatMap, List.flatMap_def, List.flatMap_def]
  exact congrArg _ (List.map_congr_left fun c hc => (h c hc).utf8.1)

/-- A text is of digits if its bytes are. -/
theorem forall_isDigitByte_iff :
    (∀ byte ∈ Bytes.ofText s, IsDigitByte byte) ↔ ∀ c ∈ s.toList, IsDigit c := by
  constructor
  · intro h
    -- the digits that the bytes stand for have these bytes, as only the text itself has
    let cs := (Bytes.ofText s).map fun byte => Char.ofNat byte.toNat
    have hdigits : ∀ c ∈ (String.ofList cs).toList, IsDigit c := by
      rw [String.toList_ofList]
      exact List.forall_mem_map.2 fun byte hbyte => (h byte hbyte).char.1
    have hbytes : Bytes.ofText (String.ofList cs) = Bytes.ofText s := by
      rw [ofText_eq_map hdigits, String.toList_ofList, List.map_map]
      exact (List.map_congr_left fun byte hbyte => (h byte hbyte).char.2).trans (List.map_id _)
    have hs : String.ofList cs = s := by
      have htext := Bytes.toText?_ofText s
      rw [← hbytes, Bytes.toText?_ofText] at htext
      exact Option.some.inj htext
    exact hs ▸ hdigits
  · intro h
    rw [ofText_eq_map h]
    exact List.forall_mem_map.2 fun c hc => (h c hc).utf8.2

theorem length_ofText (h : ∀ c ∈ s.toList, IsDigit c) :
    (Bytes.ofText s).length = s.toList.length := by
  rw [ofText_eq_map h, List.length_map]

theorem Spells.length_ofText {bytes : Bytes} (h : Spells s.toList bytes) :
    (Bytes.ofText s).length = 2 * bytes.length :=
  (Hex.length_ofText h.isDigit).trans h.length_eq

/-- A text spells something if its bytes come in pairs and are digits. -/
theorem exists_spells_of_bytes (heven : (Bytes.ofText s).length % 2 = 0)
    (hdigits : ∀ byte ∈ Bytes.ofText s, IsDigitByte byte) : ∃ bytes, Spells s.toList bytes := by
  have hchars := forall_isDigitByte_iff.1 hdigits
  rw [length_ofText hchars] at heven
  exact exists_spells heven hchars

end Bytes

/-! ## 4. Reading -/

/-- The first byte that is no digit is reported, with its position. -/
theorem decodePairs_invalid : ∀ {before after : Bytes} {byte : UInt8} (index : Nat),
    (before ++ byte :: after).length % 2 = 0 → (∀ b ∈ before, IsDigitByte b) →
    ¬ IsDigitByte byte →
    decodePairs index (before ++ byte :: after) =
      .error (.invalidCharacter byte (index + before.length))
  | [], [], _, _, hlength, _, _ => by cases hlength
  | [], low :: after, byte, index, _, _, hbyte => by
    simp only [List.nil_append, decodePairs, digitValue?_eq_none hbyte]
    rfl
  | [high], after, byte, index, _, hbefore, hbyte => by
    rcases exists_digitValue? (hbefore high (by simp)) with ⟨m, hhigh⟩
    simp only [List.cons_append, List.nil_append, decodePairs, hhigh, digitValue?_eq_none hbyte]
    rfl
  | high :: low :: before, after, byte, index, hlength, hbefore, hbyte => by
    rcases exists_digitValue? (hbefore high (by simp)) with ⟨m, hhigh⟩
    rcases exists_digitValue? (hbefore low (by simp)) with ⟨n, hlow⟩
    have hlength' : (before ++ byte :: after).length % 2 = 0 := by
      simp only [List.cons_append, List.length_cons] at hlength
      omega
    have hrest := decodePairs_invalid (index + 2) hlength'
      (fun b hb => hbefore b (by simp [hb])) hbyte
    simp only [List.cons_append, decodePairs, hhigh, hlow, hrest, List.length_cons]
    rw [show index + (before.length + 1 + 1) = index + 2 + before.length by omega]
    rfl

/-- What a text is read as.  Its UTF-8 bytes are counted first and then looked at in order. -/
inductive Reading (text : String) : Except Fault Bytes → Prop
  | spelled {bytes : Bytes} (h : Spells text.toList bytes) : Reading text (.ok bytes)
  | oddLength (h : (Bytes.ofText text).length % 2 = 1) : Reading text (.error .oddLength)
  | invalidCharacter {before after : Bytes} {byte : UInt8}
      (hlength : (Bytes.ofText text).length % 2 = 0)
      (h : Bytes.ofText text = before ++ byte :: after)
      (hbefore : ∀ b ∈ before, IsDigitByte b) (hbyte : ¬ IsDigitByte byte) :
      Reading text (.error (.invalidCharacter byte before.length))

variable {text : String} {result : Except Fault Bytes}

theorem Reading.decode (h : Reading text result) : decode text = result := by
  unfold Hex.decode decodeBytes
  cases h with
  | spelled h =>
    have hlength := h.length_ofText
    rw [if_neg (by omega), ofText_eq_map h.isDigit, h.decodePairs]
  | oddLength h => rw [if_pos h]
  | invalidCharacter hlength h hbefore hbyte =>
    rw [if_neg (by omega), h, decodePairs_invalid 0 (h ▸ hlength) hbefore hbyte, Nat.zero_add]

theorem exists_reading (text : String) : ∃ result, Reading text result := by
  rcases Nat.mod_two_eq_zero_or_one (Bytes.ofText text).length with heven | hodd
  case inr => exact ⟨_, .oddLength hodd⟩
  cases hfirst : (Bytes.ofText text).find? fun byte => ¬ IsDigitByte byte with
  | some byte =>
    rcases List.find?_eq_some_iff_append.1 hfirst with ⟨hbyte, before, after, h, hbefore⟩
    exact ⟨_, .invalidCharacter heven h (by simpa using hbefore) (by simpa using hbyte)⟩
  | none =>
    rcases exists_spells_of_bytes heven (by simpa using hfirst) with ⟨bytes, h⟩
    exact ⟨_, .spelled h⟩

/-- Every text is read in one way. -/
theorem decode_eq_iff : decode text = result ↔ Reading text result := by
  refine ⟨?_, Reading.decode⟩
  rintro rfl
  rcases exists_reading text with ⟨result, h⟩
  exact h.decode ▸ h

theorem decode_encode (b : Bytes) : decode (encode b) = .ok b :=
  (Reading.spelled (spells_encode b)).decode

/-- Digits are read back from among white space. -/
theorem decode_trim {before after : String} (hbefore : Text.IsBlank before)
    (hafter : Text.IsBlank after) (b : Bytes) :
    decode (Text.trim (before ++ encode b ++ after)) = .ok b := by
  have htrimmed := Text.IsTrimmed.of_forall fun c hc => ((spells_encode b).isDigit c hc).not_blank
  rw [(htrimmed.isCore hbefore hafter).trim, decode_encode]

end ObjectMeta.Hex
