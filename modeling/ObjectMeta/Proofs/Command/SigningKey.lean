import ObjectMeta.Proofs.Command.Host
import ObjectMeta.Proofs.Text.Hex

/-!
# Signing keys that are kept as text

The text of a signing key is the seed that the 64 digits between the white space around them spell.
Every other text is refused for the first thing that is wrong with its UTF-8 bytes, so no text has
two answers (`Ed25519.Seed.ofText_eq_iff`).  A key file that was made is loaded as the key it was
made for (`Command.signingKeys_keptAsText`).
-/

namespace ObjectMeta

/-! ## 1. Texts -/

namespace Ed25519.Seed

/-- What is made of a text without white space around it.  Its UTF-8 bytes are counted first, then
looked at in order, and then their number is compared with that of a seed's digits. -/
inductive Reading (core : String) : Except TokenError Seed → Prop
  | spelled {seed : Seed} (h : Hex.Spells core.toList seed.bytes) : Reading core (.ok seed)
  | oddLength (hodd : (Bytes.ofText core).length % 2 = 1) :
      Reading core (.error (.invalidKey "seed is not hex: Odd number of digits"))
  | invalidCharacter {before after : Bytes} {byte : UInt8}
      (heven : (Bytes.ofText core).length % 2 = 0)
      (h : Bytes.ofText core = before ++ byte :: after)
      (hbefore : ∀ b ∈ before, Hex.IsDigitByte b) (hbyte : ¬ Hex.IsDigitByte byte) :
      Reading core (.error (.invalidKey ("seed is not hex: Invalid character " ++
        Text.quotedChar (Char.ofNat byte.toNat) ++ " at position " ++ toString before.length)))
  | wrongLength (heven : (Bytes.ofText core).length % 2 = 0)
      (hdigits : ∀ b ∈ Bytes.ofText core, Hex.IsDigitByte b)
      (hlength : (Bytes.ofText core).length ≠ 64) :
      Reading core (.error (.invalidKey "seed must be 32 bytes"))

variable {core text : String} {seed : Seed} {result : Except TokenError Seed}

theorem ofBytes?_bytes (seed : Seed) : ofBytes? seed.bytes = some seed := dif_pos seed.length_bytes

theorem ofBytes?_eq_none {b : Bytes} (h : b.length ≠ keyLength) : ofBytes? b = none := dif_neg h

theorem message_invalidCharacter (byte : UInt8) (index : Nat) :
    "seed is not hex: " ++ (Hex.Fault.invalidCharacter byte index).message =
      "seed is not hex: Invalid character " ++ Text.quotedChar (Char.ofNat byte.toNat) ++
        " at position " ++ toString index := by
  have hwords : "seed is not hex: " ++ "Invalid character " =
      "seed is not hex: Invalid character " := by decide +kernel
  have hassoc (a b c d e : String) : a ++ (b ++ c ++ d ++ e) = a ++ b ++ c ++ d ++ e := by
    simp only [String.append_assoc]
  exact (hassoc ..).trans (congrArg (· ++ _ ++ " at position " ++ toString index) hwords)

theorem Reading.ofText (hcore : Text.IsCore core text) (h : Reading core result) :
    Seed.ofText text = result := by
  unfold Seed.ofText
  rw [hcore.trim]
  cases h with
  | spelled h =>
    rw [(Hex.Reading.spelled h).decode]
    simp only [ofBytes?_bytes]
  | oddLength hodd =>
    rw [(Hex.Reading.oddLength hodd).decode]
    rfl
  | invalidCharacter heven h hbefore hbyte =>
    rw [(Hex.Reading.invalidCharacter heven h hbefore hbyte).decode]
    exact congrArg (fun words => Except.error (TokenError.invalidKey words))
      (message_invalidCharacter _ _)
  | wrongLength heven hdigits hlength =>
    rcases Hex.exists_spells_of_bytes heven hdigits with ⟨bytes, h⟩
    rw [h.length_ofText] at hlength
    have hbytes : ofBytes? bytes = none := ofBytes?_eq_none (by unfold keyLength; omega)
    rw [(Hex.Reading.spelled h).decode]
    simp only [hbytes]

theorem exists_reading (core : String) : ∃ result, Reading core result := by
  rcases Hex.exists_reading core with ⟨_, h⟩
  cases h with
  | @spelled bytes h =>
    by_cases hlength : bytes.length = keyLength
    · exact ⟨.ok ⟨bytes, hlength⟩, .spelled h⟩
    · have hbytes := h.length_ofText
      unfold keyLength at hlength
      exact ⟨_, .wrongLength (by omega) (Hex.forall_isDigitByte_iff.2 h.isDigit) (by omega)⟩
  | oddLength h => exact ⟨_, .oddLength h⟩
  | invalidCharacter heven h hbefore hbyte => exact ⟨_, .invalidCharacter heven h hbefore hbyte⟩

/-- Every text has one answer, which is that of the text without the white space around it. -/
theorem ofText_eq_iff :
    Seed.ofText text = result ↔ ∃ core, Text.IsCore core text ∧ Reading core result := by
  constructor
  · rintro rfl
    rcases exists_reading (Text.trim text) with ⟨result, h⟩
    have hcore := Text.isCore_trim text
    exact ⟨_, hcore, h.ofText hcore ▸ h⟩
  · rintro ⟨core, hcore, h⟩
    exact h.ofText hcore

/-- Digits are read from among white space. -/
theorem ofText_around {before digits after : String} (hbefore : Text.IsBlank before)
    (hafter : Text.IsBlank after) (h : Hex.Spells digits.toList seed.bytes) :
    Seed.ofText (before ++ digits ++ after) = .ok seed :=
  have htrimmed := Text.IsTrimmed.of_forall fun c hc => (h.isDigit c hc).not_blank
  (Reading.spelled h).ofText (htrimmed.isCore hbefore hafter)

theorem ofText_text (seed : Seed) : Seed.ofText seed.text = .ok seed := by
  have h : seed.text = "" ++ seed.text ++ "" := by rw [String.empty_append, String.append_empty]
  rw [h]
  exact ofText_around nofun nofun (Hex.spells_encode seed.bytes)

/-- The texts of seeds are those of 64 digits. -/
theorem exists_ofText_iff : (∃ seed, Seed.ofText text = .ok seed) ↔
    ∃ core, Text.IsCore core text ∧ core.length = 64 ∧ ∀ c ∈ core.toList, Hex.IsDigit c := by
  constructor
  · rintro ⟨seed, hseed⟩
    rcases ofText_eq_iff.1 hseed with ⟨core, hcore, h⟩
    cases h with
    | spelled h =>
      have hlength := h.length_eq
      rw [seed.length_bytes, String.length_toList] at hlength
      exact ⟨core, hcore, hlength, h.isDigit⟩
  · rintro ⟨core, hcore, hlength, hdigits⟩
    rw [← String.length_toList] at hlength
    rcases Hex.exists_spells (by omega) hdigits with ⟨bytes, h⟩
    have hbytes : bytes.length = keyLength := by
      have := h.length_eq
      unfold keyLength
      omega
    exact ⟨⟨bytes, hbytes⟩, ofText_eq_iff.2 ⟨core, hcore, .spelled h⟩⟩

end Ed25519.Seed

/-! ## 2. Files -/

namespace Command

open MemoryHost FileTree
open Ed25519 (Seed)

variable {s s' : MemoryHost} {root : FileTree} {path text : String} {seed : Seed}
  {fresh fresh' : StateM MemoryHost Seed}

theorem textOfBytes_ofText (text : String) : textOfBytes (Bytes.ofText text) = .ok text := by
  unfold textOfBytes
  rw [Bytes.toText?_ofText]

/-- A key file is loaded as what its text is read as. -/
theorem loadSigningKey_of_read (h : s.root.read path = .ok (Bytes.ofText text)) :
    s.exec (loadSigningKey (hostWith fresh) path) =
      ((Seed.ofText text).mapError .token, s) := by
  rw [loadSigningKey_of_isPresent (isPresent_of_read h), h]
  simp only [Except.bind, textOfBytes_ofText, Except.mapError]

theorem holdsKey_of_read (h : root.read path = .ok (Bytes.ofText seed.text)) :
    root.HoldsKey path seed :=
  ⟨_, seed.text, h, textOfBytes_ofText _, seed.ofText_text⟩

/-- A key that is loaded is in its file, or it is new and written to the file that was missing. -/
theorem loadSigningKey_eq_ok (h : s.exec (loadSigningKey (hostWith fresh) path) = (.ok seed, s')) :
    s' = s ∧ s.root.HoldsKey path seed ∨
      s.root.isPresent path = false ∧ (fresh s).1 = seed ∧
        s'.root.read path = .ok (Bytes.ofText seed.text) := by
  unfold loadSigningKey at h
  obtain ⟨present, t, hpresent, h⟩ := exec_bind_eq_ok h
  obtain ⟨rfl, rfl⟩ : s.root.isPresent path = present ∧ s = t := by
    cases hpresent
    exact ⟨rfl, rfl⟩
  cases hfile : s.root.isPresent path with
  | true =>
    simp only [hfile, if_true] at h
    obtain ⟨text, t, htext, h⟩ := exec_bind_eq_ok h
    have hread : ((s.root.read path).bind textOfBytes, s) = (.ok text, t) :=
      exec_attempt_eq_ok _ htext
    have hseed : (Seed.ofText text, t) = (.ok seed, s') := exec_attempt_eq_ok _ h
    simp only [Prod.mk.injEq] at hread hseed
    obtain ⟨hread, rfl⟩ := hread
    obtain ⟨hseed, rfl⟩ := hseed
    cases hbytes : s.root.read path with
    | error e => rw [hbytes] at hread; cases hread
    | ok bytes =>
      rw [hbytes] at hread
      exact .inl ⟨rfl, bytes, text, hbytes, hread, hseed⟩
  | false =>
    simp only [hfile, Bool.false_eq_true, if_false] at h
    obtain ⟨made, t, hmade, h⟩ := exec_bind_eq_ok h
    obtain ⟨_, furnished, -, h⟩ := exec_bind_eq_ok h
    obtain ⟨_, written, hwrite, h⟩ := exec_bind_eq_ok h
    have hfresh : (fresh s).1 = made := by
      cases hmade
      rfl
    cases h
    exact .inr ⟨rfl, hfresh, read_of_write (exec_attempt_eq_ok _ hwrite)⟩

/-- A key that was loaded is loaded again. -/
theorem loadSigningKey_again (h : s.exec (loadSigningKey (hostWith fresh) path) = (.ok seed, s')) :
    s'.exec (loadSigningKey (hostWith fresh') path) = (.ok seed, s') := by
  rcases loadSigningKey_eq_ok h with ⟨rfl, hkey⟩ | ⟨_, _, hread⟩
  · exact loadSigningKey_of_holds hkey
  · exact loadSigningKey_of_holds (holdsKey_of_read hread)

/-! ## 3. Keys that are kept as text -/

structure SigningKeysKeptAsText : Prop where
  /-- A text has one answer, by what is between the white space around it. -/
  answer (text : String) (result : Except TokenError Seed) :
    Seed.ofText text = result ↔
      ∃ core, Text.IsCore core text ∧ Seed.Reading core result
  /-- A key is what 64 digits spell. -/
  accepted (text : String) : (∃ seed, Seed.ofText text = .ok seed) ↔
    ∃ core, Text.IsCore core text ∧ core.length = 64 ∧ ∀ c ∈ core.toList, Hex.IsDigit c
  /-- The text of a seed spells it, and so do the same digits in another case. -/
  spelling (seed : Seed) (digits : String) :
    Hex.Spells digits.toList seed.bytes ↔ digits.toLower = seed.text
  /-- So the text of a seed is read as this seed, in any case and with white space around it. -/
  surrounded (seed : Seed) (before digits after : String) (hbefore : Text.IsBlank before)
    (hafter : Text.IsBlank after) (hdigits : digits.toLower = seed.text) :
    Seed.ofText (before ++ digits ++ after) = .ok seed
  /-- What is in a key file is read in this way, and nothing is changed. -/
  file (fresh : StateM MemoryHost Seed) (s : MemoryHost) (path text : String)
    (hfile : s.root.read path = .ok (Bytes.ofText text)) :
    s.exec (loadSigningKey (hostWith fresh) path) =
      ((Seed.ofText text).mapError .token, s)
  /-- A file that the text of a seed was written to is a key file with this seed. -/
  written (fresh : StateM MemoryHost Seed) (s s' : MemoryHost) (path : String)
    (seed : Seed)
    (hwrite : host.write path (Bytes.ofText seed.text) s = (.ok (), s')) :
    s'.exec (loadSigningKey (hostWith fresh) path) = (.ok seed, s')
  /-- A key that is made where there is none is new, and its text is in the file from then on. -/
  made (fresh : StateM MemoryHost Seed) (s s' : MemoryHost) (path : String)
    (seed : Seed) (habsent : s.root.isPresent path = false)
    (hload : s.exec (loadSigningKey (hostWith fresh) path) = (.ok seed, s')) :
    (fresh s).1 = seed ∧ s'.root.read path = .ok (Bytes.ofText seed.text)
  /-- A key that was found or made is found from then on. -/
  again (fresh fresh' : StateM MemoryHost Seed) (s s' : MemoryHost) (path : String)
    (seed : Seed)
    (hload : s.exec (loadSigningKey (hostWith fresh) path) = (.ok seed, s')) :
    s'.exec (loadSigningKey (hostWith fresh') path) = (.ok seed, s')

/-- Every seed has a text that is read back, from a file as well, and every other text is refused
for the first thing that is wrong with it. -/
theorem signingKeys_keptAsText : SigningKeysKeptAsText where
  answer _ _ := Seed.ofText_eq_iff
  accepted _ := Seed.exists_ofText_iff
  spelling _ _ := Hex.spells_iff_toLower
  surrounded _ _ _ _ hbefore hafter hdigits :=
    Seed.ofText_around hbefore hafter (Hex.spells_iff_toLower.2 hdigits)
  file _ _ _ _ hfile := loadSigningKey_of_read hfile
  written _ _ _ _ _ hwrite := loadSigningKey_of_holds (holdsKey_of_read (read_of_write hwrite))
  made fresh s s' path seed habsent hload := by
    rcases loadSigningKey_eq_ok hload with ⟨rfl, _, _, hread, _⟩ | ⟨_, hmade⟩
    · rw [isPresent_of_read hread] at habsent
      cases habsent
    · exact hmade
  again _ _ _ _ _ _ hload := loadSigningKey_again hload

/-- A key is made on a machine without files. -/
example (seed : Seed) :
    (({} : MemoryHost).exec (loadSigningKey (hostWith (pure seed)) "keys/om.key")).1 = .ok seed :=
  rfl

example : Seed.ofText "\tAb é\n" =
    .error (.invalidKey "seed is not hex: Odd number of digits") := by decide +kernel

example : Seed.ofText "\u00a0Abé\n" =
    .error (.invalidKey "seed is not hex: Invalid character 'Ã' at position 2") := by
  decide +kernel

end Command

end ObjectMeta
