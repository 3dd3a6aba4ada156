import ObjectMeta.Proofs.Bytes
import ObjectMeta.Proofs.Reader
import ObjectMeta.Token.Identifier

/-!
# The layout of token identifiers

The layout as its readers know it: a field is a big-endian 32-bit length and that many bytes, a text
is a field of UTF-8, an integer a field of eight bytes.  Writing and reading are compared with this
layout and not with each other, so neither side can be lenient where the other is.
-/

namespace ObjectMeta

namespace TokenIdentifier

open Reader

/-! ## 1. The layout -/

/-- A byte string is the field with this content: four bytes that spell its length, then itself. -/
def IsField (content b : Bytes) : Prop :=
  ∃ length, length.length = 4 ∧ Bytes.beNat length = content.length ∧ b = length ++ content

/-- A byte string is the field of a signed integer: eight bytes, most significant first. -/
def IsIntField (i : Int64) (b : Bytes) : Prop :=
  ∃ content, content.length = 8 ∧ Bytes.signed (Bytes.beNat content) = i ∧ IsField content b

/-- A byte string is the layout of an identifier: the format byte 1 and seven fields, nothing
after. -/
def IsLayout (id : TokenIdentifier) (b : Bytes) : Prop :=
  ∃ kind owner container localId issueTime expiryTime maxLength,
    IsField (Bytes.ofText id.kind) kind ∧ IsField (Bytes.ofText id.owner) owner ∧
    IsIntField id.block.container container ∧ IsIntField id.block.localId localId ∧
    IsIntField id.issueTime issueTime ∧ IsIntField id.expiryTime expiryTime ∧
    IsIntField id.maxLength maxLength ∧
    b = 1 :: (kind ++ owner ++ container ++ localId ++ issueTime ++ expiryTime ++ maxLength)

/-- The texts of an identifier are short enough for their 32-bit lengths. -/
def Fits (id : TokenIdentifier) : Prop :=
  (Bytes.ofText id.kind).length < 2 ^ 32 ∧ (Bytes.ofText id.owner).length < 2 ^ 32

/-! ## 2. Writing -/

theorem isField_iff {content b : Bytes} :
    IsField content b ↔ content.length < 2 ^ 32 ∧ b = field content := by
  have hpow : 256 ^ 4 = 2 ^ 32 := by decide
  constructor
  · rintro ⟨length, hlen, hval, rfl⟩
    -- four bytes spell one length below 2 ^ 32, and they are how it is written
    have hlt := Bytes.beNat_lt length
    rw [hlen, hpow] at hlt
    have hform := Bytes.beBytes_beNat length
    rw [hlen, hval] at hform
    exact ⟨hval ▸ hlt, by rw [field, hform]⟩
  · rintro ⟨hlt, rfl⟩
    refine ⟨Bytes.beBytes 4 content.length, Bytes.length_beBytes _ _, ?_, rfl⟩
    rw [Bytes.beNat_beBytes, hpow, Nat.mod_eq_of_lt hlt]

theorem isIntField_iff {i : Int64} {b : Bytes} : IsIntField i b ↔ b = intField i := by
  constructor
  · rintro ⟨content, hlen, rfl, hfield⟩
    have hlt := Bytes.beNat_lt content
    rw [hlen] at hlt
    have hform := Bytes.beBytes_beNat content
    rw [hlen] at hform
    rw [(isField_iff.1 hfield).2, intField, Bytes.bits_signed hlt, hform]
  · rintro rfl
    have hbits := Bytes.bits_lt i
    refine ⟨Bytes.beBytes 8 (Bytes.bits i), Bytes.length_beBytes _ _, ?_, isField_iff.2 ⟨?_, rfl⟩⟩
    · rw [Bytes.beNat_beBytes, Nat.mod_eq_of_lt hbits, Bytes.signed_bits]
    · rw [Bytes.length_beBytes]
      decide

/-- What is written is the layout exactly when the texts are short enough; a longer one is written
behind a length that lost its high bits. -/
theorem isLayout_iff {id : TokenIdentifier} {b : Bytes} :
    id.IsLayout b ↔ id.Fits ∧ b = id.encode := by
  simp only [IsLayout, isField_iff, isIntField_iff]
  constructor
  · rintro ⟨_, _, _, _, _, _, _, ⟨hkind, rfl⟩, ⟨howner, rfl⟩, rfl, rfl, rfl, rfl, rfl, rfl⟩
    exact ⟨⟨hkind, howner⟩, rfl⟩
  · rintro ⟨⟨hkind, howner⟩, rfl⟩
    exact ⟨_, _, _, _, _, _, _, ⟨hkind, rfl⟩, ⟨howner, rfl⟩, rfl, rfl, rfl, rfl, rfl, rfl⟩

/-! ## 3. Reading -/

theorem accepts_readLength (part : Field) :
    (readLength part).Accepts fun n used => used.length = 4 ∧ Bytes.beNat used = n := by
  refine ((accepts_take 4 _).bind fun raw => accepts_pure _).congr fun n used => ?_
  constructor
  · rintro ⟨raw, first, _, ⟨rfl, hlen⟩, ⟨rfl, rfl⟩, rfl⟩
    rw [List.append_nil]
    exact ⟨hlen, rfl⟩
  · rintro ⟨hlen, rfl⟩
    exact ⟨used, used, [], ⟨rfl, hlen⟩, ⟨rfl, rfl⟩, (List.append_nil _).symm⟩

/-- The content of a field, once it is cut out, is a text or is refused. -/
theorem accepts_text (part : Field) (raw : Bytes) :
    (match Bytes.toText? raw with
      | some s => return s
      | none => Reader.fail (.notUtf8 part) : Reader Fault String).Accepts
      fun s used => raw = Bytes.ofText s ∧ used = [] := by
  cases hraw : Bytes.toText? raw with
  | none =>
    refine (accepts_fail _).congr fun s used => ⟨False.elim, fun h => ?_⟩
    rw [Bytes.toText?_eq_some_iff.2 h.1] at hraw
    cases hraw
  | some s =>
    refine (accepts_pure s).congr fun s' used => and_congr_left fun _ => ?_
    rw [← Bytes.toText?_eq_some_iff, hraw, Option.some_inj, eq_comm]

theorem accepts_readText (part : Field) :
    (readText part).Accepts fun s used => IsField (Bytes.ofText s) used := by
  refine ((accepts_readLength part).bind fun n =>
    (accepts_take n _).bind fun raw => accepts_text part raw).congr fun s used => ?_
  constructor
  · rintro ⟨n, length, _, ⟨hlen, rfl⟩, ⟨raw, _, _, ⟨rfl, hraw⟩, ⟨rfl, rfl⟩, rfl⟩, rfl⟩
    rw [List.append_nil]
    exact ⟨length, hlen, hraw.symm, rfl⟩
  · rintro ⟨length, hlen, hval, rfl⟩
    exact ⟨_, length, _, ⟨hlen, rfl⟩, ⟨_, _, [], ⟨rfl, hval.symm⟩, ⟨rfl, rfl⟩,
      (List.append_nil _).symm⟩, rfl⟩

theorem accepts_readInt (part : Field) : (readInt part).Accepts IsIntField := by
  have hread : readInt part = do
      let n ← readLength part
      if n ≠ 8 then Reader.fail (.wrongLength part n) else do
        return Bytes.signed (Bytes.beNat (← Reader.take 8 (.truncated part))) := rfl
  rw [hread]
  refine ((accepts_readLength part).bind fun n => Accepts.unless (n ≠ 8) _
    ((accepts_take 8 _).bind fun raw => accepts_pure _)).congr fun i used => ?_
  constructor
  · rintro ⟨n, length, _, ⟨hlen, hval⟩, ⟨hn, raw, _, _, ⟨rfl, hraw⟩, ⟨rfl, rfl⟩, rfl⟩, rfl⟩
    rw [List.append_nil]
    -- any other length was refused before the bytes were read
    exact ⟨raw, hraw, rfl, length, hlen, by rw [hval, hraw, Decidable.not_not.1 hn], rfl⟩
  · rintro ⟨content, hlen, rfl, length, hlength, hval, rfl⟩
    exact ⟨8, length, content, ⟨hlength, hval.trans hlen⟩,
      ⟨Decidable.not_not.2 rfl, content, content, [], ⟨rfl, hlen⟩, ⟨rfl, rfl⟩,
        (List.append_nil _).symm⟩, rfl⟩

theorem accepts_readVersion :
    readVersion.Accepts fun _ used => used = [formatVersion] := by
  intro b a rest
  obtain _ | ⟨version, b⟩ := b
  · simp [readVersion]
  · by_cases hv : version = formatVersion
    · simp [readVersion, hv]
    · simp [readVersion, hv]

/-- The reader of identifiers accepts the documented layout. -/
theorem accepts_read : read.Accepts IsLayout := by
  refine (accepts_readVersion.bind fun _ => (accepts_readText .kind).bind fun kind =>
    (accepts_readText .owner).bind fun owner =>
    (accepts_readInt .containerId).bind fun container =>
    (accepts_readInt .localId).bind fun localId =>
    (accepts_readInt .issueTime).bind fun issueTime =>
    (accepts_readInt .expiryTime).bind fun expiryTime =>
    (accepts_readInt .maxLength).bind fun maxLength => accepts_pure _).congr fun id used => ?_
  constructor
  · rintro ⟨_, _, _, rfl, ⟨kind, _, _, hkind, ⟨owner, _, _, howner, ⟨container, _, _, hcontainer,
      ⟨localId, _, _, hlocalId, ⟨issueTime, _, _, hissue, ⟨expiryTime, _, _, hexpiry,
      ⟨maxLength, _, _, hmax, ⟨rfl, rfl⟩, rfl⟩, rfl⟩, rfl⟩, rfl⟩, rfl⟩, rfl⟩, rfl⟩, rfl⟩
    refine ⟨_, _, _, _, _, _, _, hkind, howner, hcontainer, hlocalId, hissue, hexpiry, hmax, ?_⟩
    simp only [List.append_assoc, List.append_nil]
    rfl
  · rintro ⟨_, _, _, _, _, _, _, hkind, howner, hcontainer, hlocalId, hissue, hexpiry, hmax, rfl⟩
    refine ⟨(), _, _, rfl, ⟨_, _, _, hkind, ⟨_, _, _, howner, ⟨_, _, _, hcontainer,
      ⟨_, _, _, hlocalId, ⟨_, _, _, hissue, ⟨_, _, _, hexpiry, ⟨_, _, [], hmax, ⟨rfl, rfl⟩, rfl⟩,
      rfl⟩, rfl⟩, rfl⟩, rfl⟩, rfl⟩, rfl⟩, ?_⟩
    simp only [List.append_assoc, List.append_nil]
    rfl

/-- Decoding succeeds on the layout and on nothing else. -/
theorem decode_eq_ok_iff_isLayout {b : Bytes} {id : TokenIdentifier} :
    decode b = .ok id ↔ id.IsLayout b := by
  have hread := accepts_read b id []
  have hdecode : decode b = (read b).bind fun p =>
      if p.2.isEmpty then .ok p.1 else .error (.trailing p.2.length) := rfl
  constructor
  · intro h
    rw [hdecode] at h
    cases hb : read b with
    | error e => rw [hb] at h; cases h
    | ok p =>
      obtain ⟨id', rest⟩ := p
      rw [hb] at h
      simp only [Except.bind, List.isEmpty_iff] at h
      split at h
      next hrest =>
        -- all was read, so the layout is the whole byte string
        cases h
        obtain ⟨used, hused, heq⟩ := hread.1 (hrest ▸ hb)
        rwa [heq, List.append_nil]
      next => cases h
  · intro h
    rw [hdecode, hread.2 ⟨b, h, (List.append_nil b).symm⟩]
    rfl

/-! ## 4. One byte string for each identifier -/

/-- Identifiers and byte strings of the layout are in bijection.  Every identifier whose texts are
short enough comes back from its bytes and no other does; what is accepted is what would be
written, byte for byte. -/
theorem identifier_codec_bijective :
    (∀ id, decode id.encode = .ok id ↔ id.Fits) ∧
    (∀ b id, decode b = .ok id → id.encode = b) ∧
    (∀ b id, decode b = .ok id ↔ id.IsLayout b) ∧
    (∀ b id id', IsLayout id b → IsLayout id' b → id = id') ∧
    (∀ b b' id, decode b = .ok id → decode b' = .ok id → b = b') := by
  have hencode (b : Bytes) (id : TokenIdentifier) (h : decode b = .ok id) : id.encode = b :=
    (isLayout_iff.1 (decode_eq_ok_iff_isLayout.1 h)).2.symm
  refine ⟨fun id => ?_, hencode, fun b id => decode_eq_ok_iff_isLayout, ?_, ?_⟩
  · rw [decode_eq_ok_iff_isLayout, isLayout_iff]
    exact and_iff_left rfl
  · intro b id id' h h'
    have hdecode := decode_eq_ok_iff_isLayout.2 h
    rw [decode_eq_ok_iff_isLayout.2 h'] at hdecode
    exact (Except.ok.inj hdecode).symm
  · intro b b' id h h'
    rw [← hencode b id h, ← hencode b' id h']

/-- A small identifier, byte by byte: one-letter texts and integers at the end of their range. -/
theorem identifier_codec_small :
    decode ([1, 0, 0, 0, 1, 75, 0, 0, 0, 1, 111] ++
      [0, 0, 0, 8, 0, 0, 0, 0, 0, 0, 0, 1] ++
      [0, 0, 0, 8, 255, 255, 255, 255, 255, 255, 255, 254] ++
      [0, 0, 0, 8, 0, 0, 0, 0, 0, 0, 0, 3] ++ [0, 0, 0, 8, 128, 0, 0, 0, 0, 0, 0, 0] ++
      [0, 0, 0, 8, 0, 0, 0, 0, 0, 0, 0, 5]) =
    .ok ⟨"K", "o", ⟨1, -2⟩, 3, Int64.minValue, 5⟩ := by
  have hfits : Fits ⟨"K", "o", ⟨1, -2⟩, 3, Int64.minValue, 5⟩ := ⟨by decide, by decide⟩
  have hbytes : encode ⟨"K", "o", ⟨1, -2⟩, 3, Int64.minValue, 5⟩ =
      [1, 0, 0, 0, 1, 75, 0, 0, 0, 1, 111] ++
      [0, 0, 0, 8, 0, 0, 0, 0, 0, 0, 0, 1] ++
      [0, 0, 0, 8, 255, 255, 255, 255, 255, 255, 255, 254] ++
      [0, 0, 0, 8, 0, 0, 0, 0, 0, 0, 0, 3] ++ [0, 0, 0, 8, 128, 0, 0, 0, 0, 0, 0, 0] ++
      [0, 0, 0, 8, 0, 0, 0, 0, 0, 0, 0, 5] := by decide +kernel
  rw [← hbytes]
  exact (identifier_codec_bijective.1 _).2 hfits

end TokenIdentifier

end ObjectMeta
