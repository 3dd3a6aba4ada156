import ObjectMeta.Proofs.Bytes
import ObjectMeta.Proofs.Path
import ObjectMeta.Proofs.Reader
import ObjectMeta.Record.Codec

/-!
# The layout of stored records

A stored type is lawful when its reader accepts exactly the encodings of the values that fit
(`LawfulStored`): those whose texts and lists are short enough for their 64-bit counts.  All records
are lawful, field by field, so what was written is read back (`Stored.decode_encode`) and nothing
else reads as it.
-/

namespace ObjectMeta

open Reader

/-- Stored values that are read back from their encodings, and from nothing else, if they fit. -/
class LawfulStored (α : Type) [Stored α] where
  /-- The value is short enough for the counts in its encoding. -/
  fits : α → Prop
  accepts : (Stored.read : Reader CodecError α).Accepts fun a used =>
    fits a ∧ used = Stored.encode a

namespace Stored

variable {α β : Type}

/-! ## 1. What lawful types give -/

theorem decode_eq_ok_iff [Stored α] [LawfulStored α] {a : α} {b : Bytes} :
    decode α b = .ok a ↔ LawfulStored.fits a ∧ ∃ rest, b = encode a ++ rest := by
  have hread := LawfulStored.accepts (α := α) b a
  show Except.map Prod.fst ((read : Reader CodecError α) b) = _ ↔ _
  constructor
  · intro h
    cases hb : (read : Reader CodecError α) b with
    | error e => rw [hb] at h; cases h
    | ok p =>
      rw [hb] at h
      cases h
      obtain ⟨_, ⟨ha, rfl⟩, hrest⟩ := (hread p.2).1 hb
      exact ⟨ha, p.2, hrest⟩
  · rintro ⟨ha, rest, hrest⟩
    rw [(hread rest).2 ⟨_, ⟨ha, rfl⟩, hrest⟩]
    rfl

theorem decode_encode [Stored α] [LawfulStored α] {a : α} (h : LawfulStored.fits a) :
    decode α (encode a) = .ok a :=
  decode_eq_ok_iff.2 ⟨h, [], (List.append_nil _).symm⟩

/-- Of two values that fit, the encoding of one is no proper beginning of that of the other. -/
theorem encode_append_inj [Stored α] [LawfulStored α] {a a' : α} (h : LawfulStored.fits a)
    (h' : LawfulStored.fits a') {rest rest' : Bytes}
    (he : encode a ++ rest = encode a' ++ rest') : a = a' ∧ rest = rest' := by
  have hread := LawfulStored.accepts.read_append ⟨h, rfl⟩ rest
  rw [he, LawfulStored.accepts.read_append ⟨h', rfl⟩ rest'] at hread
  exact (Prod.mk.inj (Except.ok.inj hread)).imp Eq.symm Eq.symm

/-- Reading a field and then the rest. -/
theorem accepts_field [Stored α] [LawfulStored α] {f : α → Reader CodecError β}
    {layout : α → β → Bytes → Prop} (hf : ∀ a, (f a).Accepts (layout a)) :
    ((read : Reader CodecError α) >>= f).Accepts fun c used =>
      ∃ a, LawfulStored.fits a ∧ ∃ rest, layout a c rest ∧ used = encode a ++ rest := by
  refine (LawfulStored.accepts.bind hf).congr fun c used => ?_
  constructor
  · rintro ⟨a, _, rest, ⟨ha, rfl⟩, hrest, rfl⟩
    exact ⟨a, ha, rest, hrest, rfl⟩
  · rintro ⟨a, ha, rest, hrest, rfl⟩
    exact ⟨a, _, rest, ⟨ha, rfl⟩, hrest, rfl⟩

/-! ## 2. Numbers -/

theorem accepts_readNat (width : Nat) :
    (readNat width).Accepts fun n used => n < 256 ^ width ∧ used = Bytes.leBytes width n := by
  refine ((accepts_take width _).bind fun raw => accepts_pure (Bytes.leNat raw)).congr
    fun n used => ?_
  constructor
  · rintro ⟨raw, _, _, ⟨rfl, hlen⟩, ⟨rfl, rfl⟩, rfl⟩
    refine ⟨hlen ▸ Bytes.leNat_lt raw, ?_⟩
    rw [List.append_nil, ← hlen, Bytes.leBytes_leNat]
  · rintro ⟨hlt, rfl⟩
    refine ⟨_, _, [], ⟨rfl, Bytes.length_leBytes width n⟩, ⟨?_, rfl⟩, (List.append_nil _).symm⟩
    rw [Bytes.leNat_leBytes, Nat.mod_eq_of_lt hlt]

/-- Reading a number and then what depends on it. -/
theorem accepts_number {width : Nat} {f : Nat → Reader CodecError β}
    {layout : Nat → β → Bytes → Prop} (hf : ∀ n, (f n).Accepts (layout n)) :
    (readNat width >>= f).Accepts fun c used =>
      ∃ n, n < 256 ^ width ∧ ∃ rest, layout n c rest ∧ used = Bytes.leBytes width n ++ rest := by
  refine ((accepts_readNat width).bind hf).congr fun c used => ?_
  constructor
  · rintro ⟨n, _, rest, ⟨hn, rfl⟩, hrest, rfl⟩
    exact ⟨n, hn, rest, hrest, rfl⟩
  · rintro ⟨n, hn, rest, hrest, rfl⟩
    exact ⟨n, _, rest, ⟨hn, rfl⟩, hrest, rfl⟩

instance : LawfulStored UInt64 where
  fits _ := True
  accepts := by
    refine (accepts_number fun n => accepts_pure (UInt64.ofNat n)).congr fun i used => ?_
    constructor
    · rintro ⟨n, hn, _, ⟨rfl, rfl⟩, rfl⟩
      have hval : (UInt64.ofNat n).toNat = n := Nat.mod_eq_of_lt hn
      refine ⟨trivial, ?_⟩
      show Bytes.leBytes 8 n ++ [] = Bytes.leBytes 8 (UInt64.ofNat n).toNat
      rw [List.append_nil, hval]
    · rintro ⟨-, rfl⟩
      exact ⟨i.toNat, i.toNat_lt, [], ⟨UInt64.ofNat_toNat.symm, rfl⟩, (List.append_nil _).symm⟩

instance : LawfulStored Int64 where
  fits _ := True
  accepts := by
    refine (accepts_number fun n => accepts_pure (Bytes.signed n)).congr fun i used => ?_
    constructor
    · rintro ⟨n, hn, _, ⟨rfl, rfl⟩, rfl⟩
      refine ⟨trivial, ?_⟩
      -- signed or not, the same eight bytes
      show Bytes.leBytes 8 n ++ [] = Bytes.leBytes 8 (Bytes.bits (Bytes.signed n))
      rw [List.append_nil, Bytes.bits_signed hn]
    · rintro ⟨-, rfl⟩
      exact ⟨Bytes.bits i, Bytes.bits_lt i, [], ⟨(Bytes.signed_bits i).symm, rfl⟩,
        (List.append_nil _).symm⟩

instance : LawfulStored UInt8 where
  fits _ := True
  accepts := by
    refine (accepts_number fun n => accepts_pure (UInt8.ofNat n)).congr fun b used => ?_
    constructor
    · rintro ⟨n, hn, _, ⟨rfl, rfl⟩, rfl⟩
      exact ⟨trivial, List.append_nil _⟩
    · rintro ⟨-, rfl⟩
      refine ⟨b.toNat, b.toNat_lt, [], ⟨UInt8.ofNat_toNat.symm, rfl⟩, ?_⟩
      show [b] = [UInt8.ofNat b.toNat] ++ []
      rw [UInt8.ofNat_toNat]
      rfl

/-! ## 3. Texts, lists, options and alternatives -/

/-- The content of a text, once it is cut out, has to be UTF-8. -/
theorem accepts_utf8 (raw : Bytes) :
    (match Utf8.decode raw with
      | .ok s => return s
      | .error fault => Reader.fail (.notUtf8 fault) : Reader CodecError String).Accepts
      fun s used => raw = Bytes.ofText s ∧ used = [] := by
  cases hd : Utf8.decode raw with
  | error fault =>
    refine (accepts_fail _).congr fun s used => ⟨False.elim, fun h => ?_⟩
    rw [Utf8.decode_eq_ok_iff.2 h.1] at hd
    cases hd
  | ok text =>
    have htext := Utf8.decode_eq_ok_iff.1 hd
    refine (accepts_pure text).congr fun s used => and_congr_left fun _ => ?_
    constructor
    · rintro rfl
      exact htext
    · intro hs
      rw [Utf8.decode_eq_ok_iff.2 hs] at hd
      exact Except.ok.inj hd

instance : LawfulStored String where
  fits s := (Bytes.ofText s).length < 256 ^ 8
  accepts := by
    -- Once the length is known, that many bytes are cut out.
    refine (accepts_number fun n => (accepts_take n _).bind accepts_utf8).congr fun s used => ?_
    constructor
    · rintro ⟨n, hn, _, ⟨raw, _, _, ⟨rfl, hlen⟩, ⟨hs, rfl⟩, rfl⟩, rfl⟩
      rw [← hlen, hs] at hn
      refine ⟨hn, ?_⟩
      rw [List.append_nil, ← hlen, hs]
      rfl
    · rintro ⟨hn, rfl⟩
      exact ⟨_, hn, _, ⟨_, _, [], ⟨rfl, rfl⟩, ⟨rfl, rfl⟩, (List.append_nil _).symm⟩, rfl⟩

instance [Stored α] [LawfulStored α] : LawfulStored (List α) where
  fits l := l.length < 256 ^ 8 ∧ ∀ a ∈ l, LawfulStored.fits a
  accepts := by
    refine (accepts_number fun n => LawfulStored.accepts.times n).congr fun l used => ?_
    constructor
    · rintro ⟨_, hn, _, ⟨rfl, hl, rfl⟩, rfl⟩
      exact ⟨⟨hn, hl⟩, rfl⟩
    · rintro ⟨⟨hn, hl⟩, rfl⟩
      exact ⟨_, hn, _, ⟨rfl, hl, rfl⟩, rfl⟩

instance [Stored α] [LawfulStored α] : LawfulStored (Option α) where
  fits o := ∀ a ∈ o, LawfulStored.fits a
  accepts := by
    let layout (tag : Nat) (o : Option α) (used : Bytes) : Prop :=
      tag = 0 ∧ o = none ∧ used = [] ∨
        tag = 1 ∧ ∃ a, LawfulStored.fits a ∧ o = some a ∧ used = encode a
    -- Once the tag is known: nothing, the value, or a refusal.
    have hvalue : ∀ tag, (match tag with
        | 0 => return none
        | 1 => return some (← read)
        | tag => Reader.fail (.invalidTag tag) : Reader CodecError (Option α)).Accepts
        (layout tag) := by
      intro tag
      split
      · refine (accepts_pure none).congr fun o used => ?_
        simp [layout]
      · refine (accepts_field fun a => accepts_pure (some a)).congr fun o used => ?_
        simp only [layout, Nat.one_ne_zero, false_and, false_or, true_and]
        constructor
        · rintro ⟨a, ha, _, ⟨rfl, rfl⟩, rfl⟩
          exact ⟨a, ha, rfl, List.append_nil _⟩
        · rintro ⟨a, ha, rfl, rfl⟩
          exact ⟨a, ha, [], ⟨rfl, rfl⟩, (List.append_nil _).symm⟩
      · next h0 h1 =>
        refine (accepts_fail _).congr fun o used => ⟨False.elim, ?_⟩
        rintro (⟨h, -⟩ | ⟨h, -⟩)
        · exact h0 h
        · exact h1 h
    refine (accepts_number hvalue).congr fun o used => ?_
    constructor
    · rintro ⟨_, -, _, ⟨rfl, rfl, rfl⟩ | ⟨rfl, a, ha, rfl, rfl⟩, rfl⟩
      · exact ⟨fun _ h => absurd h (Option.not_mem_none _), rfl⟩
      · exact ⟨fun _ h => Option.some.inj h ▸ ha, rfl⟩
    · rintro ⟨ho, rfl⟩
      cases o with
      | none => exact ⟨0, by decide, [], .inl ⟨rfl, rfl, rfl⟩, rfl⟩
      | some a => exact ⟨1, by decide, _, .inr ⟨rfl, a, ho a rfl, rfl, rfl⟩, rfl⟩

def variantOfType : ReplicationType → Nat
  | .standAlone => 0
  | .ratis => 1
  | .chained => 2

def variantOfFactor : ReplicationFactor → Nat
  | .one => 0
  | .three => 1

/-- Reading the number of an alternative, when each alternative has its own. -/
theorem accepts_variant (variant : α → Nat) {f : Nat → Reader CodecError α}
    (hf : ∀ n, (f n).Accepts fun a used => variant a = n ∧ used = []) :
    (readNat 4 >>= f).Accepts fun a used =>
      variant a < 256 ^ 4 ∧ used = Bytes.leBytes 4 (variant a) := by
  refine (accepts_number hf).congr fun a used => ?_
  constructor
  · rintro ⟨_, hn, _, ⟨rfl, rfl⟩, rfl⟩
    exact ⟨hn, List.append_nil _⟩
  · rintro ⟨hn, rfl⟩
    exact ⟨_, hn, [], ⟨rfl, rfl⟩, (List.append_nil _).symm⟩

instance : LawfulStored ReplicationType where
  fits _ := True
  accepts := by
    refine (accepts_variant variantOfType fun n => ?_).congr fun t used => ?_
    · split
      · exact (accepts_pure _).congr fun t used => by cases t <;> simp [variantOfType]
      · exact (accepts_pure _).congr fun t used => by cases t <;> simp [variantOfType]
      · exact (accepts_pure _).congr fun t used => by cases t <;> simp [variantOfType]
      · next h0 h1 h2 =>
        -- no replication type has this number
        refine (accepts_fail _).congr fun t used => ⟨False.elim, fun h => ?_⟩
        cases t
        · exact h0 h.1.symm
        · exact h1 h.1.symm
        · exact h2 h.1.symm
    · cases t
      · exact and_congr_left fun _ => by decide
      · exact and_congr_left fun _ => by decide
      · exact and_congr_left fun _ => by decide

instance : LawfulStored ReplicationFactor where
  fits _ := True
  accepts := by
    refine (accepts_variant variantOfFactor fun n => ?_).congr fun t used => ?_
    · split
      · exact (accepts_pure _).congr fun t used => by cases t <;> simp [variantOfFactor]
      · exact (accepts_pure _).congr fun t used => by cases t <;> simp [variantOfFactor]
      · next h0 h1 =>
        refine (accepts_fail _).congr fun t used => ⟨False.elim, fun h => ?_⟩
        cases t
        · exact h0 h.1.symm
        · exact h1 h.1.symm
    · cases t
      · exact and_congr_left fun _ => by decide
      · exact and_congr_left fun _ => by decide

/-! ## 4. Records -/

instance : LawfulStored BlockToken where
  fits token := LawfulStored.fits token.identifier ∧ LawfulStored.fits token.signature
  accepts := by
    refine (accepts_field fun identifier => accepts_field fun signature =>
      accepts_pure (BlockToken.mk identifier signature)).congr fun token used => ?_
    constructor
    · rintro ⟨_, hi, _, ⟨_, hs, _, ⟨rfl, rfl⟩, rfl⟩, rfl⟩
      exact ⟨⟨hi, hs⟩, by rw [List.append_nil]; rfl⟩
    · rintro ⟨⟨hi, hs⟩, rfl⟩
      exact ⟨_, hi, _, ⟨_, hs, [], ⟨rfl, rfl⟩, rfl⟩, by rw [List.append_nil]; rfl⟩

instance : LawfulStored BlockId where
  fits _ := True
  accepts := by
    refine (accepts_field fun container => accepts_field fun localId =>
      accepts_pure (BlockId.mk container localId)).congr fun id used => ?_
    constructor
    · rintro ⟨_, -, _, ⟨_, -, _, ⟨rfl, rfl⟩, rfl⟩, rfl⟩
      exact ⟨trivial, by rw [List.append_nil]; rfl⟩
    · rintro ⟨-, rfl⟩
      exact ⟨_, trivial, _, ⟨_, trivial, [], ⟨rfl, rfl⟩, rfl⟩, by rw [List.append_nil]; rfl⟩

instance : LawfulStored BlockLocation where
  fits location := LawfulStored.fits location.token
  accepts := by
    refine (accepts_field fun block => accepts_field fun offset => accepts_field fun length =>
      accepts_field fun token => accepts_pure (BlockLocation.mk block offset length token)).congr
      fun location used => ?_
    constructor
    · rintro ⟨_, -, _, ⟨_, -, _, ⟨_, -, _, ⟨_, ht, _, ⟨rfl, rfl⟩, rfl⟩, rfl⟩, rfl⟩, rfl⟩
      exact ⟨ht, by simp only [List.append_nil, ← List.append_assoc]; rfl⟩
    · rintro ⟨ht, rfl⟩
      refine ⟨_, trivial, _, ⟨_, trivial, _, ⟨_, trivial, _, ⟨_, ht, [], ⟨rfl, rfl⟩, rfl⟩, rfl⟩,
        rfl⟩, ?_⟩
      simp only [List.append_nil, ← List.append_assoc]
      rfl

instance : LawfulStored LocationVersion where
  fits version := LawfulStored.fits version.locations
  accepts := by
    refine (accepts_field fun number => accepts_field fun locations =>
      accepts_pure (LocationVersion.mk number locations)).congr fun version used => ?_
    constructor
    · rintro ⟨_, -, _, ⟨_, hl, _, ⟨rfl, rfl⟩, rfl⟩, rfl⟩
      exact ⟨hl, by rw [List.append_nil]; rfl⟩
    · rintro ⟨hl, rfl⟩
      exact ⟨_, trivial, _, ⟨_, hl, [], ⟨rfl, rfl⟩, rfl⟩, by rw [List.append_nil]; rfl⟩

instance : LawfulStored VolumeInfo where
  fits info := LawfulStored.fits info.name ∧ LawfulStored.fits info.owner
  accepts := by
    refine (accepts_field fun name => accepts_field fun owner => accepts_field fun creationTime =>
      accepts_pure (VolumeInfo.mk name owner creationTime)).congr fun info used => ?_
    constructor
    · rintro ⟨_, hn, _, ⟨_, ho, _, ⟨_, -, _, ⟨rfl, rfl⟩, rfl⟩, rfl⟩, rfl⟩
      exact ⟨⟨hn, ho⟩, by simp only [List.append_nil, ← List.append_assoc]; rfl⟩
    · rintro ⟨⟨hn, ho⟩, rfl⟩
      refine ⟨_, hn, _, ⟨_, ho, _, ⟨_, trivial, [], ⟨rfl, rfl⟩, rfl⟩, rfl⟩, ?_⟩
      simp only [List.append_nil, ← List.append_assoc]
      rfl

instance : LawfulStored BucketInfo where
  fits info := LawfulStored.fits info.volume ∧ LawfulStored.fits info.name
  accepts := by
    refine (accepts_field fun volume => accepts_field fun name => accepts_field fun creationTime =>
      accepts_pure (BucketInfo.mk volume name creationTime)).congr fun info used => ?_
    constructor
    · rintro ⟨_, hv, _, ⟨_, hn, _, ⟨_, -, _, ⟨rfl, rfl⟩, rfl⟩, rfl⟩, rfl⟩
      exact ⟨⟨hv, hn⟩, by simp only [List.append_nil, ← List.append_assoc]; rfl⟩
    · rintro ⟨⟨hv, hn⟩, rfl⟩
      refine ⟨_, hv, _, ⟨_, hn, _, ⟨_, trivial, [], ⟨rfl, rfl⟩, rfl⟩, rfl⟩, ?_⟩
      simp only [List.append_nil, ← List.append_assoc]
      rfl

instance : LawfulStored KeyRecord where
  fits record := LawfulStored.fits record.volume ∧ LawfulStored.fits record.bucket ∧
    LawfulStored.fits record.key ∧ LawfulStored.fits record.versions
  accepts := by
    refine (accepts_field fun volume => accepts_field fun bucket => accepts_field fun key =>
      accepts_field fun dataSize => accepts_field fun creationTime =>
      accepts_field fun modificationTime => accepts_field fun replicationType =>
      accepts_field fun replicationFactor => accepts_field fun versions =>
      accepts_pure (KeyRecord.mk volume bucket key dataSize creationTime modificationTime
        replicationType replicationFactor versions)).congr fun record used => ?_
    constructor
    · rintro ⟨_, hv, _, ⟨_, hb, _, ⟨_, hk, _, ⟨_, -, _, ⟨_, -, _, ⟨_, -, _, ⟨_, -, _, ⟨_, -, _, ⟨_,
        hl, _, ⟨rfl, rfl⟩, rfl⟩, rfl⟩, rfl⟩, rfl⟩, rfl⟩, rfl⟩, rfl⟩, rfl⟩, rfl⟩
      exact ⟨⟨hv, hb, hk, hl⟩, by simp only [List.append_nil, ← List.append_assoc]; rfl⟩
    · rintro ⟨⟨hv, hb, hk, hl⟩, rfl⟩
      refine ⟨_, hv, _, ⟨_, hb, _, ⟨_, hk, _, ⟨_, trivial, _, ⟨_, trivial, _, ⟨_, trivial, _, ⟨_,
        trivial, _, ⟨_, trivial, _, ⟨_, hl, [], ⟨rfl, rfl⟩, rfl⟩, rfl⟩, rfl⟩, rfl⟩, rfl⟩, rfl⟩,
        rfl⟩, rfl⟩, ?_⟩
      simp only [List.append_nil, ← List.append_assoc]
      rfl

/-- Whatever a written record is read back as, all but its versions is what was written, if the names
are short enough, and its versions are read from where the versions were written. -/
theorem header_of_decode_encode {record found : KeyRecord} (hv : LawfulStored.fits record.volume)
    (hb : LawfulStored.fits record.bucket) (hk : LawfulStored.fits record.key)
    (h : decode KeyRecord (encode record) = .ok found) :
    found = { record with versions := found.versions } ∧
      ∃ rest, encode record.versions = encode found.versions ++ rest := by
  obtain ⟨hfound, rest, he⟩ := decode_eq_ok_iff.1 h
  have hform : ∀ r : KeyRecord, encode r = encode r.volume ++ (encode r.bucket ++ (encode r.key ++
      (encode r.dataSize ++ (encode r.creationTime ++ (encode r.modificationTime ++
        (encode r.replicationType ++ (encode r.replicationFactor ++ encode r.versions))))))) := by
    intro r
    simp only [← List.append_assoc]
    rfl
  -- The names come first, so they are told apart before any count that may be off.
  rw [hform record, hform found] at he
  simp only [List.append_assoc] at he
  obtain ⟨hvolume, he⟩ := encode_append_inj hv hfound.1 he
  obtain ⟨hbucket, he⟩ := encode_append_inj hb hfound.2.1 he
  obtain ⟨hkey, he⟩ := encode_append_inj hk hfound.2.2.1 he
  -- what stands between names and versions is of fixed length
  obtain ⟨hsize, he⟩ := encode_append_inj (a := record.dataSize) trivial trivial he
  obtain ⟨hcreated, he⟩ := encode_append_inj (a := record.creationTime) trivial trivial he
  obtain ⟨hmodified, he⟩ := encode_append_inj (a := record.modificationTime) trivial trivial he
  obtain ⟨htype, he⟩ := encode_append_inj (a := record.replicationType) trivial trivial he
  obtain ⟨hfactor, he⟩ := encode_append_inj (a := record.replicationFactor) trivial trivial he
  refine ⟨?_, rest, he⟩
  rw [hvolume, hbucket, hkey, hsize, hcreated, hmodified, htype, hfactor]

theorem names_of_decode_encode {record found : KeyRecord} (hv : LawfulStored.fits record.volume)
    (hb : LawfulStored.fits record.bucket) (hk : LawfulStored.fits record.key)
    (h : decode KeyRecord (encode record) = .ok found) :
    found.volume = record.volume ∧ found.bucket = record.bucket ∧ found.key = record.key := by
  rw [(header_of_decode_encode hv hb hk h).1]
  exact ⟨rfl, rfl, rfl⟩

/-- A record with one version is read back with one of the same number, even where blocks or tokens
were too many. -/
theorem version_of_decode_encode {record found : KeyRecord} {version : LocationVersion}
    (hv : LawfulStored.fits record.volume) (hb : LawfulStored.fits record.bucket)
    (hk : LawfulStored.fits record.key) (hversions : record.versions = [version])
    (h : decode KeyRecord (encode record) = .ok found) :
    ∃ version', found.versions = [version'] ∧ version'.number = version.number := by
  obtain ⟨-, rest, he⟩ := header_of_decode_encode hv hb hk h
  obtain ⟨-, -, -, hfits⟩ : LawfulStored.fits found := (decode_eq_ok_iff.1 h).1
  have hcount : ∀ versions : List LocationVersion,
      encode versions = Bytes.leBytes 8 versions.length ++ versions.flatMap encode := fun _ => rfl
  have hversion : ∀ v : LocationVersion, encode v = encode v.number ++ encode v.locations :=
    fun _ => rfl
  rw [hversions, hcount, hcount, List.append_assoc] at he
  obtain ⟨hlength, he⟩ := List.append_inj he (by rw [Bytes.length_leBytes, Bytes.length_leBytes])
  -- the count of versions comes first, then the number of the only one
  have hone : found.versions.length = 1 := by
    have hnat := congrArg Bytes.leNat hlength
    rw [Bytes.leNat_leBytes, Bytes.leNat_leBytes, Nat.mod_eq_of_lt hfits.1] at hnat
    exact hnat.symm
  obtain ⟨version', hversion'⟩ := List.length_eq_one_iff.1 hone
  rw [hversion', List.flatMap_singleton, List.flatMap_singleton, hversion, hversion,
    List.append_assoc] at he
  obtain ⟨hnumber, -⟩ := encode_append_inj (a := version.number) trivial trivial he
  exact ⟨version', hversion', hnumber.symm⟩

end Stored

end ObjectMeta
