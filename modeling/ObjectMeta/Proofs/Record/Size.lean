import ObjectMeta.Proofs.Record.Layout

/-!
# How long records are

No encoding is empty, so a list in a record is no longer than the bytes of the record, and a text is
no longer either.  A record that is written in fewer bytes than a 64-bit count can count is therefore
read back as it was, whatever is in it (`Stored.decode_encode_of_short`).
-/

namespace ObjectMeta

/-- Stored values with encodings that are not empty, and that fit if these are short enough. -/
class SizedStored (α : Type) [Stored α] [LawfulStored α] : Prop where
  length_pos (a : α) : 0 < (Stored.encode a).length
  fits_of_length {a : α} (h : (Stored.encode a).length < 256 ^ 8) : LawfulStored.fits a

namespace Stored

variable {α : Type} [Stored α] [LawfulStored α] [SizedStored α]

theorem decode_encode_of_short {a : α} (h : (encode a).length < 256 ^ 8) :
    decode α (encode a) = .ok a :=
  decode_encode (SizedStored.fits_of_length h)

/-! ## 1. Numbers, texts, lists and options -/

instance : SizedStored UInt8 where
  length_pos _ := Nat.one_pos
  fits_of_length _ := trivial

theorem length_encode_uint64 (n : UInt64) : (encode n).length = 8 := Bytes.length_leBytes 8 _

theorem length_encode_int64 (i : Int64) : (encode i).length = 8 := Bytes.length_leBytes 8 _

theorem length_encode_string (s : String) :
    (encode s).length = 8 + (Bytes.ofText s).length := by
  have hencode : encode s = Bytes.leBytes 8 (Bytes.ofText s).length ++ Bytes.ofText s := rfl
  rw [hencode, List.length_append, Bytes.length_leBytes]

instance : SizedStored String where
  length_pos s := by
    rw [length_encode_string]
    omega
  fits_of_length {s} h := by
    rw [length_encode_string] at h
    show (Bytes.ofText s).length < 256 ^ 8
    omega

omit [LawfulStored α] [SizedStored α] in
theorem length_encode_list (l : List α) :
    (encode l).length = 8 + (l.flatMap encode).length := by
  have hencode : encode l = Bytes.leBytes 8 l.length ++ l.flatMap encode := rfl
  rw [hencode, List.length_append, Bytes.length_leBytes]

/-- A list is no longer than the bytes of its values, and none of these is longer either. -/
theorem length_le_flatMap_encode (l : List α) : l.length ≤ (l.flatMap encode).length ∧
    ∀ a ∈ l, (encode a).length ≤ (l.flatMap encode).length := by
  induction l with
  | nil => exact ⟨Nat.le_refl 0, fun _ ha => absurd ha List.not_mem_nil⟩
  | cons a rest ih =>
    have hpos := SizedStored.length_pos a
    rw [List.flatMap_cons, List.length_append, List.length_cons]
    constructor
    · have hrest := ih.1
      omega
    · intro a' ha'
      rcases List.mem_cons.1 ha' with rfl | ha'
      · exact Nat.le_add_right ..
      · have hrest := ih.2 a' ha'
        omega

instance : SizedStored (List α) where
  length_pos l := by
    rw [length_encode_list]
    omega
  fits_of_length {l} h := by
    rw [length_encode_list] at h
    have ⟨hlength, hvalues⟩ := length_le_flatMap_encode l
    have hcount : l.length < 256 ^ 8 := by omega
    refine ⟨hcount, fun a ha => SizedStored.fits_of_length ?_⟩
    have hvalue := hvalues a ha
    omega

instance : SizedStored (Option α) where
  length_pos o := by
    cases o with
    | none => exact Nat.one_pos
    | some a => exact Nat.succ_pos _
  fits_of_length {o} h := by
    intro a ha
    rw [ha] at h
    have hencode : (encode (some a)).length = (encode a).length + 1 := rfl
    rw [hencode] at h
    exact SizedStored.fits_of_length (by omega)

/-! ## 2. Records -/

theorem length_encode_token (token : BlockToken) : (encode token).length =
    (encode token.identifier).length + (encode token.signature).length :=
  List.length_append

instance : SizedStored BlockToken where
  length_pos token := by
    have hpos := SizedStored.length_pos token.identifier
    rw [length_encode_token]
    omega
  fits_of_length {token} h := by
    rw [length_encode_token] at h
    exact ⟨SizedStored.fits_of_length (by omega), SizedStored.fits_of_length (by omega)⟩

theorem length_encode_location (location : BlockLocation) :
    (encode location).length = 32 + (encode location.token).length := by
  have hencode : encode location = encode location.block.container ++
      encode location.block.localId ++ encode location.offset ++ encode location.length ++
      encode location.token := rfl
  simp only [hencode, List.length_append, length_encode_int64]

instance : SizedStored BlockLocation where
  length_pos location := by
    rw [length_encode_location]
    omega
  fits_of_length {location} h := by
    rw [length_encode_location] at h
    show LawfulStored.fits location.token
    exact SizedStored.fits_of_length (by omega)

theorem length_encode_version (version : LocationVersion) :
    (encode version).length = 8 + (encode version.locations).length := by
  have hencode : encode version = encode version.number ++ encode version.locations := rfl
  rw [hencode, List.length_append, length_encode_uint64]

instance : SizedStored LocationVersion where
  length_pos version := by
    rw [length_encode_version]
    omega
  fits_of_length {version} h := by
    rw [length_encode_version] at h
    show LawfulStored.fits version.locations
    exact SizedStored.fits_of_length (by omega)

/-- The names and the versions of a key take part of its bytes. -/
theorem length_encode_record (record : KeyRecord) :
    (encode record.volume).length + (encode record.bucket).length + (encode record.key).length +
      (encode record.versions).length ≤ (encode record).length := by
  have hencode : encode record = encode record.volume ++ encode record.bucket ++
      encode record.key ++ encode record.dataSize ++ encode record.creationTime ++
      encode record.modificationTime ++ encode record.replicationType ++
      encode record.replicationFactor ++ encode record.versions := rfl
  simp only [hencode, List.length_append]
  omega

instance : SizedStored KeyRecord where
  length_pos record := by
    have hpos := SizedStored.length_pos record.volume
    have hlength := length_encode_record record
    omega
  fits_of_length {record} h := by
    have hlength := length_encode_record record
    exact ⟨SizedStored.fits_of_length (by omega), SizedStored.fits_of_length (by omega),
      SizedStored.fits_of_length (by omega), SizedStored.fits_of_length (by omega)⟩

end Stored

end ObjectMeta
