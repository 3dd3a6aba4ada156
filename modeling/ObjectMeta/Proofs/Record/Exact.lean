import ObjectMeta.Proofs.Operation.Effects
import ObjectMeta.Proofs.Operation.Execution
import ObjectMeta.Proofs.Record.Layout
import ObjectMeta.Proofs.Store.Contents

/-!
# Records are read back exactly

The bytes of an entry read as a record if they begin with its encoding, and bytes that begin with
the encoding of no record are refused (`Stored.Exact`).  So a record that is written is read back as
it was, no two records share their bytes, and no entry that was cut short is taken for a record.
The only condition is that the 64-bit counts can count the texts and the lists.
-/

namespace ObjectMeta

/-! ## 1. Records that can be counted -/

/-- The bytes of the texts can be counted in 64 bits. -/
def VolumeInfo.Counted (info : VolumeInfo) : Prop :=
  (Bytes.ofText info.name).length < 2 ^ 64 ∧ (Bytes.ofText info.owner).length < 2 ^ 64

def BucketInfo.Counted (info : BucketInfo) : Prop :=
  (Bytes.ofText info.volume).length < 2 ^ 64 ∧ (Bytes.ofText info.name).length < 2 ^ 64

def LocationVersion.Counted (version : LocationVersion) : Prop :=
  version.locations.length < 2 ^ 64 ∧ ∀ location ∈ version.locations, ∀ token ∈ location.token,
    token.identifier.length < 2 ^ 64 ∧ token.signature.length < 2 ^ 64

def KeyRecord.Counted (record : KeyRecord) : Prop :=
  (Bytes.ofText record.volume).length < 2 ^ 64 ∧ (Bytes.ofText record.bucket).length < 2 ^ 64 ∧
    (Bytes.ofText record.key).length < 2 ^ 64 ∧ record.versions.length < 2 ^ 64 ∧
    ∀ version ∈ record.versions, version.Counted

namespace Stored

theorem fits_volume_iff (info : VolumeInfo) : LawfulStored.fits info ↔ info.Counted := Iff.rfl

theorem fits_bucket_iff (info : BucketInfo) : LawfulStored.fits info ↔ info.Counted := Iff.rfl

theorem fits_bytes_iff (b : Bytes) : LawfulStored.fits b ↔ b.length < 2 ^ 64 :=
  ⟨fun h => h.1, fun h => ⟨h, fun _ _ => trivial⟩⟩

theorem fits_version_iff (version : LocationVersion) :
    LawfulStored.fits version ↔ version.Counted := by
  have htoken : ∀ token : BlockToken, LawfulStored.fits token ↔
      token.identifier.length < 2 ^ 64 ∧ token.signature.length < 2 ^ 64 :=
    fun token => and_congr (fits_bytes_iff token.identifier) (fits_bytes_iff token.signature)
  refine and_congr Iff.rfl (forall₂_congr fun location _ => ?_)
  exact forall₂_congr fun token _ => htoken token

theorem fits_record_iff (record : KeyRecord) : LawfulStored.fits record ↔ record.Counted := by
  refine and_congr Iff.rfl (and_congr Iff.rfl (and_congr Iff.rfl (and_congr Iff.rfl ?_)))
  exact forall₂_congr fun version _ => fits_version_iff version

/-! ## 2. Exact reading -/

open Operation

/-- Bytes are read as a record exactly if they begin with its encoding, by themselves and where they
stand in a table. -/
structure Exact (α : Type) [Stored α] (counted : α → Prop) : Prop where
  /-- Bytes are read as a record if and only if they begin with its encoding. -/
  decode_iff : ∀ r, counted r → ∀ b, decode α b = .ok r ↔ encode r <+: b
  /-- What is read can be counted, so the rule above tells all that is ever read. -/
  counted_of_decode : ∀ b r, decode α b = .ok r → counted r
  /-- All other bytes are refused. -/
  refused : ∀ b, (∀ r, counted r → ¬encode r <+: b) → ∃ e, decode α b = .error e
  /-- An encoding that was cut short is refused. -/
  refused_of_cut : ∀ r, counted r → ∀ b, b <+: encode r → b ≠ encode r → ∃ e, decode α b = .error e
  /-- No two records have the same bytes. -/
  encode_inj : ∀ r r', counted r → counted r' → encode r = encode r' → r = r'
  /-- An operation that reads an entry gets the record that the bytes begin with. -/
  read_iff : ∀ {S : SignatureScheme} {A : AllocationService} {τ : Type} [DecidableEq τ] (t : τ)
    (w : World S A τ), w.store.faults = [] → ∀ table path b,
    w.store.store.get table path.tableKey = some b → ∀ r, counted r →
    (((getRecord α table path).run.runAlone t w).1 = .ok (some r) ↔ encode r <+: b)
  /-- It fails with a codec error if they begin with none, and the entry stays. -/
  read_refused : ∀ {S : SignatureScheme} {A : AllocationService} {τ : Type} [DecidableEq τ] (t : τ)
    (w : World S A τ), w.store.faults = [] → ∀ table path b,
    w.store.store.get table path.tableKey = some b → (∀ r, counted r → ¬encode r <+: b) →
    ∃ e, (getRecord α table path).run.runAlone t w = (.error (.codec e), w)
  /-- What was written last is read back. -/
  read_written : ∀ {S : SignatureScheme} {A : AllocationService} {τ : Type} [DecidableEq τ] (t : τ)
    (w : World S A τ), w.store.faults = [] → ∀ table path r, counted r →
    ((do putRecord table path r
         getRecord α table path : Operation (Option α)).run.runAlone t w).1 = .ok (some r)

section Lawful

variable {α : Type} [Stored α] [LawfulStored α]

theorem decode_iff_isPrefix {r : α} (h : LawfulStored.fits r) (b : Bytes) :
    decode α b = .ok r ↔ encode r <+: b := by
  rw [decode_eq_ok_iff, and_iff_right h]
  exact exists_congr fun rest => eq_comm

theorem exists_error_of_not_isPrefix {b : Bytes}
    (h : ∀ r : α, LawfulStored.fits r → ¬encode r <+: b) : ∃ e, decode α b = .error e := by
  cases hd : decode α b with
  | error e => exact ⟨e, rfl⟩
  | ok r =>
    have hfits := (decode_eq_ok_iff.1 hd).1
    exact absurd ((decode_iff_isPrefix hfits b).1 hd) (h r hfits)

theorem encode_inj_of_fits {r r' : α} (h : LawfulStored.fits r) (h' : LawfulStored.fits r')
    (he : encode r = encode r') : r = r' :=
  (encode_append_inj h h' (congrArg (· ++ []) he)).1

theorem not_isPrefix_of_cut {r r' : α} (h : LawfulStored.fits r) (h' : LawfulStored.fits r')
    {b : Bytes} (hb : b <+: encode r) (hne : b ≠ encode r) : ¬encode r' <+: b := by
  intro hb'
  -- the whole encoding would begin with the other one too, and be read as the other record
  have hr := (decode_iff_isPrefix h' _).2 (hb'.trans hb)
  rw [decode_encode h] at hr
  cases hr
  exact hne (hb.eq_of_length_le hb'.length_le)

variable {S : SignatureScheme} {A : AllocationService} {τ : Type} [DecidableEq τ] (t : τ)
  {w : World S A τ}

omit [LawfulStored α] in
/-- Reading an entry decodes its bytes and changes nothing. -/
theorem getRecord_runAlone (hw : w.store.faults = []) (table : Table) (path : ResourcePath) :
    (getRecord α table path).run.runAlone t w =
      (readRecord α (.ok (w.store.store.get table path.tableKey)), w) := by
  rw [run_eq_followedBy, getRecord_followedBy, Program.runAlone, World.perform_get hw]
  rfl

theorem putRecord_getRecord_runAlone (hw : w.store.faults = []) (table : Table)
    (path : ResourcePath) {r : α} (h : LawfulStored.fits r) :
    ((do putRecord table path r
         getRecord α table path : Operation (Option α)).run.runAlone t w).1 = .ok (some r) := by
  rw [run_eq_followedBy, bind_followedBy, putRecord_followedBy, Program.runAlone,
    World.perform_put hw]
  show (((getRecord α table path).followedBy .done).runAlone t _).1 = _
  rw [← run_eq_followedBy, getRecord_runAlone t rfl, Store.get_put, if_pos ⟨rfl, rfl⟩, readRecord,
    decode_encode h]
  rfl

omit [LawfulStored α] in
theorem readRecord_eq_ok_some_iff {b : Bytes} {r : α} :
    readRecord α (.ok (some b)) = .ok (some r) ↔ decode α b = .ok r := by
  rw [readRecord]
  cases decode α b with
  | error e =>
    constructor
    · intro h
      cases h
    · intro h
      cases h
  | ok found =>
    constructor
    · intro h
      cases h
      rfl
    · intro h
      cases h
      rfl

/-- What is stored lawfully is read exactly. -/
theorem exact_of_fits_iff {counted : α → Prop} (hfits : ∀ r, LawfulStored.fits r ↔ counted r) :
    Exact α counted where
  decode_iff r hr b := decode_iff_isPrefix ((hfits r).2 hr) b
  counted_of_decode b r hd := (hfits r).1 (decode_eq_ok_iff.1 hd).1
  refused b h := exists_error_of_not_isPrefix fun r hr => h r ((hfits r).1 hr)
  refused_of_cut r hr b hb hne := exists_error_of_not_isPrefix fun r' hr' =>
    not_isPrefix_of_cut ((hfits r).2 hr) hr' hb hne
  encode_inj r r' hr hr' := encode_inj_of_fits ((hfits r).2 hr) ((hfits r').2 hr')
  read_iff t w hw table path b hb r hr := by
    rw [getRecord_runAlone t hw, hb, ← decode_iff_isPrefix ((hfits r).2 hr)]
    exact readRecord_eq_ok_some_iff
  read_refused t w hw table path b hb h := by
    obtain ⟨e, he⟩ := exists_error_of_not_isPrefix fun r hr => h r ((hfits r).1 hr)
    refine ⟨e, ?_⟩
    rw [getRecord_runAlone t hw, hb, readRecord, he]
    rfl
  read_written t w hw table path r hr :=
    putRecord_getRecord_runAlone t hw table path ((hfits r).2 hr)

end Lawful

/-- Volumes, buckets and keys are read back exactly as they were written, and nothing else is read
as one. -/
theorem records_exact : Exact VolumeInfo VolumeInfo.Counted ∧
    Exact BucketInfo BucketInfo.Counted ∧ Exact KeyRecord KeyRecord.Counted :=
  ⟨exact_of_fits_iff fits_volume_iff, exact_of_fits_iff fits_bucket_iff,
    exact_of_fits_iff fits_record_iff⟩

/-- A record with two versions, of which one is empty, is read from bytes that go on after it, and not
from bytes that lack its last byte. -/
theorem records_exact_twoVersions :
    let record : KeyRecord := {
      volume := "vol", bucket := "b", key := "k/ü", dataSize := 3, creationTime := -1
      modificationTime := 9, replicationType := .ratis, replicationFactor := .three
      versions := [⟨1, []⟩, ⟨2, [⟨⟨7, 1⟩, 0, 3, some ⟨[1, 2], []⟩⟩, ⟨⟨7, 2⟩, 0, 8, none⟩]⟩] }
    decode KeyRecord (encode record ++ [0]) = .ok record ∧
      ∃ e, decode KeyRecord (encode record).dropLast = .error e := by
  intro record
  have hcounted : record.Counted := by
    unfold KeyRecord.Counted LocationVersion.Counted
    decide +kernel
  have hexact := records_exact.2.2
  refine ⟨(hexact.decode_iff record hcounted _).2 (List.prefix_append _ _), ?_⟩
  exact hexact.refused_of_cut record hcounted _ (List.dropLast_prefix _) (by decide +kernel)

end Stored

end ObjectMeta
