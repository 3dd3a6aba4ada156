import ObjectMeta.Path

/-!
# Paths tell names apart

A separator cannot stand in a volume or bucket name, so a path falls into its names in one way only,
however many separators a key name holds.  Paths of volumes, buckets and keys never coincide, and
neither do the table keys that they turn into.
-/

namespace ObjectMeta

/-- Texts without a separator are read off in front of the first one. -/
theorem append_separator_inj {a a' r r' : List Char} (ha : pathSeparator ∉ a)
    (ha' : pathSeparator ∉ a')
    (h : a ++ pathSeparator :: r = a' ++ pathSeparator :: r') : a = a' ∧ r = r' := by
  induction a generalizing a' with
  | nil =>
    cases a' with
    | nil => exact ⟨rfl, (List.cons.inj h).2⟩
    | cons c' a' => exact absurd (List.mem_cons.2 (.inl (List.cons.inj h).1)) ha'
  | cons c a ih =>
    cases a' with
    | nil => exact absurd (List.mem_cons.2 (.inl (List.cons.inj h).1.symm)) ha
    | cons c' a' =>
      obtain ⟨hc, hrest⟩ := List.cons.inj h
      obtain ⟨haa, hrr⟩ := ih (List.not_mem_of_not_mem_cons ha) (List.not_mem_of_not_mem_cons ha')
        hrest
      exact ⟨by rw [hc, haa], hrr⟩

namespace ResourcePath

variable {v v' b b' k k' : String}

/-! ## 1. The characters of a path -/

theorem toList_volume (v : String) : (volume v).text.toList = pathSeparator :: v.toList := by
  rw [volume, String.toList_append]
  rfl

theorem toList_bucket (v b : String) :
    (bucket v b).text.toList = pathSeparator :: (v.toList ++ pathSeparator :: b.toList) := by
  simp only [bucket, String.toList_append, List.append_assoc]
  rfl

theorem toList_key (v b k : String) : (key v b k).text.toList =
    pathSeparator :: (v.toList ++ pathSeparator :: (b.toList ++ pathSeparator :: k.toList)) := by
  simp only [key, String.toList_append, List.append_assoc]
  rfl

theorem eq_iff_toList {p p' : ResourcePath} : p = p' ↔ p.text.toList = p'.text.toList := by
  rw [String.toList_inj]
  constructor
  · rintro rfl
    rfl
  · intro h
    cases p
    cases p'
    exact congrArg _ h

/-! ## 2. Paths of one kind -/

theorem volume_inj : volume v = volume v' ↔ v = v' := by
  rw [eq_iff_toList, toList_volume, toList_volume, List.cons_inj_right, String.toList_inj]

theorem bucket_inj (hv : ValidName v) (hv' : ValidName v') :
    bucket v b = bucket v' b' ↔ v = v' ∧ b = b' := by
  rw [eq_iff_toList, toList_bucket, toList_bucket, List.cons_inj_right]
  constructor
  · intro h
    obtain ⟨hvol, hbucket⟩ := append_separator_inj hv.2 hv'.2 h
    exact ⟨String.toList_inj.1 hvol, String.toList_inj.1 hbucket⟩
  · rintro ⟨rfl, rfl⟩
    rfl

theorem key_inj (hv : ValidName v) (hb : ValidName b) (hv' : ValidName v') (hb' : ValidName b') :
    key v b k = key v' b' k' ↔ v = v' ∧ b = b' ∧ k = k' := by
  rw [eq_iff_toList, toList_key, toList_key, List.cons_inj_right]
  constructor
  · intro h
    obtain ⟨hvol, hrest⟩ := append_separator_inj hv.2 hv'.2 h
    obtain ⟨hbucket, hkey⟩ := append_separator_inj hb.2 hb'.2 hrest
    exact ⟨String.toList_inj.1 hvol, String.toList_inj.1 hbucket, String.toList_inj.1 hkey⟩
  · rintro ⟨rfl, rfl, rfl⟩
    rfl

/-! ## 3. Paths of different kinds -/

theorem volume_ne_bucket (hv : ValidName v) : volume v ≠ bucket v' b' := by
  rw [Ne, eq_iff_toList, toList_volume, toList_bucket, List.cons_inj_right]
  intro h
  exact hv.2 (h ▸ List.mem_append_right _ (List.mem_cons_self ..))

theorem volume_ne_key (hv : ValidName v) : volume v ≠ key v' b' k' := by
  rw [Ne, eq_iff_toList, toList_volume, toList_key, List.cons_inj_right]
  intro h
  exact hv.2 (h ▸ List.mem_append_right _ (List.mem_cons_self ..))

theorem bucket_ne_key (hv : ValidName v) (hb : ValidName b) (hv' : ValidName v') :
    bucket v b ≠ key v' b' k' := by
  rw [Ne, eq_iff_toList, toList_bucket, toList_key, List.cons_inj_right]
  intro h
  obtain ⟨-, hrest⟩ := append_separator_inj hv.2 hv'.2 h
  exact hb.2 (hrest ▸ List.mem_append_right _ (List.mem_cons_self ..))

/-! ## 4. Coarse and fine -/

/-- How fine a path is: 1 for a volume, 2 for a bucket, 3 for a key. -/
def depth (path : ResourcePath) : Nat := min 3 (path.text.toList.count pathSeparator)

theorem depth_le (path : ResourcePath) : path.depth ≤ 3 := Nat.min_le_left ..

theorem depth_volume (hv : ValidName v) : (volume v).depth = 1 := by
  unfold depth
  rw [toList_volume, List.count_cons_self, List.count_eq_zero.2 hv.2]
  rfl

theorem depth_bucket (hv : ValidName v) (hb : ValidName b) : (bucket v b).depth = 2 := by
  unfold depth
  rw [toList_bucket, List.count_cons_self, List.count_append, List.count_cons_self,
    List.count_eq_zero.2 hv.2, List.count_eq_zero.2 hb.2]
  rfl

/-- However many separators the name of a key holds, there are three in front of it. -/
theorem depth_key (hv : ValidName v) (hb : ValidName b) : (key v b k).depth = 3 := by
  unfold depth
  rw [toList_key, List.count_cons_self, List.count_append, List.count_cons_self,
    List.count_append, List.count_cons_self, List.count_eq_zero.2 hv.2, List.count_eq_zero.2 hb.2]
  omega

/-! ## 5. Table keys -/

theorem tableKey_inj {p p' : ResourcePath} : p.tableKey = p'.tableKey ↔ p = p' := by
  constructor
  · intro h
    have htext := Bytes.toText?_ofText p.text
    rw [show Bytes.ofText p.text = Bytes.ofText p'.text from h, Bytes.toText?_ofText] at htext
    cases p
    cases p'
    exact congrArg _ (Option.some.inj htext).symm
  · rintro rfl
    rfl

end ResourcePath

end ObjectMeta
