import ObjectMeta.Record.Basic

/-!
# Blocks that are added to a version

A block is added to the first version of its number, which is the one that is found under this
number.  So it is found there afterwards, behind the blocks that were there before, and all else in
the record is as it was (`KeyRecord.appends_exactly`), whether the numbers of the versions are
ordered and distinct or not.  Readers of the latest version see the block if and only if the first
version of its number is the last of all.
-/

namespace ObjectMeta

/-! ## 1. The first version of a number -/

/-- The versions fall into the first one of a number, those before it and those after it. -/
structure LocationVersion.IsFirst (number : UInt64) (version : LocationVersion)
    (before after versions : List LocationVersion) : Prop where
  split : versions = before ++ version :: after
  numbered : version.number = number
  fresh : ∀ other ∈ before, other.number ≠ number

namespace LocationVersion

variable {number other : UInt64} {location : BlockLocation} {version : LocationVersion}
  {before after versions : List LocationVersion}

theorem find?_eq_some_iff :
    versions.find? (·.number = number) = some version ↔
      ∃ before after, IsFirst number version before after versions := by
  rw [List.find?_eq_some_iff_append]
  constructor
  · rintro ⟨hnumber, before, after, hsplit, hfresh⟩
    exact ⟨before, after, hsplit, by simpa using hnumber, fun w hw => by simpa using hfresh w hw⟩
  · rintro ⟨before, after, hfirst⟩
    exact ⟨by simpa using hfirst.numbered, before, after, hfirst.split,
      fun w hw => by simpa using hfirst.fresh w hw⟩

/-- What is found under a number, in a list with a version in the middle. -/
theorem find?_middle (before after : List LocationVersion) (version : LocationVersion)
    (number : UInt64) : (before ++ version :: after).find? (·.number = number) =
      (before.find? (·.number = number)).or
        (if version.number = number then some version else after.find? (·.number = number)) := by
  rw [List.find?_append, List.find?_cons]
  by_cases hnumber : version.number = number <;> simp [hnumber]

/-- A block is added to the first version of its number. -/
theorem IsFirst.appendTo (h : IsFirst number version before after versions)
    (location : BlockLocation) :
    LocationVersion.appendTo number location versions =
      some (before ++ version.append location :: after) := by
  obtain ⟨rfl, hnumber, hfresh⟩ := h
  induction before with
  | nil => rw [List.nil_append, LocationVersion.appendTo, if_pos hnumber, List.nil_append]
  | cons first rest ih =>
    rw [List.forall_mem_cons] at hfresh
    rw [List.cons_append, LocationVersion.appendTo, if_neg hfresh.1, ih hfresh.2]
    rfl

/-- The version with one more block is still the first of its number. -/
theorem IsFirst.append (h : IsFirst number version before after versions)
    (location : BlockLocation) :
    IsFirst number (version.append location) before after
      (before ++ version.append location :: after) :=
  ⟨rfl, h.numbered, h.fresh⟩

theorem appendTo_eq_none (h : versions.find? (·.number = number) = none)
    (location : BlockLocation) : appendTo number location versions = none := by
  induction versions with
  | nil => rfl
  | cons first rest ih =>
    have hnumber : first.number ≠ number := by
      simpa using List.find?_eq_none.1 h first List.mem_cons_self
    rw [List.find?_cons_of_neg (by simpa using hnumber)] at h
    rw [appendTo, if_neg hnumber, ih h]
    rfl

/-- A block is added where the first version of its number is. -/
theorem getD_appendTo (number : UInt64) (location : BlockLocation)
    (versions : List LocationVersion) : (appendTo number location versions).getD versions =
      versions.modify (versions.findIdx fun version => version.number = number)
        (·.append location) := by
  induction versions with
  | nil => rfl
  | cons first rest ih =>
    by_cases hnumber : first.number = number
    · simp [appendTo, hnumber, List.findIdx_cons]
    · simp only [appendTo, hnumber, if_false, List.findIdx_cons, decide_false, cond_false,
        List.modify_succ_cons, ← ih]
      cases appendTo number location rest <;> rfl

end LocationVersion

/-! ## 2. One block -/

open LocationVersion

namespace KeyRecord

variable {record : KeyRecord} {number other : UInt64} {location : BlockLocation}
  {version : LocationVersion} {before after : List LocationVersion}

/-- The record with a block added to the first version of the given number; without one it is as it
was. -/
def withLocation (record : KeyRecord) (number : UInt64) (location : BlockLocation) : KeyRecord :=
  (record.appendLocation? number location).getD record

theorem appendLocation?_of_isFirst (h : IsFirst number version before after record.versions)
    (location : BlockLocation) : record.appendLocation? number location =
      some { record with versions := before ++ version.append location :: after } := by
  unfold appendLocation?
  rw [h.appendTo]
  rfl

theorem withLocation_of_isFirst (h : IsFirst number version before after record.versions)
    (location : BlockLocation) : record.withLocation number location =
      { record with versions := before ++ version.append location :: after } := by
  unfold withLocation
  rw [appendLocation?_of_isFirst h, Option.getD_some]

theorem appendLocation?_of_absent (h : record.version? number = none) (location : BlockLocation) :
    record.appendLocation? number location = none := by
  unfold appendLocation?
  rw [appendTo_eq_none h]
  rfl

theorem withLocation_of_absent (h : record.version? number = none) (location : BlockLocation) :
    record.withLocation number location = record := by
  unfold withLocation
  rw [appendLocation?_of_absent h, Option.getD_none]

/-- One more block changes nothing but the versions. -/
theorem withLocation_eq (record : KeyRecord) (number : UInt64) (location : BlockLocation) :
    record.withLocation number location =
      { record with versions := (record.withLocation number location).versions } := by
  unfold withLocation appendLocation?
  cases LocationVersion.appendTo number location record.versions <;> rfl

theorem isSome_appendLocation? (record : KeyRecord) (number : UInt64) (location : BlockLocation) :
    (record.appendLocation? number location).isSome = (record.version? number).isSome := by
  cases hfound : record.version? number with
  | none => rw [appendLocation?_of_absent hfound]; rfl
  | some version =>
    obtain ⟨before, after, hfirst⟩ := find?_eq_some_iff.1 hfound
    rw [appendLocation?_of_isFirst hfirst]
    rfl

/-- What is found under a number after a block was added. -/
theorem version?_withLocation (record : KeyRecord) (number other : UInt64)
    (location : BlockLocation) : (record.withLocation number location).version? other =
      if other = number then (record.version? other).map (·.append location)
      else record.version? other := by
  cases hfound : record.version? number with
  | none =>
    rw [withLocation_of_absent hfound]
    split
    · next heq => rw [heq, hfound]; rfl
    · rfl
  | some version =>
    obtain ⟨before, after, hfirst⟩ := find?_eq_some_iff.1 hfound
    rw [withLocation_of_isFirst hfirst]
    split
    · next heq =>
      rw [heq, hfound]
      exact find?_eq_some_iff.2 ⟨before, after, hfirst.append location⟩
    · next hne =>
      -- neither the version as it was nor the one with the block is found under the other number
      have hold : version.number ≠ other := fun heq => hne (heq.symm.trans hfirst.numbered)
      have hnew : (version.append location).number ≠ other := hold
      unfold version?
      rw [hfirst.split, find?_middle, find?_middle, if_neg hold, if_neg hnew]

/-- The numbers of the versions stay as they are. -/
theorem numbers_withLocation (record : KeyRecord) (number : UInt64) (location : BlockLocation) :
    (record.withLocation number location).versions.map (·.number) =
      record.versions.map (·.number) := by
  cases hfound : record.version? number with
  | none => rw [withLocation_of_absent hfound]
  | some version =>
    obtain ⟨before, after, hfirst⟩ := find?_eq_some_iff.1 hfound
    rw [withLocation_of_isFirst hfirst, hfirst.split, List.map_append, List.map_append]
    rfl

/-! ## 3. The version that readers see -/

/-- The first version of a number is the last of all. -/
def LastIsFirst (record : KeyRecord) (number : UInt64) : Prop :=
  ∃ before, record.versions.map (·.number) = before ++ [number] ∧ number ∉ before

theorem lastIsFirst_iff : record.LastIsFirst number ↔
    ∃ before version, IsFirst number version before [] record.versions := by
  constructor
  · rintro ⟨numbers, hnumbers, hfresh⟩
    obtain ⟨before, last, hsplit, rfl, hlast⟩ := List.map_eq_append_iff.1 hnumbers
    obtain ⟨version, rfl, hversion⟩ := List.map_eq_singleton_iff.1 hlast
    exact ⟨before, version, hsplit, hversion,
      fun w hw heq => hfresh (heq ▸ List.mem_map_of_mem hw)⟩
  · rintro ⟨before, version, hfirst⟩
    refine ⟨before.map (·.number), ?_, ?_⟩
    · rw [hfirst.split, List.map_append, List.map_singleton, hfirst.numbered]
    · intro hmem
      obtain ⟨w, hw, heq⟩ := List.mem_map.1 hmem
      exact hfirst.fresh w hw heq

theorem latestLocations_of_split (h : record.versions = before ++ [version]) :
    record.latestLocations = version.locations := by
  unfold latestLocations latest?
  rw [h, List.getLast?_append, List.getLast?_singleton]
  rfl

/-- A block for the first version of its number is seen if this version is the last. -/
theorem latestLocations_of_lastIsFirst (h : record.LastIsFirst number) (location : BlockLocation) :
    (record.withLocation number location).latestLocations =
      record.latestLocations ++ [location] := by
  obtain ⟨before, version, hfirst⟩ := lastIsFirst_iff.1 h
  rw [withLocation_of_isFirst hfirst, latestLocations_of_split hfirst.split]
  have hversions : ({ record with versions := before ++ [version.append location] } :
      KeyRecord).versions = before ++ [version.append location] := rfl
  exact latestLocations_of_split hversions

/-- It is not seen if there are versions behind. -/
theorem latestLocations_of_not_lastIsFirst (h : ¬record.LastIsFirst number)
    (location : BlockLocation) :
    (record.withLocation number location).latestLocations = record.latestLocations := by
  cases hfound : record.version? number with
  | none => rw [withLocation_of_absent hfound]
  | some version =>
    obtain ⟨before, after, hfirst⟩ := find?_eq_some_iff.1 hfound
    have hafter : after ≠ [] := by
      rintro rfl
      exact h (lastIsFirst_iff.2 ⟨before, version, hfirst⟩)
    obtain ⟨rest, last, rfl⟩ : ∃ rest last, after = rest ++ [last] :=
      ⟨_, _, (List.dropLast_concat_getLast hafter).symm⟩
    have hsplit : record.versions = (before ++ version :: rest) ++ [last] := by
      rw [hfirst.split, List.append_assoc, List.cons_append]
    rw [withLocation_of_isFirst hfirst, latestLocations_of_split hsplit]
    have hversions : before ++ version.append location :: (rest ++ [last]) =
        (before ++ version.append location :: rest) ++ [last] := by
      rw [List.append_assoc, List.cons_append]
    exact latestLocations_of_split hversions

theorem lastIsFirst_withLocation (record : KeyRecord) (number other : UInt64)
    (location : BlockLocation) :
    (record.withLocation number location).LastIsFirst other ↔ record.LastIsFirst other := by
  unfold LastIsFirst
  rw [numbers_withLocation]

/-! ## 4. Series of blocks -/

/-- The record with blocks added one after the other, each to a version of its own number. -/
def withLocations (record : KeyRecord) (added : List (UInt64 × BlockLocation)) : KeyRecord :=
  added.foldl (fun record block => record.withLocation block.1 block.2) record

def blocksFor (number : UInt64) (added : List (UInt64 × BlockLocation)) : List BlockLocation :=
  (added.filter (·.1 = number)).map (·.2)

theorem version?_withLocations (record : KeyRecord) (added : List (UInt64 × BlockLocation))
    (number : UInt64) : (record.withLocations added).version? number =
      (record.version? number).map fun version =>
        { version with locations := version.locations ++ blocksFor number added } := by
  induction added generalizing record with
  | nil =>
    show record.version? number = _
    cases record.version? number with
    | none => rfl
    | some version => simp [blocksFor]
  | cons block rest ih =>
    show ((record.withLocation block.1 block.2).withLocations rest).version? number = _
    rw [ih, version?_withLocation]
    by_cases hnumber : number = block.1
    · rw [if_pos hnumber, Option.map_map]
      congr 1
      funext version
      simp [blocksFor, append, hnumber]
    · rw [if_neg hnumber]
      simp [blocksFor, Ne.symm hnumber]

/-- The last version is the first of one number at most. -/
theorem LastIsFirst.unique (h : record.LastIsFirst number) (h' : record.LastIsFirst other) :
    number = other := by
  obtain ⟨before, hnumbers, _⟩ := h
  obtain ⟨before', hnumbers', _⟩ := h'
  exact (List.append_singleton_inj.1 (hnumbers.symm.trans hnumbers')).2

theorem latestLocations_withLocations (h : record.LastIsFirst number)
    (added : List (UInt64 × BlockLocation)) : (record.withLocations added).latestLocations =
      record.latestLocations ++ blocksFor number added := by
  induction added generalizing record with
  | nil => exact (List.append_nil _).symm
  | cons block rest ih =>
    show ((record.withLocation block.1 block.2).withLocations rest).latestLocations = _
    rw [ih ((lastIsFirst_withLocation ..).2 h)]
    by_cases hnumber : block.1 = number
    · subst hnumber
      rw [latestLocations_of_lastIsFirst h, List.append_assoc]
      simp [blocksFor]
    · rw [latestLocations_of_not_lastIsFirst fun hother => hnumber (hother.unique h)]
      simp [blocksFor, hnumber]

theorem latestLocations_withLocations_of_not {added : List (UInt64 × BlockLocation)}
    (h : ∀ block ∈ added, ¬record.LastIsFirst block.1) :
    (record.withLocations added).latestLocations = record.latestLocations := by
  induction added generalizing record with
  | nil => rfl
  | cons block rest ih =>
    rw [List.forall_mem_cons] at h
    show ((record.withLocation block.1 block.2).withLocations rest).latestLocations = _
    rw [ih fun other hmem hlast => h.2 other hmem ((lastIsFirst_withLocation ..).1 hlast)]
    exact latestLocations_of_not_lastIsFirst h.1 block.2

/-! ## 5. Finding and adding -/

/-- Blocks are added to the versions under whose numbers they are found, and nowhere else. -/
structure AppendsExactly (record : KeyRecord) : Prop where
  /-- A block can be added under a number exactly if a version is found under it. -/
  answered : ∀ number location,
    (record.appendLocation? number location).isSome = (record.version? number).isSome
  /-- If none is, the record stays as it is. -/
  refused : ∀ number location, record.version? number = none →
    record.withLocation number location = record
  /-- If one is, it gets the block at its end; the other versions keep their places, and all other
  fields their values. -/
  placed : ∀ number location version, record.version? number = some version →
    ∃ before after, record.versions = before ++ version :: after ∧
      (∀ other ∈ before, other.number ≠ number) ∧
      record.appendLocation? number location = some { record with
        versions := before ++ { version with locations := version.locations ++ [location] } :: after }
  /-- It is found under its number with the block at its end. -/
  found : ∀ number location version, record.version? number = some version →
    (record.withLocation number location).version? number =
      some { version with locations := version.locations ++ [location] }
  /-- What is found under other numbers is as it was. -/
  others : ∀ number location other, other ≠ number →
    (record.withLocation number location).version? other = record.version? other
  /-- After a series of blocks, those for a number are found under it in their order, behind the
  blocks that were there before. -/
  series : ∀ added number, (record.withLocations added).version? number =
    (record.version? number).map fun version =>
      { version with locations := version.locations ++ blocksFor number added }
  /-- Readers of the latest version see those for its number if no version before it has it. -/
  seen : ∀ added number, record.LastIsFirst number →
    (record.withLocations added).latestLocations =
      record.latestLocations ++ blocksFor number added
  /-- What they see changes in no other way. -/
  unseen : ∀ added, (record.withLocations added).latestLocations ≠ record.latestLocations →
    ∃ block ∈ added, record.LastIsFirst block.1

/-- Whatever the numbers of its versions, a record gets blocks where they are found. -/
theorem appends_exactly (record : KeyRecord) : record.AppendsExactly where
  answered := record.isSome_appendLocation?
  refused _ location habsent := withLocation_of_absent habsent location
  placed number location version hfound := by
    obtain ⟨before, after, hfirst⟩ := find?_eq_some_iff.1 hfound
    exact ⟨before, after, hfirst.split, hfirst.fresh, appendLocation?_of_isFirst hfirst location⟩
  found number location version hfound := by
    rw [version?_withLocation, if_pos rfl, hfound]
    rfl
  others number location other hne := by rw [version?_withLocation, if_neg hne]
  series := record.version?_withLocations
  seen added _ hlast := latestLocations_withLocations hlast added
  unseen added hchanged := Classical.byContradiction fun hnone => hchanged
    (latestLocations_withLocations_of_not fun block hmem hlast => hnone ⟨block, hmem, hlast⟩)

-- Of two versions with one number, the first gets the block, and readers of the last do not see it.
example (block : BlockLocation) :
    let versions : List LocationVersion := [⟨2, []⟩, ⟨1, []⟩, ⟨2, []⟩]
    LocationVersion.appendTo 2 block versions = some [⟨2, [block]⟩, ⟨1, []⟩, ⟨2, []⟩] := rfl

end KeyRecord

end ObjectMeta
