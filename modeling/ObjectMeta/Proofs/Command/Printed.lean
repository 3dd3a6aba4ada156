import ObjectMeta.Command.Run
import ObjectMeta.Proofs.Command.Legible
import ObjectMeta.Proofs.Command.Tasks

/-!
# What a call prints

What a call that succeeds prints can only be read in one way, as its report in print
(`Ending.prints_iff`).  Every block of the report is there, and whatever is printed with a token is
one of them (`Report.inside_output`, `Report.exists_location`).
-/

namespace ObjectMeta.Command

/-! ## 1. Values in values -/

namespace Output

/-- The value stands somewhere in another one, or is that one. -/
inductive Inside (value : Output) : Output → Prop where
  | self : Inside value value
  | item {items : List Output} {item : Output} (h : item ∈ items) (inside : Inside value item) :
      Inside value (.list items)
  | member {entries : List (String × Output)} {member : String × Output} (h : member ∈ entries)
      (inside : Inside value member.2) : Inside value (.members entries)

def Has (value : Output) (name : String) (item : Output) : Prop :=
  ∃ entries, value = .members entries ∧ (name, item) ∈ entries

variable {value : Output} {name : String} {item : Output} {entries : List (String × Output)}

theorem Inside.of_member (h : (name, item) ∈ entries) (hinside : value.Inside item) :
    value.Inside (object entries) :=
  .member (List.mem_mergeSort.2 h) hinside

def isScalar : Output → Bool
  | list _ | members _ => false
  | _ => true

@[simp] theorem isScalar_text (value : String) : (text value).isScalar = true := rfl

@[simp] theorem isScalar_boolean (value : Bool) : (boolean value).isScalar = true := rfl

@[simp] theorem isScalar_int64 (value : Int64) : (int64 value).isScalar = true := rfl

@[simp] theorem isScalar_optional (text? : Option String) : (optional text?).isScalar = true := by
  cases text? <;> rfl

theorem Inside.list_cases {items : List Output} (h : value.Inside (.list items))
    (hhas : value.Has name item) : ∃ whole ∈ items, value.Inside whole := by
  cases h with
  | self =>
    rcases hhas with ⟨entries, hentries, -⟩
    cases hentries
  | item h hinside => exact ⟨_, h, hinside⟩

/-- An object that is inside another one is that one, or in a member with values inside. -/
theorem Inside.object_cases (h : value.Inside (object entries)) (hhas : value.Has name item) :
    value = object entries ∧ (name, item) ∈ entries ∨
      ∃ member ∈ entries.filter fun member => !member.2.isScalar, value.Inside member.2 := by
  generalize hobject : object entries = whole at h
  cases h with
  | self =>
    rcases hhas with ⟨entries', rfl, hmember⟩
    cases hobject
    exact .inl ⟨rfl, List.mem_mergeSort.1 hmember⟩
  | item => cases hobject
  | @member _ member hmember hinside =>
    cases hobject
    refine .inr ⟨member, List.mem_filter.2 ⟨List.mem_mergeSort.1 hmember, ?_⟩, hinside⟩
    rcases hhas with ⟨entries', rfl, -⟩
    cases hwhole : member.2 with
    | list | members => rfl
    | _ =>
      rw [hwhole] at hinside
      cases hinside

theorem Inside.eq_of_scalars (h : value.Inside (object entries)) (hhas : value.Has name item)
    (hscalars : ∀ member ∈ entries, member.2.isScalar = true) :
    value = object entries ∧ (name, item) ∈ entries := by
  rcases h.object_cases hhas with hself | ⟨member, hmember, -⟩
  · exact hself
  · rcases List.mem_filter.1 hmember with ⟨hmember, hnot⟩
    rw [hscalars member hmember] at hnot
    cases hnot

end Output

/-! ## 2. Reports in print -/

/-- A block with a token as it is printed, member after member. -/
def printedBlock (block : BlockId) (offset length : Int64) (token : String) : Output :=
  .members [
    ("containerId", .integer block.container.toInt),
    ("length", .integer length.toInt),
    ("localId", .integer block.localId.toInt),
    ("offset", .integer offset.toInt),
    ("token", .text token)]

theorem printedBlock_has (block : BlockId) (offset length : Int64) (token : String) :
    (printedBlock block offset length token).Has "token" (.text token) :=
  ⟨_, rfl, by simp⟩

namespace Report

open Output

theorem inside_output {report : Report} {location : BlockLocation}
    (h : location ∈ report.locations) : (locationOutput location).Inside report.output := by
  cases report with
  | location added =>
    rw [List.mem_singleton.1 h]
    exact .self
  | record found =>
    rcases List.mem_flatMap.1 h with ⟨version, hversion, hlocation⟩
    have hlocations : (locationOutput location).Inside
        (.list (version.locations.map locationOutput)) :=
      .item (List.mem_map_of_mem hlocation) .self
    have hversions : (locationOutput location).Inside
        (.list (found.versions.map versionOutput)) :=
      .item (List.mem_map_of_mem hversion)
        (.of_member (List.mem_cons_of_mem _ List.mem_cons_self) hlocations)
    exact .of_member (List.mem_of_getLast? rfl) hversions
  | _ => exact absurd h List.not_mem_nil

variable {value : Output} {text : String} {location : BlockLocation}

theorem eq_of_inside_location (h : value.Inside (locationOutput location))
    (hhas : value.Has "token" (.text text)) :
    value = locationOutput location ∧ location.token.map tokenText = some text := by
  obtain ⟨rfl, hmember⟩ := h.eq_of_scalars hhas (by simp)
  refine ⟨rfl, ?_⟩
  cases htoken : location.token.map tokenText with
  | none => simp [htoken, Output.optional] at hmember
  | some found =>
    simp [htoken, Output.optional] at hmember
    rw [hmember]

/-- Whatever is printed with a token is a block of the report. -/
theorem exists_location {report : Report} (h : value.Inside report.output)
    (hhas : value.Has "token" (.text text)) : ∃ location ∈ report.locations,
      value = locationOutput location ∧ location.token.map tokenText = some text := by
  cases report with
  | volume info | bucket info | rejected error =>
    have hmember := (h.eq_of_scalars hhas (by simp)).2
    simp at hmember
  | location added => exact ⟨added, List.mem_singleton_self added, eq_of_inside_location h hhas⟩
  | accepted claims =>
    rcases h.object_cases hhas with ⟨-, hmember⟩ | ⟨member, hmember, hinside⟩
    · simp at hmember
    · rw [List.mem_singleton.1 hmember] at hinside
      have hclaims := (hinside.eq_of_scalars hhas (by simp)).2
      simp at hclaims
  | record found =>
    -- the way to a block leads through the versions of the key and the blocks of a version
    rcases h.object_cases hhas with ⟨-, hmember⟩ | ⟨member, hmember, hinside⟩
    · simp at hmember
    · rw [List.mem_singleton.1 hmember] at hinside
      rcases hinside.list_cases hhas with ⟨whole, hwhole, hinside⟩
      rcases List.mem_map.1 hwhole with ⟨version, hversion, rfl⟩
      rcases hinside.object_cases hhas with ⟨-, hmember⟩ | ⟨member, hmember, hinside⟩
      · simp at hmember
      · rw [List.mem_singleton.1 hmember] at hinside
        rcases hinside.list_cases hhas with ⟨whole, hwhole, hinside⟩
        rcases List.mem_map.1 hwhole with ⟨location, hlocation, rfl⟩
        exact ⟨location, List.mem_flatMap.2 ⟨version, hversion, hlocation⟩,
          eq_of_inside_location hinside hhas⟩

theorem locationOutput_eq {token : BlockToken} (htoken : location.token = some token) :
    locationOutput location =
      printedBlock location.block location.offset location.length (tokenText token) := by
  unfold locationOutput object printedBlock
  simp [List.mergeSort, List.MergeSort.Internal.splitInTwo, int64, Output.optional, htoken]

theorem output_accepted (claims : TokenIdentifier) : (accepted claims).output = .members [
    ("identifier", .members [
      ("containerId", .integer claims.block.container.toInt),
      ("expiryTime", .integer claims.expiryTime.toInt),
      ("issueTime", .integer claims.issueTime.toInt),
      ("kind", .text claims.kind),
      ("localId", .integer claims.block.localId.toInt),
      ("maxLength", .integer claims.maxLength.toInt),
      ("owner", .text claims.owner)]),
    ("valid", .boolean true)] := by
  unfold output claimsOutput object
  simp [List.mergeSort, List.MergeSort.Internal.splitInTwo, int64]

theorem output_rejected (error : TokenError) : (rejected error).output =
    .members [("error", .text error.message), ("valid", .boolean false)] := by
  unfold output object
  simp [List.mergeSort, List.MergeSort.Internal.splitInTwo]

end Report

/-! ## 3. Calls -/

namespace Ending

variable {value : Output} {report : Report} {warning : Option ConfigWarning}

def locations : Ending → List BlockLocation
  | completed ⟨_, .ok report⟩ => report.locations
  | _ => []

/-- The value stands in the one that is printed. -/
def Prints (ending : Ending) (value : Output) : Prop :=
  ∃ whole, ending.out = whole.pretty ++ "\n" ∧ value.Inside whole

theorem prints_iff : (completed ⟨warning, .ok report⟩).Prints value ↔
    value.Inside report.output := by
  constructor
  · rintro ⟨whole, hout, hinside⟩
    have hlines : report.output.pretty ++ "\n" = whole.pretty ++ "\n" := hout
    rw [← String.toList_inj, String.toList_append, String.toList_append] at hlines
    have hpretty := String.toList_inj.1 (List.append_cancel_right hlines)
    rwa [Output.pretty_injective hpretty]
  · exact fun hinside => ⟨_, rfl, hinside⟩

/-- A call that fails prints no value. -/
theorem not_prints {failure : Failure} : ¬(completed ⟨warning, .error failure⟩).Prints value := by
  rintro ⟨whole, hout, -⟩
  have hlines : "" = whole.pretty ++ "\n" := hout
  rw [← String.toList_inj, String.toList_append] at hlines
  exact List.append_ne_nil_of_right_ne_nil _ (List.cons_ne_nil '\n' []) hlines.symm

theorem prints_location {ending : Ending} {location : BlockLocation}
    (h : location ∈ ending.locations) : ending.Prints (Report.locationOutput location) := by
  cases ending with
  | completed completion =>
    rcases completion with ⟨warning, _ | report⟩
    · exact absurd h List.not_mem_nil
    · exact prints_iff.2 (Report.inside_output h)
  | _ => exact absurd h List.not_mem_nil

/-- Whatever a call prints with a token is a block that it reports. -/
theorem exists_location {completion : Completion} {text : String}
    (h : (completed completion).Prints value) (hhas : value.Has "token" (.text text)) :
    ∃ location ∈ (completed completion).locations,
      value = Report.locationOutput location ∧ location.token.map tokenText = some text := by
  rcases completion with ⟨warning, failure | report⟩
  · exact absurd h not_prints
  · exact Report.exists_location (prints_iff.1 h) hhas

end Ending

end ObjectMeta.Command
