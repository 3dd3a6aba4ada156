import ObjectMeta.Text.Blank

/-!
# Texts without the white space around them

Trimming leaves the one text that has no white space at its ends and differs from what was given by
white space at the ends alone (`Text.isCore_iff`).  White space inside a text is part of it.
-/

namespace ObjectMeta.Text

/-! ## 1. Cores -/

def IsBlank (s : String) : Prop := ∀ c ∈ s.toList, isBlank c = true

instance (s : String) : Decidable (IsBlank s) :=
  List.decidableBAll (fun c => isBlank c = true) s.toList

structure IsTrimmed (s : String) : Prop where
  head : ∀ c ∈ s.toList.head?, isBlank c = false
  last : ∀ c ∈ s.toList.getLast?, isBlank c = false

theorem IsTrimmed.of_forall {s : String} (h : ∀ c ∈ s.toList, isBlank c = false) : IsTrimmed s where
  head c hc := h c (List.mem_of_head? hc)
  last c hc := h c (List.mem_of_getLast? hc)

/-- A text is what another one is without the white space at its two ends. -/
structure IsCore (core s : String) : Prop where
  trimmed : IsTrimmed core
  around : ∃ before after, IsBlank before ∧ IsBlank after ∧ s = before ++ core ++ after

theorem IsTrimmed.isCore {core before after : String} (h : IsTrimmed core)
    (hbefore : IsBlank before) (hafter : IsBlank after) : IsCore core (before ++ core ++ after) :=
  ⟨h, before, after, hbefore, hafter, rfl⟩

/-! ## 2. Trimming -/

theorem dropWhile_isBlank {blanks cs : List Char} (hblanks : ∀ c ∈ blanks, isBlank c = true)
    (hcs : ∀ c ∈ cs.head?, isBlank c = false) : (blanks ++ cs).dropWhile isBlank = cs := by
  rw [List.dropWhile_append_of_pos hblanks]
  cases cs with
  | nil => rfl
  | cons c rest => exact List.dropWhile_cons_of_neg (by simp [hcs c rfl])

theorem trimChars_append {before cs after : List Char} (hbefore : ∀ c ∈ before, isBlank c = true)
    (hafter : ∀ c ∈ after, isBlank c = true) (hhead : ∀ c ∈ cs.head?, isBlank c = false)
    (hlast : ∀ c ∈ cs.getLast?, isBlank c = false) : trimChars (before ++ cs ++ after) = cs := by
  have hreversed : (after.reverse ++ cs.reverse).dropWhile isBlank = cs.reverse :=
    dropWhile_isBlank (fun c hc => hafter c (List.mem_reverse.1 hc))
      fun c hc => hlast c (List.head?_reverse ▸ hc)
  unfold trimChars
  cases cs with
  | nil =>
    -- all of it is white space
    have hblank : (before ++ after ++ []).dropWhile isBlank = [] :=
      dropWhile_isBlank (fun c hc => (List.mem_append.1 hc).elim (hbefore c) (hafter c)) nofun
    rw [List.append_nil] at hblank ⊢
    rw [hblank]
    rfl
  | cons c rest =>
    have hfront : (before ++ (c :: rest ++ after)).dropWhile isBlank = c :: rest ++ after :=
      dropWhile_isBlank hbefore hhead
    rw [List.append_assoc, hfront, List.reverse_append, hreversed, List.reverse_reverse]

theorem IsCore.trim {core s : String} (h : IsCore core s) : trim s = core := by
  rcases h.around with ⟨before, after, hbefore, hafter, rfl⟩
  unfold Text.trim
  rw [String.toList_append, String.toList_append,
    trimChars_append hbefore hafter h.trimmed.head h.trimmed.last, String.ofList_toList]

/-- What trimming takes away is white space, and what it leaves does not begin or end with any. -/
theorem trimChars_spec (cs : List Char) :
    (∃ before after, (∀ c ∈ before, isBlank c = true) ∧ (∀ c ∈ after, isBlank c = true) ∧
      cs = before ++ trimChars cs ++ after) ∧
    (∀ c ∈ (trimChars cs).head?, isBlank c = false) ∧
    ∀ c ∈ (trimChars cs).getLast?, isBlank c = false := by
  have hkept (cs : List Char) : ∀ c ∈ (cs.dropWhile isBlank).head?, isBlank c = false := by
    intro c hc
    have h := List.head?_dropWhile_not isBlank cs
    rwa [hc] at h
  have htaken (cs : List Char) : ∀ c ∈ cs.takeWhile isBlank, isBlank c = true :=
    List.all_eq_true.1 List.all_takeWhile
  let rest := cs.dropWhile isBlank
  let after := (rest.reverse.takeWhile isBlank).reverse
  have hrest : rest = trimChars cs ++ after := by
    rw [← List.reverse_inj, List.reverse_append, List.reverse_reverse]
    exact (congrArg _ (List.reverse_reverse _)).trans List.takeWhile_append_dropWhile |>.symm
  refine ⟨⟨cs.takeWhile isBlank, after, htaken cs, ?_, ?_⟩, ?_, ?_⟩
  · exact fun c hc => htaken rest.reverse c (List.mem_reverse.1 hc)
  · rw [List.append_assoc, ← hrest]
    exact List.takeWhile_append_dropWhile.symm
  · intro c hc
    refine hkept cs c ?_
    show c ∈ rest.head?
    rw [hrest, List.head?_append, hc]
    rfl
  · intro c hc
    refine hkept rest.reverse c ?_
    unfold trimChars at hc
    rwa [List.getLast?_reverse] at hc

theorem isCore_trim (s : String) : IsCore (trim s) s := by
  rcases trimChars_spec s.toList with ⟨⟨before, after, hbefore, hafter, hs⟩, hhead, hlast⟩
  have htrim : (trim s).toList = trimChars s.toList := String.toList_ofList
  refine ⟨⟨htrim ▸ hhead, htrim ▸ hlast⟩, .ofList before, .ofList after, ?_, ?_, ?_⟩
  · unfold IsBlank
    rwa [String.toList_ofList]
  · unfold IsBlank
    rwa [String.toList_ofList]
  · rw [← String.toList_inj, String.toList_append, String.toList_append, htrim,
      String.toList_ofList, String.toList_ofList]
    exact hs

/-- A text has one core, which trimming finds. -/
theorem isCore_iff {core s : String} : IsCore core s ↔ trim s = core :=
  ⟨IsCore.trim, fun h => h ▸ isCore_trim s⟩

end ObjectMeta.Text
