import Mathlib.Data.String.Basic
import ObjectMeta.Command.Output

/-!
# Printed values can be read

No two values are printed alike, so whoever has what is printed knows the value
(`Output.pretty_injective`).  More than that, a value can be told from whatever comes after it, as
long as no number goes on there (`Output.legible`); this is what an object is read by, member after
member.
-/

namespace ObjectMeta.Command.Output

/-! ## 1. Quoted texts -/

def specials : List Char := '"' :: '\\' :: (List.range 32).map Char.ofNat

theorem escaped_of_not_mem {c : Char} (h : c ∉ specials) : escaped c = String.singleton c := by
  have hlarge : 32 ≤ c.toNat := by
    by_contra hsmall
    apply h
    rw [← Char.ofNat_toNat c]
    exact List.mem_cons_of_mem _ (List.mem_cons_of_mem _
      (List.mem_map_of_mem (List.mem_range.2 (Nat.lt_of_not_le hsmall))))
  have hne (d : Char) (hd : d ∈ specials) : c ≠ d := fun hcd => h (hcd ▸ hd)
  unfold escaped
  rw [if_neg (hne _ (by decide)), if_neg (hne _ (by decide)), if_neg (hne _ (by decide)),
    if_neg (hne _ (by decide)), if_neg (hne _ (by decide)), if_neg (hne _ (by decide)),
    if_neg (hne _ (by decide)), if_neg (by omega), if_neg (by omega)]

theorem escaped_of_mem {c : Char} (h : c ∈ specials) :
    ∃ rest, (escaped c).toList = '\\' :: rest := by
  have hhead : (specials.all fun c => (escaped c).toList.head? = some '\\') = true := by
    decide +kernel
  exact List.head?_eq_some_iff.1 (of_decide_eq_true (List.all_eq_true.1 hhead c h))

/-- No escaped character begins like another one. -/
theorem eq_of_escaped {c d : Char} (h : (escaped c).toList <+: (escaped d).toList) :
    c = d := by
  by_cases hc : c ∈ specials
  · by_cases hd : d ∈ specials
    · have hall : (specials.all fun c => specials.all fun d =>
          (escaped c).toList <+: (escaped d).toList → c = d) = true := by
        decide +kernel
      exact of_decide_eq_true (List.all_eq_true.1 (List.all_eq_true.1 hall c hc) d hd) h
    · rcases escaped_of_mem hc with ⟨rest, hrest⟩
      rw [hrest, escaped_of_not_mem hd, String.toList_singleton, List.cons_prefix_cons] at h
      exact absurd (h.1 ▸ by decide) hd
  · rw [escaped_of_not_mem hc, String.toList_singleton] at h
    by_cases hd : d ∈ specials
    · rcases escaped_of_mem hd with ⟨rest, hrest⟩
      rw [hrest, List.cons_prefix_cons] at h
      exact absurd (h.1 ▸ by decide) hc
    · rw [escaped_of_not_mem hd, String.toList_singleton, List.cons_prefix_cons] at h
      exact h.1

theorem escaped_append_inj {c d : Char} {rest rest' : List Char}
    (h : (escaped c).toList ++ rest = (escaped d).toList ++ rest') : c = d ∧ rest = rest' := by
  have hcd : c = d := by
    rcases List.prefix_or_prefix_of_prefix (List.prefix_append (escaped c).toList rest)
      ⟨rest', h.symm⟩ with hprefix | hprefix
    · exact eq_of_escaped hprefix
    · exact (eq_of_escaped hprefix).symm
  subst hcd
  exact ⟨rfl, List.append_cancel_left h⟩

/-- No escaped character begins with a quote. -/
theorem escaped_append_ne (c : Char) (rest rest' : List Char) :
    (escaped c).toList ++ rest ≠ '"' :: rest' := by
  intro h
  by_cases hc : c ∈ specials
  · rcases escaped_of_mem hc with ⟨tail, htail⟩
    rw [htail] at h
    cases h
  · rw [escaped_of_not_mem hc, String.toList_singleton] at h
    exact hc ((List.cons.inj h).1 ▸ by decide)

theorem quoted_append_inj {s t : String} {rest rest' : List Char}
    (h : (quoted s).toList ++ rest = (quoted t).toList ++ rest') : s = t ∧ rest = rest' := by
  have hchars : ∀ cs ds : List Char,
      (cs.map escaped).flatMap String.toList ++ '"' :: rest =
        (ds.map escaped).flatMap String.toList ++ '"' :: rest' → cs = ds ∧ rest = rest' := by
    intro cs
    induction cs with
    | nil =>
      intro ds hds
      cases ds with
      | nil => exact ⟨rfl, (List.cons.inj hds).2⟩
      | cons d ds =>
        rw [List.map_cons, List.flatMap_cons, List.append_assoc] at hds
        exact absurd hds.symm (escaped_append_ne d _ _)
    | cons c cs ih =>
      intro ds hds
      rw [List.map_cons, List.flatMap_cons, List.append_assoc] at hds
      cases ds with
      | nil => exact absurd hds (escaped_append_ne c _ _)
      | cons d ds =>
        rw [List.map_cons, List.flatMap_cons, List.append_assoc] at hds
        obtain ⟨rfl, htail⟩ := escaped_append_inj hds
        obtain ⟨rfl, hrest⟩ := ih ds htail
        exact ⟨rfl, hrest⟩
  have htoList (s : String) (rest : List Char) : (quoted s).toList ++ rest =
      '"' :: ((s.toList.map escaped).flatMap String.toList ++ '"' :: rest) := by
    simp [quoted, String.join_eq, List.flatMap]
  rw [htoList, htoList] at h
  obtain ⟨hsame, hrest⟩ := hchars _ _ (List.cons.inj h).2
  exact ⟨String.toList_inj.1 hsame, hrest⟩

/-! ## 2. Numbers -/

def isNumeric (c : Char) : Bool := c.isDigit || c == '-'

/-- No number goes on here. -/
def Ended (rest : List Char) : Prop := ∀ c ∈ rest.head?, isNumeric c = false

theorem isDigit_of_mem_repr {n : Nat} {c : Char} (h : c ∈ n.repr.toList) : c.isDigit = true := by
  rw [Nat.repr_eq_ofList_toDigits, String.toList_ofList] at h
  exact Nat.isDigit_of_mem_toDigits (by decide) (by decide) h

theorem isNumeric_of_mem {value : Int} {c : Char} (h : c ∈ (toString value).toList) :
    isNumeric c = true := by
  unfold isNumeric
  cases value with
  | ofNat n =>
    rw [isDigit_of_mem_repr (n := n) h, Bool.true_or]
  | negSucc n =>
    have hmem : c ∈ ("-" ++ n.succ.repr).toList := h
    rw [String.toList_append, List.mem_append] at hmem
    rcases hmem with hsign | hdigit
    · rw [List.mem_singleton.1 hsign]
      rfl
    · rw [isDigit_of_mem_repr hdigit, Bool.true_or]

theorem repr_inj {m n : Nat} (h : m.repr = n.repr) : m = n := by
  rw [Nat.repr_eq_ofList_toDigits, Nat.repr_eq_ofList_toDigits, String.ofList_inj] at h
  rw [← Nat.ofDigitChars_ten_toDigits (n := m), h, Nat.ofDigitChars_ten_toDigits]

theorem integer_inj {value value' : Int} (h : toString value = toString value') :
    value = value' := by
  -- no digit is a sign
  have hsign (m n : Nat) : m.repr ≠ "-" ++ n.repr := by
    intro h
    have hmem : '-' ∈ m.repr.toList := by simp [h]
    exact absurd (isDigit_of_mem_repr hmem) (by decide)
  cases value with
  | ofNat m =>
    cases value' with
    | ofNat n => exact congrArg Int.ofNat (repr_inj h)
    | negSucc n => exact absurd h (hsign _ _)
  | negSucc m =>
    cases value' with
    | ofNat n => exact absurd h.symm (hsign _ _)
    | negSucc n =>
      have hsame : "-" ++ m.succ.repr = "-" ++ n.succ.repr := h
      rw [← String.toList_inj, String.toList_append, String.toList_append] at hsame
      have hrepr := repr_inj (String.toList_inj.1 (List.append_cancel_left hsame))
      rw [Nat.succ.inj hrepr]

theorem append_inj_of_ended {cs ds rest rest' : List Char} (hcs : ∀ c ∈ cs, isNumeric c = true)
    (hds : ∀ c ∈ ds, isNumeric c = true) (hrest : Ended rest) (hrest' : Ended rest')
    (h : cs ++ rest = ds ++ rest') : cs = ds ∧ rest = rest' := by
  -- both are the longest beginning of characters of numbers
  have htake {cs rest : List Char} (hcs : ∀ c ∈ cs, isNumeric c = true) (hrest : Ended rest) :
      (cs ++ rest).takeWhile isNumeric = cs := by
    rw [List.takeWhile_append_of_pos hcs]
    cases rest with
    | nil => simp
    | cons c rest => simp [hrest c rfl]
  have hsame : cs = ds := by
    rw [← htake hcs hrest, h, htake hds hrest']
  subst hsame
  exact ⟨rfl, List.append_cancel_left h⟩

theorem integer_append_inj {value value' : Int} {rest rest' : List Char} (hrest : Ended rest)
    (hrest' : Ended rest')
    (h : (toString value).toList ++ rest = (toString value').toList ++ rest') :
    value = value' ∧ rest = rest' := by
  obtain ⟨hsame, hrest⟩ := append_inj_of_ended (fun _ => isNumeric_of_mem)
    (fun _ => isNumeric_of_mem) hrest hrest' h
  exact ⟨integer_inj (String.toList_inj.1 hsame), hrest⟩

/-! ## 3. Items between brackets -/

/-- However a text goes on, what it begins with is the writing of nothing else. -/
def Legible {α : Type} (write : α → String) (a : α) : Prop :=
  ∀ b rest rest', Ended rest → Ended rest' →
    (write a).toList ++ rest = (write b).toList ++ rest' → a = b ∧ rest = rest'

section Block

variable {α : Type} {write : α → String} {opening closing : String} {level : Nat}

/-- Items on lines of their own, after the first one. -/
def following (write : α → String) (level : Nat) (items : List α) : List Char :=
  items.flatMap fun item => ',' :: ((newLine (level + 1)).toList ++ (write item).toList)

theorem block_cons_toList (write : α → String) (opening closing : String) (level : Nat) (item : α)
    (items : List α) (rest : List Char) :
    (block opening closing level ((item :: items).map write)).toList ++ rest =
      opening.toList ++ ((newLine (level + 1)).toList ++ ((write item).toList ++
        (following write level items ++ ((newLine level).toList ++ (closing.toList ++ rest))))) := by
  have hfollowing : ∀ item : α,
      (("," ++ newLine (level + 1)).intercalate ((item :: items).map write)).toList =
        (write item).toList ++ following write level items := by
    induction items with
    | nil => simp [following]
    | cons next items ih =>
      intro item
      have hnext := ih next
      rw [List.map_cons] at hnext
      rw [List.map_cons, List.map_cons, String.intercalate_cons_cons, String.toList_append, hnext]
      simp [following]
  have hblock : block opening closing level ((item :: items).map write) =
      opening ++ newLine (level + 1) ++
        ("," ++ newLine (level + 1)).intercalate ((item :: items).map write) ++
          newLine level ++ closing := rfl
  rw [hblock]
  simp only [String.toList_append, List.append_assoc, hfollowing]

theorem newLine_toList (level : Nat) : ∃ spaces, (newLine level).toList = '\n' :: spaces :=
  ⟨_, String.toList_ofList⟩

theorem ended_of_cons {c : Char} (h : isNumeric c = false) (rest : List Char) :
    Ended (c :: rest) := by
  rintro _ ⟨⟩
  exact h

/-- Items are followed by a comma or by a new line. -/
theorem ended_following (items : List α) (rest : List Char) :
    Ended (following write level items ++ ((newLine level).toList ++ rest)) := by
  cases items with
  | nil =>
    rcases newLine_toList level with ⟨spaces, hline⟩
    rw [hline]
    exact ended_of_cons (by decide) _
  | cons item items => exact ended_of_cons (by decide) _

theorem following_append_inj {items items' : List α} {rest rest' : List Char}
    (hitems : ∀ item ∈ items, Legible write item)
    (h : following write level items ++ ((newLine level).toList ++ rest) =
      following write level items' ++ ((newLine level).toList ++ rest')) :
    items = items' ∧ rest = rest' := by
  have hcomma (item : α) (items : List α) (rest rest' : List Char) :
      following write level [] ++ ((newLine level).toList ++ rest) ≠
        following write level (item :: items) ++ rest' := by
    rcases newLine_toList level with ⟨spaces, hline⟩
    intro h
    rw [hline] at h
    cases h
  induction items generalizing items' with
  | nil =>
    cases items' with
    | nil => exact ⟨rfl, List.append_cancel_left (List.append_cancel_left h)⟩
    | cons item' items' => exact absurd h (hcomma _ _ _ _)
  | cons item items ih =>
    rw [List.forall_mem_cons] at hitems
    cases items' with
    | nil => exact absurd h.symm (hcomma _ _ _ _)
    | cons item' items' =>
      simp only [following, List.flatMap_cons, List.cons_append, List.append_assoc] at h
      have hline := List.append_cancel_left (List.cons.inj h).2
      obtain ⟨rfl, htail⟩ := hitems.1 item' _ _ (ended_following items _)
        (ended_following items' _) hline
      obtain ⟨rfl, hrest⟩ := ih hitems.2 htail
      exact ⟨rfl, hrest⟩

/-- Items between brackets are legible if each of them is. -/
theorem block_append_inj {c : Char} (hclosing : closing.toList = [c]) (hc : c ≠ '\n')
    {items items' : List α} {rest rest' : List Char} (hitems : ∀ item ∈ items, Legible write item)
    (h : (block opening closing level (items.map write)).toList ++ rest =
      (block opening closing level (items'.map write)).toList ++ rest') :
    items = items' ∧ rest = rest' := by
  have hempty (rest : List Char) : (block opening closing level (([] : List α).map write)).toList ++
      rest = opening.toList ++ c :: rest := by
    have hblock : block opening closing level (([] : List α).map write) = opening ++ closing := rfl
    rw [hblock, String.toList_append, hclosing, List.append_assoc]
    rfl
  have hline (item : α) (items : List α) (rest rest' : List Char) :
      opening.toList ++ c :: rest ≠
        (block opening closing level ((item :: items).map write)).toList ++ rest' := by
    intro h
    rcases newLine_toList (level + 1) with ⟨spaces, hline⟩
    rw [block_cons_toList, hline] at h
    exact hc (List.cons.inj (List.append_cancel_left h)).1
  cases items with
  | nil =>
    rw [hempty] at h
    cases items' with
    | nil =>
      rw [hempty] at h
      exact ⟨rfl, (List.cons.inj (List.append_cancel_left h)).2⟩
    | cons item' items' => exact absurd h (hline _ _ _ _)
  | cons item items =>
    cases items' with
    | nil =>
      rw [hempty] at h
      exact absurd h.symm (hline _ _ _ _)
    | cons item' items' =>
      rw [List.forall_mem_cons] at hitems
      rw [block_cons_toList, block_cons_toList] at h
      have hfirst := List.append_cancel_left (List.append_cancel_left h)
      obtain ⟨rfl, htail⟩ := hitems.1 item' _ _ (ended_following items _)
        (ended_following items' _) hfirst
      obtain ⟨rfl, hrest⟩ := following_append_inj hitems.2 htail
      exact ⟨rfl, List.append_cancel_left hrest⟩

end Block

/-! ## 4. Values -/

theorem itemTexts_eq (level : Nat) (items : List Output) :
    itemTexts level items = items.map (textAt level) := by
  induction items with
  | nil => rw [itemTexts, List.map_nil]
  | cons item rest ih => rw [itemTexts, ih, List.map_cons]

def memberText (level : Nat) (member : String × Output) : String :=
  quoted member.1 ++ ": " ++ textAt level member.2

theorem memberTexts_eq (level : Nat) (entries : List (String × Output)) :
    memberTexts level entries = entries.map (memberText level) := by
  induction entries with
  | nil => rw [memberTexts, List.map_nil]
  | cons member rest ih => rw [memberTexts, ih, List.map_cons, memberText]

theorem legible_member {level : Nat} {member : String × Output}
    (h : Legible (textAt level) member.2) : Legible (memberText level) member := by
  intro member' rest rest' hrest hrest' hsame
  simp only [memberText, String.toList_append, List.append_assoc] at hsame
  obtain ⟨hname, hvalue⟩ := quoted_append_inj hsame
  obtain ⟨hvalue, htail⟩ := h member'.2 rest rest' hrest hrest' (List.append_cancel_left hvalue)
  exact ⟨Prod.ext hname hvalue, htail⟩

/-- The kinds of values that begin alike. -/
inductive Kind where
  | null
  | boolean (value : Bool)
  | integer
  | text
  | list
  | members

def kind : Output → Kind
  | null => .null
  | boolean value => .boolean value
  | integer _ => .integer
  | text _ => .text
  | list _ => .list
  | members _ => .members

def kindOf (c : Char) : Kind :=
  if isNumeric c then .integer
  else if c = 'n' then .null
  else if c = 't' then .boolean true
  else if c = 'f' then .boolean false
  else if c = '"' then .text
  else if c = '[' then .list
  else .members

theorem exists_kindOf (level : Nat) (value : Output) :
    ∃ c rest, (textAt level value).toList = c :: rest ∧ kindOf c = value.kind := by
  have hblock (opening : String) {c : Char} (hopening : opening.toList = [c]) (closing : String)
      (items : List String) : ∃ rest, (block opening closing level items).toList = c :: rest := by
    unfold block
    split <;> simp only [String.toList_append, hopening, List.append_assoc, List.cons_append,
      List.nil_append, List.cons.injEq, true_and, exists_eq']
  cases value with
  | null =>
    rw [textAt]
    exact ⟨_, _, rfl, rfl⟩
  | boolean value =>
    cases value <;> (rw [textAt]; exact ⟨_, _, rfl, rfl⟩)
  | integer value =>
    have hne : (toString value).toList ≠ [] := by
      intro hnil
      have hempty : toString value = "" := String.toList_inj.1 hnil
      cases value with
      | ofNat n => exact Nat.repr_ne_empty hempty
      | negSucc n => cases (congrArg String.toList hempty).symm.trans String.toList_append
    rcases List.exists_cons_of_ne_nil hne with ⟨c, rest, hrest⟩
    have hnumeric : isNumeric c = true := isNumeric_of_mem (hrest ▸ List.mem_cons_self)
    rw [textAt]
    exact ⟨c, rest, hrest, if_pos hnumeric⟩
  | text value =>
    rw [textAt, quoted, String.append_assoc, String.toList_append]
    exact ⟨'"', _, rfl, rfl⟩
  | list items =>
    rw [textAt]
    rcases hblock "[" (c := '[') rfl "]" (itemTexts (level + 1) items) with ⟨rest, hrest⟩
    exact ⟨'[', rest, hrest, rfl⟩
  | members entries =>
    rw [textAt]
    rcases hblock "\x7b" (c := '\x7b') rfl "\x7d" (memberTexts (level + 1) entries)
      with ⟨rest, hrest⟩
    exact ⟨'\x7b', rest, hrest, rfl⟩

theorem kind_eq_of_append {level : Nat} {value value' : Output} {rest rest' : List Char}
    (h : (textAt level value).toList ++ rest = (textAt level value').toList ++ rest') :
    value.kind = value'.kind := by
  rcases exists_kindOf level value with ⟨c, tail, hvalue, hc⟩
  rcases exists_kindOf level value' with ⟨c', tail', hvalue', hc'⟩
  rw [hvalue, hvalue'] at h
  rw [← hc, ← hc', (List.cons.inj h).1]

mutual

theorem legible : ∀ (value : Output) (level : Nat), Legible (textAt level) value
  | null, level => by
    intro value' rest rest' _ _ h
    have hkind := kind_eq_of_append h
    cases value' with
    | null => exact ⟨rfl, List.append_cancel_left h⟩
    | _ => cases hkind
  | boolean value, level => by
    intro value' rest rest' _ _ h
    have hkind := kind_eq_of_append h
    cases value' with
    | boolean value' =>
      cases hkind
      exact ⟨rfl, List.append_cancel_left h⟩
    | _ => cases hkind
  | integer value, level => by
    intro value' rest rest' hrest hrest' h
    have hkind := kind_eq_of_append h
    cases value' with
    | integer value' =>
      simp only [textAt] at h
      obtain ⟨rfl, htail⟩ := integer_append_inj hrest hrest' h
      exact ⟨rfl, htail⟩
    | _ => cases hkind
  | text value, level => by
    intro value' rest rest' _ _ h
    have hkind := kind_eq_of_append h
    cases value' with
    | text value' =>
      simp only [textAt] at h
      obtain ⟨rfl, htail⟩ := quoted_append_inj h
      exact ⟨rfl, htail⟩
    | _ => cases hkind
  | list items, level => by
    intro value' rest rest' _ _ h
    have hkind := kind_eq_of_append h
    cases value' with
    | list items' =>
      simp only [textAt, itemTexts_eq] at h
      obtain ⟨rfl, htail⟩ := block_append_inj (c := ']') rfl (by decide)
        (legible_items items (level + 1)) h
      exact ⟨rfl, htail⟩
    | _ => cases hkind
  | members entries, level => by
    intro value' rest rest' _ _ h
    have hkind := kind_eq_of_append h
    cases value' with
    | members entries' =>
      simp only [textAt, memberTexts_eq] at h
      obtain ⟨rfl, htail⟩ := block_append_inj (c := '\x7d') rfl (by decide)
        (legible_members entries (level + 1)) h
      exact ⟨rfl, htail⟩
    | _ => cases hkind

theorem legible_items : ∀ (items : List Output) (level : Nat),
    ∀ item ∈ items, Legible (textAt level) item
  | [], _ => nofun
  | item :: rest, level => List.forall_mem_cons.2 ⟨legible item level, legible_items rest level⟩

theorem legible_members : ∀ (entries : List (String × Output)) (level : Nat),
    ∀ member ∈ entries, Legible (memberText level) member
  | [], _ => nofun
  | (_, value) :: rest, level =>
    List.forall_mem_cons.2 ⟨legible_member (legible value level), legible_members rest level⟩

end

/-- No two values are printed alike. -/
theorem pretty_injective : Function.Injective pretty := by
  intro value value' h
  have hended : Ended [] := fun _ hc => by cases hc
  have hsame : (textAt 0 value).toList ++ [] = (textAt 0 value').toList ++ [] :=
    congrArg (fun s : String => s.toList ++ []) h
  exact (legible value 0 value' [] [] hended hended hsame).1

end ObjectMeta.Command.Output
