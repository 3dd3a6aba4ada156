/-!
# Association lists

A finite map as a list of keys and values.  Setting a key takes its older entry out, so every key
has at most one entry.
-/

namespace ObjectMeta

/-- A finite map. -/
structure Assoc (κ ν : Type) where
  entries : List (κ × ν) := []
  deriving Repr

namespace Assoc

variable {κ ν : Type} [DecidableEq κ]

def get? (m : Assoc κ ν) (k : κ) : Option ν := (m.entries.find? (·.1 = k)).map (·.2)

def erase (m : Assoc κ ν) (k : κ) : Assoc κ ν := ⟨m.entries.filter (·.1 ≠ k)⟩

def set (m : Assoc κ ν) (k : κ) (v : ν) : Assoc κ ν := ⟨(k, v) :: (m.erase k).entries⟩

def size (m : Assoc κ ν) : Nat := m.entries.length

def isEmpty (m : Assoc κ ν) : Bool := m.entries.isEmpty

def keys (m : Assoc κ ν) : List κ := m.entries.map (·.1)

omit [DecidableEq κ] in
def empty : Assoc κ ν := ⟨[]⟩

instance : EmptyCollection (Assoc κ ν) := ⟨empty⟩

instance : Inhabited (Assoc κ ν) := ⟨empty⟩

theorem get?_empty (k : κ) : (∅ : Assoc κ ν).get? k = none := rfl

theorem get?_erase (m : Assoc κ ν) (k k' : κ) :
    (m.erase k).get? k' = if k = k' then none else m.get? k' := by
  obtain ⟨entries⟩ := m
  simp only [get?, erase, List.find?_filter]
  split
  · subst k'
    rw [List.find?_eq_none.2]
    · rfl
    · simp
  · rename_i h
    congr 1
    induction entries with
    | nil => rfl
    | cons e rest ih =>
      by_cases he : e.1 = k'
      · have : e.1 ≠ k := fun hk => h (hk ▸ he)
        simp [he, Ne.symm h]
      · simpa [he] using ih

theorem get?_set (m : Assoc κ ν) (k k' : κ) (v : ν) :
    (m.set k v).get? k' = if k = k' then some v else m.get? k' := by
  have h := get?_erase m k k'
  simp only [get?, set, List.find?_cons] at h ⊢
  by_cases hk : k = k'
  · simp [hk]
  · simpa [hk] using h

end Assoc

end ObjectMeta
