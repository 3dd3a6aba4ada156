import ObjectMeta.Reader

/-!
# What readers accept

A layout says which byte strings stand for a value.  A reader accepts a layout when it succeeds on
the byte strings that begin with one of it, and on no others, and leaves all that follows.  Reading
in sequence accepts the layouts in sequence (`Accepts.bind`), so the law of a whole layout is put
together from those of its fields, for both directions at once.
-/

namespace ObjectMeta.Reader

variable {ε α β : Type} {r : Reader ε α} {layout : α → Bytes → Prop}

/-- The reader takes a byte string of the layout from the front, and fails where there is none. -/
def Accepts (r : Reader ε α) (layout : α → Bytes → Prop) : Prop :=
  ∀ b a rest, r b = .ok (a, rest) ↔ ∃ used, layout a used ∧ b = used ++ rest

theorem run_bind (r : Reader ε α) (f : α → Reader ε β) (b : Bytes) :
    (r >>= f) b = (r b).bind fun p => f p.1 p.2 := rfl

/-- A value whose layout comes first is read, whatever follows it. -/
theorem Accepts.read_append (h : r.Accepts layout) {a : α} {used : Bytes} (ha : layout a used)
    (rest : Bytes) : r (used ++ rest) = .ok (a, rest) :=
  (h _ _ _).2 ⟨used, ha, rfl⟩

theorem Accepts.congr {layout' : α → Bytes → Prop} (h : r.Accepts layout)
    (hl : ∀ a used, layout a used ↔ layout' a used) : r.Accepts layout' := by
  intro b a rest
  rw [h b a rest]
  exact exists_congr fun used => and_congr_left fun _ => hl a used

theorem accepts_pure (a : α) : (pure a : Reader ε α).Accepts fun x used => x = a ∧ used = [] := by
  intro b x rest
  show Except.ok (a, b) = .ok (x, rest) ↔ _
  constructor
  · intro h
    cases h
    exact ⟨[], ⟨rfl, rfl⟩, rfl⟩
  · rintro ⟨_, ⟨rfl, rfl⟩, rfl⟩
    rfl

theorem accepts_fail (reason : ε) : (fail reason : Reader ε α).Accepts fun _ _ => False := by
  intro b x rest
  simp [fail]

/-- A check in front of a reader takes nothing. -/
theorem Accepts.unless (p : Prop) [Decidable p] (reason : ε) (h : r.Accepts layout) :
    (if p then fail reason else r).Accepts fun a used => ¬p ∧ layout a used := by
  by_cases hp : p
  · rw [if_pos hp]
    exact (accepts_fail reason).congr fun _ _ => ⟨False.elim, fun h => h.1 hp⟩
  · rw [if_neg hp]
    exact h.congr fun _ _ => (and_iff_right hp).symm

theorem accepts_take (n : Nat) (short : ε) :
    (take n short : Reader ε Bytes).Accepts fun a used => a = used ∧ used.length = n := by
  intro b a rest
  unfold take
  split
  next hshort =>
    constructor
    · intro h
      cases h
    · rintro ⟨used, ⟨-, hlen⟩, rfl⟩
      rw [List.length_append] at hshort
      omega
  next hlong =>
    constructor
    · intro h
      cases h
      exact ⟨b.take n, ⟨rfl, List.length_take_of_le (Nat.le_of_not_lt hlong)⟩,
        (List.take_append_drop n b).symm⟩
    · rintro ⟨_, ⟨rfl, hlen⟩, rfl⟩
      rw [List.take_left' hlen, List.drop_left' hlen]

/-- Reading one thing after the other accepts one layout after the other. -/
theorem Accepts.bind {f : α → Reader ε β} {layout' : α → β → Bytes → Prop} (hr : r.Accepts layout)
    (hf : ∀ a, (f a).Accepts (layout' a)) :
    (r >>= f).Accepts fun c used =>
      ∃ a first second, layout a first ∧ layout' a c second ∧ used = first ++ second := by
  intro b c rest
  rw [run_bind]
  constructor
  · intro h
    cases hb : r b with
    | error e => rw [hb] at h; cases h
    | ok p =>
      rw [hb] at h
      obtain ⟨first, hfirst, rfl⟩ := (hr b p.1 p.2).1 hb
      obtain ⟨second, hsecond, hrest⟩ := (hf p.1 p.2 c rest).1 h
      refine ⟨first ++ second, ⟨p.1, first, second, hfirst, hsecond, rfl⟩, ?_⟩
      rw [hrest, List.append_assoc]
  · rintro ⟨used, ⟨a, first, second, hfirst, hsecond, rfl⟩, rfl⟩
    rw [List.append_assoc, hr.read_append hfirst]
    exact (hf a).read_append hsecond rest

/-- Reading `n` values accepts the layouts of `n` values, one after the other. -/
theorem Accepts.times {form : α → Bytes} {valid : α → Prop}
    (h : r.Accepts fun a used => valid a ∧ used = form a) (n : Nat) :
    (times n r).Accepts fun l used =>
      l.length = n ∧ (∀ a ∈ l, valid a) ∧ used = l.flatMap form := by
  induction n with
  | zero =>
    refine (accepts_pure []).congr fun l used => ?_
    rw [List.length_eq_zero_iff]
    constructor
    · rintro ⟨rfl, rfl⟩
      simp
    · rintro ⟨rfl, -, rfl⟩
      exact ⟨rfl, rfl⟩
  | succ n ih =>
    refine (h.bind fun a => ih.bind fun l => accepts_pure (a :: l)).congr fun l used => ?_
    constructor
    · rintro ⟨a, _, _, ⟨ha, rfl⟩, ⟨l, _, _, ⟨hn, hl, rfl⟩, ⟨rfl, rfl⟩, rfl⟩, rfl⟩
      refine ⟨by rw [List.length_cons, hn], List.forall_mem_cons.2 ⟨ha, hl⟩, ?_⟩
      rw [List.flatMap_cons, List.append_nil]
    · rintro ⟨hn, hl, rfl⟩
      obtain _ | ⟨a, l⟩ := l
      · cases hn
      · rw [List.forall_mem_cons] at hl
        refine ⟨a, _, l.flatMap form, ⟨hl.1, rfl⟩, ⟨l, _, [], ⟨?_, hl.2, rfl⟩, ⟨rfl, rfl⟩, ?_⟩, ?_⟩
        · simpa using hn
        · rw [List.append_nil]
        · rw [List.flatMap_cons]

end ObjectMeta.Reader
