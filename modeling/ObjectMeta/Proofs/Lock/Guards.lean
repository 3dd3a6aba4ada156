import Mathlib.Logic.Function.Basic
import Mathlib.Tactic.Convert
import ObjectMeta.Lock.Table

/-!
# Locks and the guards in hand

A lock table is right about its threads when it counts exactly the guards that each of them has in
hand (`LockTable.Tracks`).  Such a table grants a lock exactly when no other thread has a guard that
conflicts with it, so two threads never have conflicting guards (`Tracks.compatible`); taking and
giving back locks keeps the table right.
-/

namespace ObjectMeta

/-- Two holds of one lock by different threads that do not go together. -/
def LockMode.conflicts : LockMode → LockMode → Bool
  | .read, .read => false
  | _, _ => true

theorem Assoc.mem_keys_iff {κ ν : Type} [DecidableEq κ] {m : Assoc κ ν} {k : κ} :
    k ∈ m.keys ↔ m.get? k ≠ none := by
  simp only [keys, get?, Ne, Option.map_eq_none_iff, List.find?_eq_none, List.mem_map,
    decide_eq_true_eq, not_forall, not_not]
  exact exists_congr fun e => (exists_prop).symm

/-! ## 1. One lock -/

namespace LockState

variable {τ : Type} [DecidableEq τ] {state : LockState τ} {holds : LockMode → τ → Nat}

def writeCount (state : LockState τ) (thread : τ) : Nat :=
  match state.writer with
  | some (owner, count) => if owner = thread then count else 0
  | none => 0

/-- The state counts these holds, keeps no place for a thread without one, and a writer is alone. -/
structure Tracks (state : LockState τ) (holds : LockMode → τ → Nat) : Prop where
  reads : ∀ t, state.readCount t = holds .read t
  writes : ∀ t, state.writeCount t = holds .write t
  readers_pos : ∀ t, state.readers.get? t ≠ some 0
  writer_pos : ∀ t, state.writer ≠ some (t, 0)
  alone : ∀ t t', t ≠ t' → holds .write t ≠ 0 → ∀ mode, holds mode t' = 0

theorem Tracks.empty : ({} : LockState τ).Tracks fun _ _ => 0 where
  reads _ := rfl
  writes _ := rfl
  readers_pos _ h := by cases h
  writer_pos _ h := by cases h
  alone _ _ _ h := absurd rfl h

def oneMore (holds : LockMode → τ → Nat) (mode : LockMode) (thread : τ) : LockMode → τ → Nat :=
  fun m t => if m = mode ∧ t = thread then holds m t + 1 else holds m t

def oneLess (holds : LockMode → τ → Nat) (mode : LockMode) (thread : τ) : LockMode → τ → Nat :=
  fun m t => if m = mode ∧ t = thread then holds m t - 1 else holds m t

theorem Tracks.get?_readers_eq_none (h : state.Tracks holds) (t : τ) :
    state.readers.get? t = none ↔ holds .read t = 0 := by
  have hcount := h.reads t
  have hpos := h.readers_pos t
  rw [readCount] at hcount
  cases hget : state.readers.get? t with
  | none =>
    rw [hget] at hcount
    exact ⟨fun _ => hcount.symm, fun _ => rfl⟩
  | some n =>
    rw [hget] at hcount hpos
    constructor
    · intro hnone
      cases hnone
    · intro hzero
      exact absurd (congrArg some (hcount.trans hzero)) hpos

theorem Tracks.writer_count (h : state.Tracks holds) {owner : τ} {n : Nat}
    (hw : state.writer = some (owner, n)) (t : τ) :
    (if owner = t then n else 0) = holds .write t := by
  rw [← h.writes t, writeCount, hw]

theorem Tracks.writer_eq_none (h : state.Tracks holds) :
    state.writer = none ↔ ∀ t, holds .write t = 0 := by
  constructor
  · intro hnone t
    rw [← h.writes t, writeCount, hnone]
  · intro hzero
    cases hw : state.writer with
    | none => rfl
    | some w =>
      obtain ⟨owner, n⟩ := w
      -- a writer in the table holds the lock at least once
      have hn := h.writer_count hw owner
      rw [if_pos rfl, hzero owner] at hn
      exact absurd (hn ▸ hw) (h.writer_pos owner)

theorem Tracks.writerIsNoOther_iff (h : state.Tracks holds) (thread : τ) :
    state.writerIsNoOther thread = true ↔ ∀ t, t ≠ thread → holds .write t = 0 := by
  rw [writerIsNoOther]
  cases hw : state.writer with
  | none =>
    have hzero := h.writer_eq_none.1 hw
    exact ⟨fun _ t _ => hzero t, fun _ => rfl⟩
  | some w =>
    obtain ⟨owner, n⟩ := w
    have hcount := h.writer_count hw
    simp only [decide_eq_true_eq]
    constructor
    · rintro rfl t ht
      rw [← hcount t, if_neg ht.symm]
    · intro hzero
      by_contra howner
      have hn := hzero owner howner
      rw [← hcount owner, if_pos rfl] at hn
      exact h.writer_pos owner (hn ▸ hw)

/-- A lock is granted exactly when it goes together with what the other threads hold. -/
theorem Tracks.canGrant_iff (h : state.Tracks holds) (mode : LockMode) (thread : τ) :
    state.canGrant mode thread = true ↔
      ∀ t, t ≠ thread → ∀ m, m.conflicts mode = true → holds m t = 0 := by
  cases mode with
  | read =>
    rw [canGrant, h.writerIsNoOther_iff]
    constructor
    · intro hw t ht m hm
      cases m with
      | read => cases hm
      | write => exact hw t ht
    · intro hw t ht
      exact hw t ht .write rfl
  | write =>
    -- every hold conflicts with a writer, so the readers count as well
    rw [canGrant, Bool.and_eq_true, h.writerIsNoOther_iff, List.all_eq_true]
    simp only [Assoc.mem_keys_iff, Ne, h.get?_readers_eq_none, decide_eq_true_eq]
    constructor
    · rintro ⟨hw, hr⟩ t ht m -
      cases m with
      | read => exact of_not_not fun hn => ht (hr t hn)
      | write => exact hw t ht
    · intro hall
      refine ⟨fun t ht => hall t ht .write rfl, fun t hn => ?_⟩
      by_contra ht
      exact hn (hall t ht .read rfl)

/-- A hold that goes together with those of the other threads leaves a writer alone. -/
theorem Tracks.alone_oneMore (h : state.Tracks holds) {mode : LockMode} {thread : τ}
    (hg : ∀ t, t ≠ thread → ∀ m, m.conflicts mode = true → holds m t = 0) {t t' : τ} (ht : t ≠ t')
    (hw : oneMore holds mode thread .write t ≠ 0) (m : LockMode) :
    oneMore holds mode thread m t' = 0 := by
  have hbefore := h.alone t t' ht
  simp only [oneMore] at hw ⊢
  by_cases hnew : m = mode ∧ t' = thread
  · -- the new hold is beside the writer `t`
    obtain ⟨rfl, rfl⟩ := hnew
    rw [if_neg (fun hx => ht hx.2)] at hw
    exact absurd (hg t ht .write rfl) hw
  · rw [if_neg hnew]
    by_cases hwriter : LockMode.write = mode ∧ t = thread
    · -- the new hold is the writer's
      obtain ⟨rfl, rfl⟩ := hwriter
      exact hg t' ht.symm m (by cases m <;> rfl)
    · rw [if_neg hwriter] at hw
      exact hbefore hw m

theorem Tracks.grant_read (h : state.Tracks holds) {thread : τ}
    (hg : ∀ t, t ≠ thread → ∀ m, m.conflicts .read = true → holds m t = 0) :
    (state.grant .read thread).Tracks (oneMore holds .read thread) := by
  refine ⟨fun t => ?_, h.writes, fun t => ?_, h.writer_pos, fun _ _ => h.alone_oneMore hg⟩
  · have ht := h.reads t
    have hthread := h.reads thread
    simp only [readCount] at ht hthread
    simp only [LockState.grant, readCount, Assoc.get?_set, oneMore, true_and]
    by_cases hx : thread = t
    · subst hx
      rw [if_pos rfl, if_pos rfl, Option.getD_some, hthread]
    · rw [if_neg hx, if_neg (Ne.symm hx), ht]
  · simp only [LockState.grant, Assoc.get?_set]
    split
    · intro hzero
      cases hzero
    · exact h.readers_pos t

theorem Tracks.grant_write (h : state.Tracks holds) {thread : τ}
    (hg : ∀ t, t ≠ thread → ∀ m, m.conflicts .write = true → holds m t = 0) :
    (state.grant .write thread).Tracks (oneMore holds .write thread) := by
  cases hw : state.writer with
  | none =>
    have hzero := h.writer_eq_none.1 hw
    simp only [LockState.grant, hw]
    refine ⟨h.reads, fun t => ?_, h.readers_pos, fun t => ?_, fun _ _ => h.alone_oneMore hg⟩
    · simp only [writeCount, oneMore, true_and, hzero]
      by_cases hx : thread = t
      · rw [if_pos hx, if_pos hx.symm]
      · rw [if_neg hx, if_neg (Ne.symm hx)]
    · simp
  | some w =>
    obtain ⟨owner, n⟩ := w
    have hcount := h.writer_count hw
    -- a writer that is there already is the thread itself
    have howner : owner = thread := by
      by_contra hne
      have hn := hcount owner
      rw [if_pos rfl, hg owner hne .write rfl] at hn
      exact h.writer_pos owner (hn ▸ hw)
    simp only [LockState.grant, hw]
    refine ⟨h.reads, fun t => ?_, h.readers_pos, fun t => ?_, fun _ _ => h.alone_oneMore hg⟩
    · simp only [writeCount, oneMore, true_and, ← hcount, howner]
      by_cases hx : thread = t
      · rw [if_pos hx, if_pos hx.symm, if_pos hx]
      · rw [if_neg hx, if_neg (Ne.symm hx), if_neg hx]
    · simp

theorem Tracks.grant (h : state.Tracks holds) {mode : LockMode} {thread : τ}
    (hg : state.canGrant mode thread = true) :
    (state.grant mode thread).Tracks (oneMore holds mode thread) := by
  rw [h.canGrant_iff] at hg
  cases mode with
  | read => exact h.grant_read hg
  | write => exact h.grant_write hg

/-- Fewer holds leave a writer alone. -/
theorem Tracks.alone_of_le (h : state.Tracks holds) {holds' : LockMode → τ → Nat}
    (hle : ∀ m t, holds' m t ≤ holds m t) {t t' : τ} (ht : t ≠ t') (hw : holds' .write t ≠ 0)
    (m : LockMode) : holds' m t' = 0 := by
  have hwriter : holds .write t ≠ 0 := fun hzero => hw (Nat.le_zero.1 (hzero ▸ hle .write t))
  exact Nat.le_zero.1 (h.alone t t' ht hwriter m ▸ hle m t')

theorem oneLess_le (holds : LockMode → τ → Nat) (mode : LockMode) (thread : τ) (m : LockMode)
    (t : τ) : oneLess holds mode thread m t ≤ holds m t := by
  rw [oneLess]
  split
  · exact Nat.sub_le _ _
  · exact Nat.le_refl _

theorem Tracks.release_read (h : state.Tracks holds) {thread : τ}
    (hheld : holds .read thread ≠ 0) :
    (state.release .read thread).Tracks (oneLess holds .read thread) := by
  have halone : ∀ t t', t ≠ t' → oneLess holds .read thread .write t ≠ 0 →
      ∀ m, oneLess holds .read thread m t' = 0 :=
    fun _ _ => h.alone_of_le (oneLess_le holds .read thread)
  have hread := h.reads thread
  rw [readCount] at hread
  cases hget : state.readers.get? thread with
  | none => exact absurd (h.get?_readers_eq_none thread |>.1 hget) hheld
  | some n =>
    rw [hget, Option.getD_some] at hread
    have hcounts : ∀ t, ((state.readers.get? t).getD 0) = holds .read t := h.reads
    by_cases hn : n ≤ 1
    · -- its last hold: the thread leaves the table of readers
      simp only [LockState.release, hget, if_pos hn]
      refine ⟨fun t => ?_, h.writes, fun t => ?_, h.writer_pos, halone⟩
      · simp only [readCount, Assoc.get?_erase, oneLess, true_and]
        by_cases hx : thread = t
        · subst hx
          rw [if_pos rfl, if_pos rfl, Option.getD_none]
          omega
        · rw [if_neg hx, if_neg (Ne.symm hx), hcounts]
      · simp only [Assoc.get?_erase]
        split
        · intro hnone
          cases hnone
        · exact h.readers_pos t
    · -- one hold less, and the thread stays among the readers
      simp only [LockState.release, hget, if_neg hn]
      refine ⟨fun t => ?_, h.writes, fun t => ?_, h.writer_pos, halone⟩
      · simp only [readCount, Assoc.get?_set, oneLess, true_and]
        by_cases hx : thread = t
        · subst hx
          rw [if_pos rfl, if_pos rfl, Option.getD_some, hread]
        · rw [if_neg hx, if_neg (Ne.symm hx), hcounts]
      · simp only [Assoc.get?_set]
        split
        · intro hzero
          have := Option.some.inj hzero
          omega
        · exact h.readers_pos t

theorem Tracks.release_write (h : state.Tracks holds) {thread : τ}
    (hheld : holds .write thread ≠ 0) :
    (state.release .write thread).Tracks (oneLess holds .write thread) := by
  have halone : ∀ t t', t ≠ t' → oneLess holds .write thread .write t ≠ 0 →
      ∀ m, oneLess holds .write thread m t' = 0 :=
    fun _ _ => h.alone_of_le (oneLess_le holds .write thread)
  cases hw : state.writer with
  | none => exact absurd (h.writer_eq_none.1 hw thread) hheld
  | some w =>
    obtain ⟨owner, n⟩ := w
    have hcount := h.writer_count hw
    -- The thread has a hold for writing, so it is the writer.
    have howner : owner = thread := by
      by_contra hne
      exact hheld (by rw [← hcount thread, if_neg hne])
    subst howner
    by_cases hn : n ≤ 1
    · -- its last hold: there is no writer any more
      simp only [LockState.release, hw, if_pos hn]
      refine ⟨h.reads, fun t => ?_, h.readers_pos, fun t => ?_, halone⟩
      · simp only [writeCount, oneLess, true_and, ← hcount]
        by_cases hx : owner = t
        · rw [if_pos hx.symm, if_pos hx]
          omega
        · rw [if_neg (Ne.symm hx), if_neg hx]
      · simp
    · simp only [LockState.release, hw, if_neg hn]
      refine ⟨h.reads, fun t => ?_, h.readers_pos, fun t => ?_, halone⟩
      · simp only [writeCount, oneLess, true_and, ← hcount]
        by_cases hx : owner = t
        · rw [if_pos hx, if_pos hx.symm, if_pos hx]
        · rw [if_neg hx, if_neg (Ne.symm hx), if_neg hx]
      · intro hzero
        have := (Prod.mk.inj (Option.some.inj hzero)).2
        omega

theorem Tracks.release (h : state.Tracks holds) {mode : LockMode} {thread : τ}
    (hheld : holds mode thread ≠ 0) :
    (state.release mode thread).Tracks (oneLess holds mode thread) := by
  cases mode with
  | read => exact h.release_read hheld
  | write => exact h.release_write hheld

end LockState

/-! ## 2. The table -/

namespace LockTable

variable {τ : Type} [DecidableEq τ] {table : LockTable τ} {held : τ → List LockGuard}

theorem state_grant (table : LockTable τ) (path path' : ResourcePath) (mode : LockMode)
    (thread : τ) : (table.grant path mode thread).state path' =
      if path = path' then (table.state path').grant mode thread else table.state path' := by
  rw [state, grant, Assoc.get?_set]
  split
  · next hpath =>
    subst hpath
    rfl
  · rfl

theorem state_release (table : LockTable τ) (path path' : ResourcePath) (mode : LockMode)
    (thread : τ) : (table.release path mode thread).state path' =
      if path = path' then (table.state path').release mode thread else table.state path' := by
  -- a lock that the table does not list is free already
  cases hget : table.locks.get? path with
  | none =>
    have hsame : table.release path mode thread = table := by rw [release, hget]
    rw [hsame]
    split
    · next hpath =>
      subst hpath
      rw [state, hget]
      cases mode <;> rfl
    · rfl
  | some before =>
    have hbefore : table.state path = before := by rw [state, hget, Option.getD_some]
    simp only [release, hget]
    by_cases hfree : (before.release mode thread).isFree = true
    · rw [if_pos hfree, state, Assoc.get?_erase]
      split
      · next hpath =>
        subst hpath
        rw [hbefore, Option.getD_none]
        -- nothing is left of a free lock, so it is the one that the table does not list
        rw [LockState.isFree, Bool.and_eq_true, Assoc.isEmpty, List.isEmpty_iff,
          Option.isNone_iff_eq_none] at hfree
        obtain ⟨hreaders, hwriter⟩ := hfree
        cases hafter : before.release mode thread
        rw [hafter] at hreaders hwriter
        subst hwriter
        exact congrArg (LockState.mk · none) (congrArg Assoc.mk hreaders.symm)
      · rfl
    · rw [if_neg hfree, state, Assoc.get?_set]
      split
      · next hpath =>
        subst hpath
        rw [hbefore, Option.getD_some]
      · rfl

theorem canGrant_eq (table : LockTable τ) (path : ResourcePath) (mode : LockMode) (thread : τ) :
    table.canGrant path mode thread = (table.state path).canGrant mode thread := by
  rw [canGrant, state]
  cases table.locks.get? path with
  | none => cases mode <;> rfl
  | some before => rfl

/-- The table counts the guards that the threads have in hand, and no others. -/
def Tracks (table : LockTable τ) (held : τ → List LockGuard) : Prop :=
  ∀ path, (table.state path).Tracks fun mode t => (held t).count ⟨path, mode⟩

theorem Tracks.empty : ({} : LockTable τ).Tracks fun _ => [] := fun _ => LockState.Tracks.empty

/-- A lock is granted exactly when no other thread has a guard that conflicts with it. -/
theorem Tracks.canGrant_iff (h : table.Tracks held) (path : ResourcePath) (mode : LockMode)
    (thread : τ) : table.canGrant path mode thread = true ↔
      ∀ t, t ≠ thread → ∀ m, m.conflicts mode = true → ⟨path, m⟩ ∉ held t := by
  rw [canGrant_eq, (h path).canGrant_iff]
  simp only [List.count_eq_zero]

/-- Two threads never have guards that conflict. -/
theorem Tracks.compatible (h : table.Tracks held) {t t' : τ} (ht : t ≠ t') {path : ResourcePath}
    {mode : LockMode} (hw : ⟨path, .write⟩ ∈ held t) : ⟨path, mode⟩ ∉ held t' := by
  have hcount := (h path).alone t t' ht (Nat.ne_of_gt (List.count_pos_iff.2 hw)) mode
  rwa [List.count_eq_zero] at hcount

theorem Tracks.grant (h : table.Tracks held) {path : ResourcePath} {mode : LockMode} {thread : τ}
    (hg : table.canGrant path mode thread = true) :
    (table.grant path mode thread).Tracks
      (Function.update held thread (⟨path, mode⟩ :: held thread)) := by
  intro path'
  rw [canGrant_eq] at hg
  rw [state_grant]
  split
  · next hpath =>
    subst hpath
    -- the lock that is granted gains one guard in hand
    convert (h path).grant hg using 3 with m t
    rw [LockState.oneMore]
    by_cases ht : t = thread
    · subst ht
      rw [Function.update_self, List.count_cons]
      by_cases hm : m = mode
      · simp [hm]
      · simp [hm, Ne.symm hm]
    · rw [Function.update_of_ne ht, if_neg (fun hx => ht hx.2)]
  · next hpath =>
    convert h path' using 3 with m t
    by_cases ht : t = thread
    · subst ht
      rw [Function.update_self, List.count_cons]
      simp [hpath]
    · rw [Function.update_of_ne ht]

theorem Tracks.release (h : table.Tracks held) {path : ResourcePath} {mode : LockMode} {thread : τ}
    (hheld : ⟨path, mode⟩ ∈ held thread) :
    (table.release path mode thread).Tracks
      (Function.update held thread ((held thread).erase ⟨path, mode⟩)) := by
  intro path'
  rw [state_release]
  split
  · next hpath =>
    subst hpath
    -- the lock that is given back loses one guard in hand
    convert (h path).release (Nat.ne_of_gt (List.count_pos_iff.2 hheld)) using 3 with m t
    rw [LockState.oneLess]
    by_cases ht : t = thread
    · subst ht
      rw [Function.update_self, List.count_erase]
      by_cases hm : m = mode
      · simp [hm]
      · simp [hm, Ne.symm hm]
    · rw [Function.update_of_ne ht, if_neg (fun hx => ht hx.2)]
  · next hpath =>
    convert h path' using 3 with m t
    by_cases ht : t = thread
    · subst ht
      rw [Function.update_self, List.count_erase]
      simp [hpath]
    · rw [Function.update_of_ne ht]

end LockTable

end ObjectMeta
