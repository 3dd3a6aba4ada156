import Mathlib.Data.Finset.Card
import ObjectMeta.Proofs.Lock.Guards

/-!
# What the lock table shows

Threads take locks as they are granted, a lock that they hold already among them, and drop their
guards in any order.  After every such run the table shows the guards in hand and nothing else
(`LockUse.Exact`, `LockUse.run_exact`): it has an entry for each path that is held, counts the holds
of each reader and of the writer, and lets nobody else hold what a thread holds for writing.
-/

namespace ObjectMeta

variable {τ : Type} [DecidableEq τ]

/-! ## 1. Threads that take and drop locks -/

/-- A lock table, and the guards that the threads have in hand. -/
structure LockUse (τ : Type) where
  table : LockTable τ := {}
  held : τ → List LockGuard := fun _ => []

inductive LockMove (τ : Type) where
  /-- Asks for a lock, and takes it if it can be granted now. -/
  | acquire (thread : τ) (path : ResourcePath) (mode : LockMode)
  /-- Drops one of the guards in hand. -/
  | drop (thread : τ) (guard : LockGuard)

namespace LockUse

/-- Makes a move; a thread that has to wait, or has no such guard, changes nothing. -/
def step (s : LockUse τ) : LockMove τ → LockUse τ
  | .acquire thread path mode =>
    if s.table.canGrant path mode thread then
      { table := s.table.grant path mode thread
        held := Function.update s.held thread (⟨path, mode⟩ :: s.held thread) }
    else s
  | .drop thread guard =>
    if guard ∈ s.held thread then
      { table := s.table.release guard.path guard.mode thread
        held := Function.update s.held thread ((s.held thread).erase guard) }
    else s

def run (s : LockUse τ) (moves : List (LockMove τ)) : LockUse τ := moves.foldl step s

structure Exact (s : LockUse τ) : Prop where
  /-- There is an entry for a path exactly if somebody holds it. -/
  entry : ∀ path, (s.table.locks.get? path).isSome ↔ ∃ t mode, ⟨path, mode⟩ ∈ s.held t
  /-- A reader is listed with the number of its guards, and nobody else is listed. -/
  readers : ∀ path t, (s.table.state path).readers.get? t =
    if (s.held t).count ⟨path, .read⟩ = 0 then none else some ((s.held t).count ⟨path, .read⟩)
  /-- A writer is listed with the number of its guards exactly if it has all guards for writing. -/
  writer : ∀ path t n, (s.table.state path).writer = some (t, n) ↔
    1 ≤ n ∧ (s.held t).count ⟨path, .write⟩ = n ∧ ∀ t', t' ≠ t → ⟨path, .write⟩ ∉ s.held t'
  /-- Who holds a path for writing is its only holder. -/
  exclusive : ∀ path t t' mode, ⟨path, .write⟩ ∈ s.held t → ⟨path, mode⟩ ∈ s.held t' → t' = t
  isLocked : ∀ path, s.table.isLocked path = true ↔ ∃ t mode, ⟨path, mode⟩ ∈ s.held t
  readerCount : ∀ path, ∃ readers : Finset τ,
    (∀ t, t ∈ readers ↔ ⟨path, .read⟩ ∈ s.held t) ∧ s.table.readerCount path = readers.card
  isWriteLocked : ∀ path, s.table.isWriteLocked path = true ↔ ∃ t, ⟨path, .write⟩ ∈ s.held t
  /-- A guard that is dropped finds a count to take one from. -/
  counted : ∀ t guard, guard ∈ s.held t → ∃ state, s.table.locks.get? guard.path = some state ∧
    match guard.mode with
    | .read => ∃ n, state.readers.get? t = some (n + 1)
    | .write => ∃ n, state.writer = some (t, n + 1)
  /-- Nothing is left when all guards are dropped. -/
  empty : (∀ t, s.held t = []) → s.table = {}

end LockUse

/-! ## 2. No entry without a holder -/

namespace Assoc

variable {κ ν : Type} [DecidableEq κ] {m : Assoc κ ν}

theorem keys_erase (m : Assoc κ ν) (k : κ) : (m.erase k).keys = m.keys.filter (· ≠ k) := by
  unfold keys erase
  rw [List.filter_map]
  rfl

theorem nodup_keys_erase (h : m.keys.Nodup) (k : κ) : (m.erase k).keys.Nodup := by
  rw [keys_erase]
  exact h.filter _

theorem nodup_keys_set (h : m.keys.Nodup) (k : κ) (v : ν) : (m.set k v).keys.Nodup := by
  show (k :: (m.erase k).keys).Nodup
  rw [List.nodup_cons, keys_erase]
  exact ⟨fun hk => by simp at hk, h.filter _⟩

theorem eq_empty_of_get? (h : ∀ k, m.get? k = none) : m = ∅ := by
  obtain ⟨entries⟩ := m
  cases entries with
  | nil => rfl
  | cons e rest =>
    -- the first entry is found under its key
    have he := h e.1
    unfold get? at he
    rw [List.find?_cons_of_pos (by simp)] at he
    cases he

end Assoc

namespace LockState

variable {state : LockState τ} {holds : LockMode → τ → Nat}

/-- A lock is free exactly if nobody holds it. -/
theorem Tracks.isFree_iff (h : state.Tracks holds) :
    state.isFree = true ↔ ∀ mode t, holds mode t = 0 := by
  unfold isFree
  rw [Bool.and_eq_true, Option.isNone_iff_eq_none, h.writer_eq_none]
  constructor
  · intro h' mode t
    rcases h' with ⟨hreaders, hwriters⟩
    cases mode with
    | read =>
      have hempty : state.readers = ∅ := congrArg Assoc.mk (List.isEmpty_iff.1 hreaders)
      rw [← h.get?_readers_eq_none, hempty]
      rfl
    | write => exact hwriters t
  · intro hzero
    refine ⟨?_, hzero .write⟩
    rw [Assoc.eq_empty_of_get? fun t => (h.get?_readers_eq_none t).2 (hzero .read t)]
    rfl

/-- A thread is listed among the readers with the number of its holds, if it has any. -/
theorem Tracks.get?_readers (h : state.Tracks holds) (t : τ) : state.readers.get? t =
    if holds .read t = 0 then none else some (holds .read t) := by
  split
  · next hzero => exact (h.get?_readers_eq_none t).2 hzero
  · next hpos =>
    have hcount := h.reads t
    unfold readCount at hcount
    cases hget : state.readers.get? t with
    | none => exact absurd ((h.get?_readers_eq_none t).1 hget) hpos
    | some n =>
      rw [hget, Option.getD_some] at hcount
      rw [hcount]

/-- The writer that is listed has all holds for writing. -/
theorem Tracks.writer_eq_some_iff (h : state.Tracks holds) {t : τ} {n : Nat} :
    state.writer = some (t, n) ↔
      1 ≤ n ∧ holds .write t = n ∧ ∀ t', t' ≠ t → holds .write t' = 0 := by
  constructor
  · intro hw
    have hcount := h.writer_count hw
    refine ⟨?_, ?_, fun t' ht => ?_⟩
    · have hpos : n ≠ 0 := fun hzero => h.writer_pos t (hzero ▸ hw)
      omega
    · rw [← hcount t, if_pos rfl]
    · rw [← hcount t', if_neg (Ne.symm ht)]
  · intro h'
    rcases h' with ⟨hpos, hn, hothers⟩
    cases hw : state.writer with
    | none =>
      have hzero := h.writer_eq_none.1 hw t
      omega
    | some w =>
      obtain ⟨owner, count⟩ := w
      have hcount := h.writer_count hw owner
      rw [if_pos rfl] at hcount
      -- the writer that is listed is the one who holds the lock
      have howner : owner = t := by
        by_contra hne
        rw [hothers owner hne] at hcount
        exact h.writer_pos owner (hcount ▸ hw)
      subst howner
      rw [hcount, hn]

theorem isFree_grant (state : LockState τ) (mode : LockMode) (thread : τ) :
    (state.grant mode thread).isFree = false := by
  unfold LockState.grant isFree
  cases mode with
  | read => rfl
  | write => cases state.writer <;> simp

theorem nodup_readers_grant (h : state.readers.keys.Nodup) (mode : LockMode) (thread : τ) :
    (state.grant mode thread).readers.keys.Nodup := by
  unfold LockState.grant
  cases mode with
  | read => exact Assoc.nodup_keys_set h _ _
  | write => cases state.writer <;> exact h

theorem nodup_readers_release (h : state.readers.keys.Nodup) (mode : LockMode) (thread : τ) :
    (state.release mode thread).readers.keys.Nodup := by
  unfold LockState.release
  cases mode with
  | read =>
    dsimp only
    split
    · exact h
    · split
      · exact Assoc.nodup_keys_erase h _
      · exact Assoc.nodup_keys_set h _ _
  | write =>
    dsimp only
    split
    · exact h
    · split <;> exact h

end LockState

namespace LockTable

/-- Every lock in the table is held, and lists each of its readers once. -/
structure Tidy (table : LockTable τ) : Prop where
  held : ∀ path state, table.locks.get? path = some state → state.isFree = false
  nodup : ∀ path, (table.state path).readers.keys.Nodup

variable {table : LockTable τ} {held : τ → List LockGuard}

omit [DecidableEq τ] in
theorem Tidy.empty : ({} : LockTable τ).Tidy where
  held _ _ h := by cases h
  nodup _ := List.nodup_nil

theorem Tidy.grant (h : table.Tidy) (path : ResourcePath) (mode : LockMode) (thread : τ) :
    (table.grant path mode thread).Tidy where
  held path' state hget := by
    unfold LockTable.grant at hget
    rw [Assoc.get?_set] at hget
    split at hget
    · cases hget
      exact LockState.isFree_grant _ mode thread
    · exact h.held path' state hget
  nodup path' := by
    rw [state_grant]
    split
    · exact LockState.nodup_readers_grant (h.nodup path') mode thread
    · exact h.nodup path'

theorem Tidy.release (h : table.Tidy) (path : ResourcePath) (mode : LockMode) (thread : τ) :
    (table.release path mode thread).Tidy where
  held path' state hget := by
    unfold LockTable.release at hget
    split at hget
    · exact h.held path' state hget
    · dsimp only at hget
      split at hget
      · rw [Assoc.get?_erase] at hget
        split at hget
        · cases hget
        · exact h.held path' state hget
      · next hheld =>
        rw [Assoc.get?_set] at hget
        split at hget
        · cases hget
          exact Bool.eq_false_iff.2 hheld
        · exact h.held path' state hget
  nodup path' := by
    rw [state_release]
    split
    · exact LockState.nodup_readers_release (h.nodup path') mode thread
    · exact h.nodup path'

omit [DecidableEq τ] in
theorem state_of_get? {path : ResourcePath} {state : LockState τ}
    (h : table.locks.get? path = some state) : table.state path = state := by
  unfold LockTable.state
  rw [h, Option.getD_some]

/-- A path has an entry exactly if somebody holds it. -/
theorem Tidy.isSome_get?_iff (h : table.Tidy) (ht : table.Tracks held) (path : ResourcePath) :
    (table.locks.get? path).isSome ↔ ∃ t mode, ⟨path, mode⟩ ∈ held t := by
  have hfree := (ht path).isFree_iff
  simp only [List.count_eq_zero] at hfree
  cases hget : table.locks.get? path with
  | none =>
    have hnone : table.state path = {} := by
      unfold LockTable.state
      rw [hget, Option.getD_none]
    rw [hnone] at hfree
    refine ⟨nofun, fun ⟨t, mode, hmem⟩ => absurd hmem (hfree.1 rfl mode t)⟩
  | some state =>
    refine ⟨fun _ => ?_, fun _ => rfl⟩
    rw [state_of_get? hget, h.held path state hget] at hfree
    by_contra hnobody
    exact absurd (hfree.2 fun mode t hmem => hnobody ⟨t, mode, hmem⟩) Bool.false_ne_true

end LockTable

/-! ## 3. Every run -/

namespace LockUse

theorem step_tracks {s : LockUse τ} (h : s.table.Tracks s.held) (m : LockMove τ) :
    (s.step m).table.Tracks (s.step m).held := by
  cases m with
  | acquire thread path mode =>
    unfold step
    dsimp only
    split
    · next hgrant => exact h.grant hgrant
    · exact h
  | drop thread guard =>
    unfold step
    dsimp only
    split
    · next hmem => exact h.release hmem
    · exact h

theorem step_tidy {s : LockUse τ} (h : s.table.Tidy) (m : LockMove τ) : (s.step m).table.Tidy := by
  cases m with
  | acquire thread path mode =>
    unfold step
    dsimp only
    split
    · exact h.grant path mode thread
    · exact h
  | drop thread guard =>
    unfold step
    dsimp only
    split
    · exact h.release guard.path guard.mode thread
    · exact h

theorem run_tracks {s : LockUse τ} (h : s.table.Tracks s.held ∧ s.table.Tidy)
    (moves : List (LockMove τ)) :
    (s.run moves).table.Tracks (s.run moves).held ∧ (s.run moves).table.Tidy := by
  induction moves generalizing s with
  | nil => exact h
  | cons m moves ih => exact ih ⟨step_tracks h.1 m, step_tidy h.2 m⟩

theorem exact_of_tracks {s : LockUse τ} (h : s.table.Tracks s.held) (ht : s.table.Tidy) :
    s.Exact where
  entry := ht.isSome_get?_iff h
  readers path t := (h path).get?_readers t
  writer path t n := by
    rw [(h path).writer_eq_some_iff]
    simp only [List.count_eq_zero]
  exclusive path t t' mode hw hm := by
    by_contra hne
    exact h.compatible (Ne.symm hne) hw hm
  isLocked path := ht.isSome_get?_iff h path
  readerCount path := by
    refine ⟨(s.table.state path).readers.keys.toFinset, fun t => ?_, ?_⟩
    · rw [List.mem_toFinset, Assoc.mem_keys_iff, Ne, (h path).get?_readers_eq_none,
        List.count_eq_zero, Decidable.not_not]
    · rw [List.toFinset_card_of_nodup (ht.nodup path)]
      exact (List.length_map ..).symm
  isWriteLocked path := by
    unfold LockTable.isWriteLocked
    rw [← not_iff_not, Bool.not_eq_true, Option.isSome_eq_false_iff, Option.isNone_iff_eq_none,
      (h path).writer_eq_none]
    simp only [List.count_eq_zero, not_exists]
  counted t guard hmem := by
    obtain ⟨path, mode⟩ := guard
    obtain ⟨state, hget⟩ := Option.isSome_iff_exists.1
      ((ht.isSome_get?_iff h path).2 ⟨t, mode, hmem⟩)
    have htracks := h path
    rw [LockTable.state_of_get? hget] at htracks
    have hcount := List.count_pos_iff.2 hmem
    refine ⟨state, hget, ?_⟩
    cases mode with
    | read =>
      refine ⟨(s.held t).count ⟨path, .read⟩ - 1, ?_⟩
      rw [htracks.get?_readers, if_neg (by omega), Nat.sub_add_cancel hcount]
    | write =>
      refine ⟨(s.held t).count ⟨path, .write⟩ - 1, htracks.writer_eq_some_iff.2 ?_⟩
      refine ⟨by omega, by omega, fun t' hne => htracks.alone t t' (Ne.symm hne) ?_ .write⟩
      omega
  empty hnone := by
    have hlocks : s.table.locks = ∅ := by
      apply Assoc.eq_empty_of_get?
      intro path
      rw [← Option.not_isSome_iff_eq_none, ht.isSome_get?_iff h]
      intro hsome
      rcases hsome with ⟨t, mode, hmem⟩
      rw [hnone t] at hmem
      exact absurd hmem List.not_mem_nil
    exact congrArg LockTable.mk hlocks

/-- Whatever threads take and drop, the table shows exactly the guards in hand, and who writes is
alone. -/
theorem run_exact (moves : List (LockMove τ)) : (run ({} : LockUse τ) moves).Exact := by
  have hstart : ({} : LockUse τ).table.Tracks ({} : LockUse τ).held ∧ ({} : LockUse τ).table.Tidy :=
    ⟨LockTable.Tracks.empty, LockTable.Tidy.empty⟩
  obtain ⟨htracks, htidy⟩ := run_tracks hstart moves
  exact exact_of_tracks htracks htidy

-- A sole reader may write as well; when it drops its guard for reading, others still have to wait.
example : let path : ResourcePath := .bucket "v" "b"
    (run ({} : LockUse Bool) [.acquire true path .read, .acquire true path .write,
      .drop true ⟨path, .read⟩, .acquire false path .read]).table.view path =
      { locked := true, readers := 0, writer := true } := by decide

end LockUse

end ObjectMeta
