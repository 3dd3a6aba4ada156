import ObjectMeta.Proofs.Lock.Outstanding

/-!
# Sleeping and waking

A thread whose lock cannot be granted sleeps, and one condition wakes the sleepers of all paths: who
gives a lock back first updates the table and then, in a step of its own, wakes everybody, so other
threads check, fall asleep and give back locks in between.  No sleeper is forgotten
(`LockMonitor.run_noLostWakeUp`): while a request that sleeps could be granted, a release of its
path has still to wake the sleepers; and when no release is between its two steps, whoever sleeps
waits for a guard that another thread has in hand.

Only a release can make a request grantable (`LockTable.Tracks.canGrant_of_grant`), and only a
release of its own path (`LockTable.canGrant_release_of_ne`).
-/

namespace ObjectMeta

variable {τ : Type} [DecidableEq τ]

/-! ## 1. Threads that wait -/

inductive LockPhase where
  /-- Nothing: it works with the guards it has in hand. -/
  | idle
  /-- It is awake and about to check whether a lock can be granted. -/
  | asking (guard : LockGuard)
  /-- It has found that the lock cannot be granted, and sleeps. -/
  | asleep (guard : LockGuard)
  /-- It has given a lock back in the table, and is about to wake the sleepers. -/
  | notifying (guard : LockGuard)
  deriving DecidableEq

/-- The phase after everybody is woken: a sleeper checks again. -/
def LockPhase.woken : LockPhase → LockPhase
  | .asleep guard => .asking guard
  | phase => phase

/-- Threads that use a lock table, and where each of them stands. -/
structure LockMonitor (τ : Type) extends LockUse τ where
  phase : τ → LockPhase := fun _ => .idle

inductive MonitorMove (τ : Type) where
  /-- Begins to ask for a lock. -/
  | ask (thread : τ) (guard : LockGuard)
  /-- Looks whether the lock can be granted; takes it if so, and falls asleep if not. -/
  | check (thread : τ)
  /-- Gives a guard back in the table. -/
  | drop (thread : τ) (guard : LockGuard)
  /-- Wakes all sleepers after a guard was given back. -/
  | notify (thread : τ)

namespace LockMonitor

/-- Makes a step; one that is not the thread's turn changes nothing. -/
def step (s : LockMonitor τ) : MonitorMove τ → LockMonitor τ
  | .ask thread guard =>
    match s.phase thread with
    | .idle => { s with phase := Function.update s.phase thread (.asking guard) }
    | _ => s
  | .check thread =>
    match s.phase thread with
    | .asking guard =>
      if s.table.canGrant guard.path guard.mode thread then
        { toLockUse := s.toLockUse.step (.acquire thread guard.path guard.mode)
          phase := Function.update s.phase thread .idle }
      else { s with phase := Function.update s.phase thread (.asleep guard) }
    | _ => s
  | .drop thread guard =>
    match s.phase thread with
    | .idle =>
      if guard ∈ s.held thread then
        { toLockUse := s.toLockUse.step (.drop thread guard)
          phase := Function.update s.phase thread (.notifying guard) }
      else s
    | _ => s
  | .notify thread =>
    match s.phase thread with
    | .notifying _ =>
      { s with phase := Function.update (fun t => (s.phase t).woken) thread .idle }
    | _ => s

def run (s : LockMonitor τ) (moves : List (MonitorMove τ)) : LockMonitor τ := moves.foldl step s

structure NoLostWakeUp (s : LockMonitor τ) : Prop where
  /-- A sleeper whose lock could be granted is woken by a release of its path that has updated the
  table already. -/
  pending : ∀ t guard, s.phase t = .asleep guard →
    s.table.canGrant guard.path guard.mode t = true →
    ∃ t' mode, s.phase t' = .notifying ⟨guard.path, mode⟩ ∧
      (s.step (.notify t')).phase t = .asking guard
  /-- With no release between its update and its notification, a sleeper waits for a guard of
  another thread. -/
  blocked : (∀ t guard, s.phase t ≠ .notifying guard) → ∀ t guard, s.phase t = .asleep guard →
    ∃ t' mode, t' ≠ t ∧ mode.conflicts guard.mode = true ∧ ⟨guard.path, mode⟩ ∈ s.held t'

end LockMonitor

/-! ## 2. What makes a request grantable -/

namespace LockTable

variable {table : LockTable τ} {held : τ → List LockGuard}

/-- A lock that one thread takes makes no request of another grantable. -/
theorem Tracks.canGrant_of_grant (h : table.Tracks held) {path path' : ResourcePath}
    {mode mode' : LockMode} {t t' : τ} (ht : t ≠ t') (hg : table.canGrant path mode t = true)
    (hafter : (table.grant path mode t).canGrant path' mode' t' = true) :
    table.canGrant path' mode' t' = true := by
  rw [(h.grant hg).canGrant_iff] at hafter
  rw [h.canGrant_iff]
  intro u hu m hm hmem
  -- the guards in hand have only become more
  refine hafter u hu m hm ?_
  by_cases hut : u = t
  · subst hut
    rw [Function.update_self]
    exact List.mem_cons_of_mem _ hmem
  · rwa [Function.update_of_ne hut]

/-- A lock that is given back matters to the requests for its path only. -/
theorem canGrant_release_of_ne (table : LockTable τ) {path path' : ResourcePath}
    (hne : path ≠ path') (mode mode' : LockMode) (t t' : τ) :
    (table.release path mode t).canGrant path' mode' t' = table.canGrant path' mode' t' := by
  rw [canGrant_eq, canGrant_eq, state_release, if_neg hne]

end LockTable

/-! ## 3. The sleepers are watched over -/

namespace LockMonitor

/-- The table shows the guards in hand, and a sleeper whose lock could be granted has a release of
its path still to wake it. -/
structure Watched (s : LockMonitor τ) : Prop where
  tracks : s.table.Tracks s.held
  pending : ∀ t guard, s.phase t = .asleep guard →
    s.table.canGrant guard.path guard.mode t = true →
    ∃ t' mode, s.phase t' = .notifying ⟨guard.path, mode⟩

variable {s s' : LockMonitor τ}

/-- A step of one thread that is not about to wake anybody: it must not fall asleep on a lock that
could be granted, and what it makes grantable it has to announce. -/
theorem Watched.of_update (h : s.Watched) {t : τ} {phase : LockPhase}
    (htracks : s'.table.Tracks s'.held) (hphase : s'.phase = Function.update s.phase t phase)
    (hquiet : ∀ guard, s.phase t ≠ .notifying guard)
    (hself : ∀ guard, phase = .asleep guard →
      s'.table.canGrant guard.path guard.mode t = false)
    (hothers : ∀ u, u ≠ t → ∀ guard : LockGuard,
      s'.table.canGrant guard.path guard.mode u = true →
      s.table.canGrant guard.path guard.mode u = true ∨
        ∃ mode, phase = .notifying ⟨guard.path, mode⟩) : s'.Watched := by
  refine ⟨htracks, fun u guard hasleep hgrant => ?_⟩
  rw [hphase] at hasleep ⊢
  by_cases hut : u = t
  · subst hut
    rw [Function.update_self] at hasleep
    rw [hself guard hasleep] at hgrant
    cases hgrant
  · rw [Function.update_of_ne hut] at hasleep
    rcases hothers u hut guard hgrant with hbefore | ⟨mode, hnew⟩
    · obtain ⟨t', mode, hnotify⟩ := h.pending u guard hasleep hbefore
      -- the release that was pending is another thread's
      have ht' : t' ≠ t := fun heq => hquiet _ (heq ▸ hnotify)
      exact ⟨t', mode, by rwa [Function.update_of_ne ht']⟩
    · exact ⟨t, mode, by rw [Function.update_self, hnew]⟩

theorem Watched.ask (h : s.Watched) (t : τ) (guard : LockGuard) :
    (s.step (.ask t guard)).Watched := by
  unfold step
  dsimp only
  split
  · next hidle =>
    exact h.of_update h.tracks rfl (fun _ hx => by rw [hidle] at hx; cases hx)
      fun _ hx => by cases hx
      fun _ _ _ => .inl
  · exact h

theorem Watched.check (h : s.Watched) (t : τ) : (s.step (.check t)).Watched := by
  unfold step
  dsimp only
  split
  · next guard hasking =>
    have hquiet : ∀ g, s.phase t ≠ .notifying g := fun _ hx => by rw [hasking] at hx; cases hx
    split
    · next hgrant =>
      refine h.of_update (LockUse.step_tracks h.tracks _) rfl hquiet (fun _ hx => by cases hx)
        fun u hut g hafter => ?_
      dsimp only [LockUse.step] at hafter
      rw [if_pos hgrant] at hafter
      exact .inl (h.tracks.canGrant_of_grant (Ne.symm hut) hgrant hafter)
    · next hgrant =>
      refine h.of_update h.tracks rfl hquiet (fun g hg => ?_) fun _ _ _ => .inl
      cases hg
      exact Bool.eq_false_iff.2 hgrant
  · exact h

theorem Watched.drop (h : s.Watched) (t : τ) (guard : LockGuard) :
    (s.step (.drop t guard)).Watched := by
  unfold step
  dsimp only
  split
  · next hidle =>
    split
    · next hmem =>
      refine h.of_update (LockUse.step_tracks h.tracks _) rfl
        (fun _ hx => by rw [hidle] at hx; cases hx) (fun _ hx => by cases hx)
        fun u _ g hafter => ?_
      dsimp only [LockUse.step] at hafter
      rw [if_pos hmem] at hafter
      -- a request for the path given back is announced, the others are as they were
      by_cases hpath : guard.path = g.path
      · exact .inr ⟨guard.mode, congrArg LockPhase.notifying (congrArg (LockGuard.mk · _) hpath)⟩
      · rw [LockTable.canGrant_release_of_ne _ hpath] at hafter
        exact .inl hafter
    · exact h
  · exact h

/-- Whoever wakes the sleepers goes on with its work, and all others are awake. -/
theorem phase_notify_of_notifying {t : τ} {guard : LockGuard} (h : s.phase t = .notifying guard)
    (u : τ) : (s.step (.notify t)).phase u = if u = t then .idle else (s.phase u).woken := by
  unfold step
  dsimp only
  rw [h]
  exact Function.update_apply (fun t => (s.phase t).woken) t .idle u

theorem Watched.notify (h : s.Watched) (t : τ) : (s.step (.notify t)).Watched := by
  cases hphase : s.phase t with
  | notifying guard =>
    have htable : (s.step (.notify t)).toLockUse = s.toLockUse := by
      unfold step
      dsimp only
      rw [hphase]
    refine ⟨htable ▸ h.tracks, fun u g hasleep => ?_⟩
    rw [phase_notify_of_notifying hphase] at hasleep
    split at hasleep
    · cases hasleep
    · cases hu : s.phase u <;> rw [hu] at hasleep <;> cases hasleep
  | _ =>
    unfold step
    dsimp only
    rw [hphase]
    exact h

theorem Watched.step (h : s.Watched) (m : MonitorMove τ) : (s.step m).Watched := by
  cases m with
  | ask t guard => exact h.ask t guard
  | check t => exact h.check t
  | drop t guard => exact h.drop t guard
  | notify t => exact h.notify t

theorem Watched.run (h : s.Watched) (moves : List (MonitorMove τ)) : (s.run moves).Watched := by
  induction moves generalizing s with
  | nil => exact h
  | cons m moves ih => exact ih (h.step m)

theorem Watched.empty : ({} : LockMonitor τ).Watched where
  tracks := LockTable.Tracks.empty
  pending _ _ h := by cases h

theorem Watched.noLostWakeUp (h : s.Watched) : s.NoLostWakeUp where
  pending t guard hasleep hgrant := by
    obtain ⟨t', mode, hnotify⟩ := h.pending t guard hasleep hgrant
    refine ⟨t', mode, hnotify, ?_⟩
    have hne : t ≠ t' := by
      rintro rfl
      rw [hasleep] at hnotify
      cases hnotify
    rw [phase_notify_of_notifying hnotify, if_neg hne, hasleep]
    rfl
  blocked hquiet t guard hasleep := by
    by_contra hnobody
    -- with nobody in the way the lock could be granted, and a release would be pending
    have hgrant : s.table.canGrant guard.path guard.mode t = true := by
      rw [h.tracks.canGrant_iff]
      exact fun t' ht' mode hmode hmem => hnobody ⟨t', mode, ht', hmode, hmem⟩
    obtain ⟨t', mode, hnotify⟩ := h.pending t guard hasleep hgrant
    exact hquiet t' _ hnotify

/-- However threads ask, check, give back and wake, no sleeper is forgotten. -/
theorem run_noLostWakeUp (moves : List (MonitorMove τ)) :
    (run ({} : LockMonitor τ) moves).NoLostWakeUp :=
  (Watched.empty.run moves).noLostWakeUp

-- Between the two steps of a release a sleeper's lock can be granted, and it sleeps on until the
-- second of them.
example : let guard : LockGuard := ⟨.bucket "v" "b", .write⟩
    let s := run ({} : LockMonitor Bool) [.ask true guard, .check true, .ask false guard,
      .check false, .drop true guard]
    (s.phase false, s.table.canGrant guard.path guard.mode false,
      (s.step (.notify true)).phase false) = (.asleep guard, true, .asking guard) := by decide

end LockMonitor

end ObjectMeta
