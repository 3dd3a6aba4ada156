import ObjectMeta.Proofs.Lock.WakeUp

/-!
# Locks that are taken again

A thread that holds a path is not in its own way.  With a guard for writing it takes the path again
in either mode, with a guard for reading it takes it again for reading, whoever waits for it, and
with the only guards on the path it takes it for writing; it never sleeps on such a request
(`LockMonitor.Reentrant`, `LockMonitor.run_reentrant`).

A guard that was taken in between and dropped again leaves no trace.  The run without it grants
every lock that the run with it grants, and when the guard is dropped the two have the same guards
in hand (`LockUse.Nests.drop`), so that from then on they let the same threads wait.
-/

namespace ObjectMeta

variable {τ : Type} [DecidableEq τ]

/-! ## 1. The same guards in hand -/

namespace LockUse

variable {s s' : LockUse τ} {thread t : τ} {guard : LockGuard}

/-- The threads have the same guards in hand, in whatever order they took them. -/
def SameGuards (s s' : LockUse τ) : Prop := ∀ t, (s.held t).Perm (s'.held t)

structure Sound (s : LockUse τ) : Prop where
  tracks : s.table.Tracks s.held
  tidy : s.table.Tidy

theorem Sound.step (h : s.Sound) (m : LockMove τ) : (s.step m).Sound :=
  ⟨step_tracks h.tracks m, step_tidy h.tidy m⟩

theorem Sound.run (h : s.Sound) (moves : List (LockMove τ)) : (s.run moves).Sound :=
  have hrun := run_tracks ⟨h.tracks, h.tidy⟩ moves
  ⟨hrun.1, hrun.2⟩

theorem Sound.exact (h : s.Sound) : s.Exact := exact_of_tracks h.tracks h.tidy

/-- What a request may be granted depends on the guards in hand alone. -/
theorem SameGuards.canGrant_eq (h : s.SameGuards s') (hs : s.Sound) (hs' : s'.Sound)
    (path : ResourcePath) (mode : LockMode) (t : τ) :
    s.table.canGrant path mode t = s'.table.canGrant path mode t := by
  rw [Bool.eq_iff_iff, hs.tracks.canGrant_iff, hs'.tracks.canGrant_iff]
  simp only [(h _).mem_iff]

/-- So does what can be seen of a path. -/
theorem SameGuards.view_eq (h : s.SameGuards s') (hs : s.Sound) (hs' : s'.Sound)
    (path : ResourcePath) : s.table.view path = s'.table.view path := by
  have hlocked : s.table.isLocked path = s'.table.isLocked path := by
    rw [Bool.eq_iff_iff, hs.exact.isLocked, hs'.exact.isLocked]
    simp only [(h _).mem_iff]
  have hwriter : s.table.isWriteLocked path = s'.table.isWriteLocked path := by
    rw [Bool.eq_iff_iff, hs.exact.isWriteLocked, hs'.exact.isWriteLocked]
    simp only [(h _).mem_iff]
  have hreaders : s.table.readerCount path = s'.table.readerCount path := by
    obtain ⟨readers, hmem, hcount⟩ := hs.exact.readerCount path
    obtain ⟨readers', hmem', hcount'⟩ := hs'.exact.readerCount path
    have hsame : readers = readers' := by
      ext t
      rw [hmem, hmem', (h t).mem_iff]
    rw [hcount, hcount', hsame]
  unfold LockTable.view
  rw [hlocked, hwriter, hreaders]

/-! ## 2. Moves that take effect -/

/-- A move takes effect: the lock is granted at once, or the guard is in hand. -/
def Admits (s : LockUse τ) : LockMove τ → Prop
  | .acquire thread path mode => s.table.canGrant path mode thread = true
  | .drop thread guard => guard ∈ s.held thread

def Passes : LockUse τ → List (LockMove τ) → Prop
  | _, [] => True
  | s, m :: rest => s.Admits m ∧ (s.step m).Passes rest

theorem admits_acquire {path : ResourcePath} {mode : LockMode} :
    s.Admits (.acquire thread path mode) ↔ s.table.canGrant path mode thread = true := Iff.rfl

theorem held_acquire {path : ResourcePath} {mode : LockMode}
    (h : s.Admits (.acquire thread path mode)) (t : τ) :
    (s.step (.acquire thread path mode)).held t =
      if t = thread then ⟨path, mode⟩ :: s.held t else s.held t := by
  unfold Admits at h
  unfold LockUse.step
  simp only [if_pos h, Function.update_apply]
  split
  · next heq => rw [heq]
  · rfl

theorem held_drop (h : s.Admits (.drop thread guard)) (t : τ) :
    (s.step (.drop thread guard)).held t =
      if t = thread then (s.held t).erase guard else s.held t := by
  unfold Admits at h
  unfold LockUse.step
  simp only [if_pos h, Function.update_apply]
  split
  · next heq => rw [heq]
  · rfl

theorem step_of_not_admits {m : LockMove τ} (h : ¬s.Admits m) : s.step m = s := by
  cases m with
  | acquire thread path mode => exact if_neg h
  | drop thread guard => exact if_neg h

theorem SameGuards.admits_iff (h : s.SameGuards s') (hs : s.Sound) (hs' : s'.Sound)
    (m : LockMove τ) : s.Admits m ↔ s'.Admits m := by
  cases m with
  | acquire thread path mode => rw [admits_acquire, admits_acquire, h.canGrant_eq hs hs']
  | drop thread guard => exact (h thread).mem_iff

/-- With the same guards in hand, the same moves take effect and leave the same guards. -/
theorem SameGuards.step (h : s.SameGuards s') (hs : s.Sound) (hs' : s'.Sound) (m : LockMove τ) :
    (s.step m).SameGuards (s'.step m) := by
  by_cases hm : s.Admits m
  · have hm' := (h.admits_iff hs hs' m).1 hm
    intro t
    cases m with
    | acquire thread path mode =>
      rw [held_acquire hm, held_acquire hm']
      split
      · exact (h t).cons _
      · exact h t
    | drop thread guard =>
      rw [held_drop hm, held_drop hm']
      split
      · exact (h t).erase guard
      · exact h t
  · have hm' : ¬s'.Admits m := fun hadmits => hm ((h.admits_iff hs hs' m).2 hadmits)
    rw [step_of_not_admits hm, step_of_not_admits hm']
    exact h

theorem SameGuards.run (h : s.SameGuards s') (hs : s.Sound) (hs' : s'.Sound)
    (moves : List (LockMove τ)) : (s.run moves).SameGuards (s'.run moves) := by
  induction moves generalizing s s' with
  | nil => exact h
  | cons m rest ih => exact ih (h.step hs hs' m) (hs.step m) (hs'.step m)

/-! ## 3. One guard more -/

/-- One thread has one guard more in hand than in the other state. -/
structure Nests (thread : τ) (guard : LockGuard) (nested plain : LockUse τ) : Prop where
  own : (nested.held thread).Perm (guard :: plain.held thread)
  others : ∀ t, t ≠ thread → (nested.held t).Perm (plain.held t)

/-- A lock that is taken is one guard more. -/
theorem nests_acquire (h : s.Admits (.acquire thread guard.path guard.mode)) :
    Nests thread guard (s.step (.acquire thread guard.path guard.mode)) s where
  own := by rw [held_acquire h, if_pos rfl]
  others t ht := by rw [held_acquire h, if_neg ht]

namespace Nests

variable {nested plain : LockUse τ} (h : Nests thread guard nested plain)
include h

theorem subset (t : τ) : plain.held t ⊆ nested.held t := by
  intro g hg
  by_cases ht : t = thread
  · subst ht
    exact h.own.mem_iff.2 (List.mem_cons_of_mem _ hg)
  · exact (h.others t ht).mem_iff.2 hg

/-- What takes effect with the guard takes effect without it. -/
theorem admits (hn : nested.Sound) (hp : plain.Sound) {m : LockMove τ} (hm : nested.Admits m)
    (hother : m ≠ .drop thread guard) : plain.Admits m := by
  cases m with
  | acquire t path mode =>
    rw [admits_acquire, hn.tracks.canGrant_iff] at hm
    rw [admits_acquire, hp.tracks.canGrant_iff]
    -- the guards that could be in the way have only become fewer
    intro u hu m hm' hmem
    exact hm u hu m hm' (h.subset u hmem)
  | drop t g =>
    by_cases ht : t = thread
    · subst ht
      have hg : g ≠ guard := fun heq => hother (heq ▸ rfl)
      exact (List.mem_cons.1 (h.own.mem_iff.1 hm)).resolve_left hg
    · exact (h.others t ht).mem_iff.1 hm

/-- A move that does not drop the guard leaves it in hand. -/
theorem step {m : LockMove τ} (hm : nested.Admits m) (hm' : plain.Admits m)
    (hother : m ≠ .drop thread guard) : Nests thread guard (nested.step m) (plain.step m) := by
  cases m with
  | acquire t path mode =>
    constructor
    · rw [held_acquire hm, held_acquire hm']
      split
      · exact (h.own.cons _).trans (List.Perm.swap ..)
      · exact h.own
    · intro u hu
      rw [held_acquire hm, held_acquire hm']
      split
      · exact (h.others u hu).cons _
      · exact h.others u hu
  | drop t g =>
    constructor
    · rw [held_drop hm, held_drop hm']
      split
      · next ht =>
        subst ht
        have hg : guard ≠ g := fun heq => hother (heq ▸ rfl)
        have herase := h.own.erase g
        rwa [List.erase_cons_tail (by simpa using hg)] at herase
      · exact h.own
    · intro u hu
      rw [held_drop hm, held_drop hm']
      split
      · exact (h.others u hu).erase g
      · exact h.others u hu

/-- Until the guard is dropped, all that takes effect with it takes effect without it. -/
theorem run (hn : nested.Sound) (hp : plain.Sound) {moves : List (LockMove τ)}
    (hpass : nested.Passes moves) (hkept : .drop thread guard ∉ moves) :
    plain.Passes moves ∧ Nests thread guard (nested.run moves) (plain.run moves) := by
  induction moves generalizing nested plain with
  | nil => exact ⟨trivial, h⟩
  | cons m rest ih =>
    rw [List.mem_cons, not_or] at hkept
    have hm := h.admits hn hp hpass.1 (Ne.symm hkept.1)
    have hrest := ih (h.step hpass.1 hm (Ne.symm hkept.1)) (hn.step m) (hp.step m) hpass.2 hkept.2
    exact ⟨⟨hm, hrest.1⟩, hrest.2⟩

/-- When the guard is dropped, the guards in hand are those of the run without it. -/
theorem drop : (nested.step (.drop thread guard)).SameGuards plain := by
  have hm : nested.Admits (.drop thread guard) := h.own.mem_iff.2 List.mem_cons_self
  intro t
  rw [held_drop hm]
  split
  · next ht =>
    subst ht
    have herase := h.own.erase guard
    rwa [List.erase_cons_head] at herase
  · next ht => exact h.others t ht

end Nests

/-- A guard that is taken and dropped again makes no difference to the moves in between, and none
to what comes after. -/
theorem Sound.restored (hs : s.Sound) {before : List (LockMove τ)}
    (hpass : s.Passes (.acquire thread guard.path guard.mode :: before))
    (hkept : .drop thread guard ∉ before) (after : List (LockMove τ)) :
    s.Passes before ∧
      (s.run (.acquire thread guard.path guard.mode :: before ++ .drop thread guard :: after)).SameGuards
        (s.run (before ++ after)) := by
  have htaken := hs.step (.acquire thread guard.path guard.mode)
  obtain ⟨hplain, hnests⟩ := (nests_acquire hpass.1).run htaken hs hpass.2 hkept
  refine ⟨hplain, ?_⟩
  have hsame := hnests.drop.run ((htaken.run before).step _) (hs.run before) after
  unfold LockUse.run at hsame ⊢
  rw [List.cons_append, List.foldl_cons, List.foldl_append, List.foldl_cons, List.foldl_append]
  exact hsame

end LockUse

/-! ## 4. Threads that ask again -/

def MonitorMove.thread : MonitorMove τ → τ
  | .ask thread _ => thread
  | .check thread => thread
  | .drop thread _ => thread
  | .notify thread => thread

namespace LockMonitor

variable {s s' : LockMonitor τ} {t : τ} {guard : LockGuard} {m : MonitorMove τ}

inductive Steps (s : LockMonitor τ) : MonitorMove τ → LockMonitor τ → Prop where
  /-- It is not the thread's turn. -/
  | pass (m : MonitorMove τ) : Steps s m s
  | ask {t : τ} (guard : LockGuard) (h : s.phase t = .idle) :
      Steps s (.ask t guard) { s with phase := Function.update s.phase t (.asking guard) }
  | take {t : τ} {guard : LockGuard} (h : s.phase t = .asking guard)
      (hgrant : s.table.canGrant guard.path guard.mode t = true) :
      Steps s (.check t)
        { toLockUse := s.toLockUse.step (.acquire t guard.path guard.mode)
          phase := Function.update s.phase t .idle }
  | sleep {t : τ} {guard : LockGuard} (h : s.phase t = .asking guard)
      (hgrant : s.table.canGrant guard.path guard.mode t = false) :
      Steps s (.check t) { s with phase := Function.update s.phase t (.asleep guard) }
  | drop {t : τ} {guard : LockGuard} (h : s.phase t = .idle) (hheld : guard ∈ s.held t) :
      Steps s (.drop t guard)
        { toLockUse := s.toLockUse.step (.drop t guard)
          phase := Function.update s.phase t (.notifying guard) }
  | notify {t : τ} {guard : LockGuard} (h : s.phase t = .notifying guard) :
      Steps s (.notify t)
        { s with phase := Function.update (fun t => (s.phase t).woken) t .idle }

theorem steps (s : LockMonitor τ) (m : MonitorMove τ) : Steps s m (s.step m) := by
  cases m with
  | ask t guard =>
    unfold step
    dsimp only
    split
    · next h => exact .ask guard h
    · exact .pass _
  | check t =>
    unfold step
    dsimp only
    split
    · next guard h =>
      split
      · next hgrant => exact .take h hgrant
      · next hgrant => exact .sleep h (Bool.eq_false_iff.2 hgrant)
    · exact .pass _
  | drop t guard =>
    unfold step
    dsimp only
    split
    · next h =>
      split
      · next hheld => exact .drop h hheld
      · exact .pass _
    · exact .pass _
  | notify t =>
    unfold step
    dsimp only
    split
    · next h => exact .notify h
    · exact .pass _

theorem Steps.sound (h : Steps s m s') (hs : s.Sound) : s'.Sound := by
  cases h with
  | take h hgrant => exact LockUse.Sound.step hs (.acquire ..)
  | drop h hheld => exact LockUse.Sound.step hs (.drop ..)
  | _ => exact hs

theorem sound_run (h : s.Sound) (moves : List (MonitorMove τ)) : (s.run moves).Sound := by
  induction moves generalizing s with
  | nil => exact h
  | cons m rest ih => exact ih ((s.steps m).sound h)

/-- The steps of others leave a thread its guards, and at most wake it. -/
theorem Steps.aside (h : Steps s m s') (hne : m.thread ≠ t) :
    s'.held t = s.held t ∧ (s'.phase t = s.phase t ∨ s'.phase t = (s.phase t).woken) := by
  have hne' : t ≠ m.thread := Ne.symm hne
  cases h with
  | pass => exact ⟨rfl, .inl rfl⟩
  | ask => exact ⟨rfl, .inl (Function.update_of_ne hne' ..)⟩
  | take h hgrant =>
    refine ⟨?_, .inl (Function.update_of_ne hne' ..)⟩
    exact (LockUse.held_acquire hgrant t).trans (if_neg hne')
  | sleep => exact ⟨rfl, .inl (Function.update_of_ne hne' ..)⟩
  | drop h hheld =>
    refine ⟨?_, .inl (Function.update_of_ne hne' ..)⟩
    exact (LockUse.held_drop hheld t).trans (if_neg hne')
  | notify => exact ⟨rfl, .inr (Function.update_of_ne hne' _ fun t => (s.phase t).woken)⟩

/-- A thread that is about to look goes on to do so, with the guards it has. -/
theorem run_aside (h : s.phase t = .asking guard) {moves : List (MonitorMove τ)}
    (hothers : ∀ m ∈ moves, m.thread ≠ t) :
    (s.run moves).held t = s.held t ∧ (s.run moves).phase t = .asking guard := by
  induction moves generalizing s with
  | nil => exact ⟨rfl, h⟩
  | cons m rest ih =>
    rw [List.forall_mem_cons] at hothers
    obtain ⟨hheld, hphase⟩ := (s.steps m).aside hothers.1
    have hasking : (s.step m).phase t = .asking guard := by
      obtain hsame | hwoken := hphase
      · rw [hsame, h]
      · rw [hwoken, h]
        rfl
    obtain ⟨hheld', hphase'⟩ := ih hasking hothers.2
    exact ⟨hheld'.trans hheld, hphase'⟩

end LockMonitor

/-! ## 5. Nobody is in his own way -/

/-- A thread has a guard on the path that lets it take the path again in this mode. -/
def LockUse.MayRetake (s : LockUse τ) (t : τ) (guard : LockGuard) : Prop :=
  ⟨guard.path, .write⟩ ∈ s.held t ∨ guard.mode = .read ∧ ⟨guard.path, .read⟩ ∈ s.held t

/-- A path is granted again to the thread that holds it. -/
theorem LockUse.MayRetake.canGrant {s : LockUse τ} {t : τ} {guard : LockGuard}
    (h : s.MayRetake t guard) (hs : s.Sound) :
    s.table.canGrant guard.path guard.mode t = true := by
  rw [hs.tracks.canGrant_iff]
  intro u hu m hm hmem
  obtain hwrite | ⟨hmode, hread⟩ := h
  · exact hs.tracks.compatible (Ne.symm hu) hwrite hmem
  · -- only a writer is in the way of a reader, and it is alone
    rw [hmode] at hm
    cases m with
    | read => cases hm
    | write => exact hs.tracks.compatible hu hmem hread

namespace LockMonitor

/-- The thread has the lock when it first looks for it, after other threads have made their
steps. -/
def TakesAfter (s : LockMonitor τ) (t : τ) (guard : LockGuard) (moves : List (MonitorMove τ)) :
    Prop :=
  (s.run (.ask t guard :: moves ++ [.check t])).phase t = .idle ∧
    (s.run (.ask t guard :: moves ++ [.check t])).held t = guard :: s.held t

variable {s s' : LockMonitor τ} {t : τ} {guard : LockGuard} {moves : List (MonitorMove τ)}

theorem step_ask (h : s.phase t = .idle) (guard : LockGuard) : s.step (.ask t guard) =
    { s with phase := Function.update s.phase t (.asking guard) } := by
  simp only [step, h]

theorem step_check (h : s.phase t = .asking guard)
    (hgrant : s.table.canGrant guard.path guard.mode t = true) : s.step (.check t) =
      { toLockUse := s.toLockUse.step (.acquire t guard.path guard.mode)
        phase := Function.update s.phase t .idle } := by
  simp only [step, h, if_pos hgrant]

theorem takesAfter_of_canGrant (hidle : s.phase t = .idle) (hothers : ∀ m ∈ moves, m.thread ≠ t)
    (hgrant : ((s.step (.ask t guard)).run moves).table.canGrant guard.path guard.mode t = true) :
    s.TakesAfter t guard moves := by
  have hasking : (s.step (.ask t guard)).phase t = .asking guard := by
    rw [step_ask hidle]
    exact Function.update_self ..
  obtain ⟨hheld, hphase⟩ := run_aside hasking hothers
  have hrun : s.run (.ask t guard :: moves ++ [.check t]) =
      ((s.step (.ask t guard)).run moves).step (.check t) := by
    unfold run
    rw [List.cons_append, List.foldl_cons, List.foldl_append]
    rfl
  unfold TakesAfter
  rw [hrun, step_check hphase hgrant]
  refine ⟨Function.update_self .., ?_⟩
  refine (LockUse.held_acquire hgrant t).trans ?_
  rw [if_pos rfl, hheld, step_ask hidle]

/-- What lets a thread take a path again stays with it while others make their steps. -/
theorem takesAfter_of_mayRetake (hs : s.Sound) (hidle : s.phase t = .idle)
    (hothers : ∀ m ∈ moves, m.thread ≠ t) (hagain : s.MayRetake t guard) :
    s.TakesAfter t guard moves := by
  have hasking : (s.step (.ask t guard)).phase t = .asking guard := by
    rw [step_ask hidle]
    exact Function.update_self ..
  have hheld := (run_aside hasking hothers).1
  have hagain' : ((s.step (.ask t guard)).run moves).MayRetake t guard := by
    unfold LockUse.MayRetake at hagain ⊢
    rw [hheld, step_ask hidle]
    exact hagain
  exact takesAfter_of_canGrant hidle hothers
    (hagain'.canGrant (sound_run ((s.steps _).sound hs) moves))

/-- No thread sleeps on a lock that its own guards would let it take. -/
def Awake (s : LockMonitor τ) : Prop :=
  ∀ t guard, s.phase t = .asleep guard → ¬s.MayRetake t guard

/-- A thread falls asleep only on a lock that cannot be granted. -/
theorem Steps.of_asleep (h : Steps s m s') (hasleep : s'.phase m.thread = .asleep guard) :
    s' = s ∨ s'.toLockUse = s.toLockUse ∧
      s.table.canGrant guard.path guard.mode m.thread = false := by
  cases h with
  | pass => exact .inl rfl
  | sleep h hgrant =>
    dsimp only [MonitorMove.thread] at hasleep
    rw [Function.update_self] at hasleep
    cases hasleep
    exact .inr ⟨rfl, hgrant⟩
  | _ =>
    dsimp only [MonitorMove.thread] at hasleep
    rw [Function.update_self] at hasleep
    cases hasleep

theorem Steps.awake (h : Steps s m s') (hs : s.Sound) (hawake : s.Awake) : s'.Awake := by
  intro t guard hasleep hagain
  by_cases ht : m.thread = t
  · subst ht
    obtain rfl | ⟨hsame, hgrant⟩ := h.of_asleep hasleep
    · exact hawake _ guard hasleep hagain
    · rw [hsame] at hagain
      rw [hagain.canGrant hs] at hgrant
      cases hgrant
  · obtain ⟨hheld, hphase⟩ := h.aside ht
    have hbefore : s.phase t = .asleep guard := by
      obtain hsame | hwoken := hphase
      · rw [← hsame, hasleep]
      · -- whoever was woken is awake
        rw [hwoken] at hasleep
        cases hphase : s.phase t <;> rw [hphase] at hasleep <;> cases hasleep
    unfold LockUse.MayRetake at hagain
    rw [hheld] at hagain
    exact hawake t guard hbefore hagain

theorem awake_run (hs : s.Sound) (hawake : s.Awake) (moves : List (MonitorMove τ)) :
    (s.run moves).Awake := by
  induction moves generalizing s with
  | nil => exact hawake
  | cons m rest ih => exact ih ((s.steps m).sound hs) ((s.steps m).awake hs hawake)

/-- Taking a path again is granted at once, and is no different from not taking it once the guard
is dropped. -/
structure Reentrant (s : LockMonitor τ) : Prop where
  /-- A thread that writes a path takes it again in either mode. -/
  writing : ∀ t path mode moves, s.phase t = .idle → ⟨path, .write⟩ ∈ s.held t →
    (∀ m ∈ moves, m.thread ≠ t) → s.TakesAfter t ⟨path, mode⟩ moves
  /-- A thread that reads a path takes it again for reading, whoever waits for it or begins to. -/
  reading : ∀ t path moves, s.phase t = .idle → ⟨path, .read⟩ ∈ s.held t →
    (∀ m ∈ moves, m.thread ≠ t) → s.TakesAfter t ⟨path, .read⟩ moves
  /-- A thread that nobody shares a path with takes it for writing. -/
  alone : ∀ t path, s.phase t = .idle → (∀ t', t' ≠ t → ∀ mode, ⟨path, mode⟩ ∉ s.held t') →
    s.TakesAfter t ⟨path, .write⟩ []
  /-- So no thread ever sleeps on a lock that its own guards would let it take. -/
  awake : s.Awake
  /-- Let a thread take a lock, and `before` be what all threads then do before it drops such a
  guard.  All of it could have been done without the lock, and from the drop on, whatever comes
  after, the guards in hand are as if the lock had not been taken, the table shows the same, and
  requests are granted or have to wait as they would have been. -/
  restored : ∀ t guard before, .drop t guard ∉ before →
    s.toLockUse.Passes (.acquire t guard.path guard.mode :: before) →
    s.toLockUse.Passes before ∧ ∀ after,
      let nested := s.toLockUse.run (.acquire t guard.path guard.mode :: before ++
        .drop t guard :: after)
      let plain := s.toLockUse.run (before ++ after)
      nested.SameGuards plain ∧ ∀ path, nested.table.view path = plain.table.view path ∧
        ∀ mode t', nested.table.canGrant path mode t' = plain.table.canGrant path mode t'

theorem reentrant_of_sound (hs : s.Sound) (hawake : s.Awake) : s.Reentrant where
  writing _ _ _ _ hidle hheld hothers := takesAfter_of_mayRetake hs hidle hothers (.inl hheld)
  reading _ _ _ hidle hheld hothers :=
    takesAfter_of_mayRetake hs hidle hothers (.inr ⟨rfl, hheld⟩)
  alone t path hidle hnobody := by
    refine takesAfter_of_canGrant hidle (List.forall_mem_nil _) ?_
    rw [step_ask hidle]
    exact (hs.tracks.canGrant_iff ..).2 fun t' ht' mode _ => hnobody t' ht' mode
  awake := hawake
  restored t guard before hkept hpass := by
    refine ⟨(hs.restored hpass hkept []).1, fun after => ?_⟩
    have hsame := (hs.restored hpass hkept after).2
    exact ⟨hsame, fun path => ⟨hsame.view_eq (hs.run _) (hs.run _) path,
      hsame.canGrant_eq (hs.run _) (hs.run _) path⟩⟩

/-- In every reachable state, threads may take again what they hold. -/
theorem run_reentrant (moves : List (MonitorMove τ)) :
    (run ({} : LockMonitor τ) moves).Reentrant := by
  have hempty : ({} : LockMonitor τ).Sound := ⟨LockTable.Tracks.empty, LockTable.Tidy.empty⟩
  exact reentrant_of_sound (sound_run hempty moves) (awake_run hempty nofun moves)

-- A reader takes its path again past a writer that sleeps.
example : let path : ResourcePath := .bucket "v" "b"
    let s := run ({} : LockMonitor Bool) [.ask true ⟨path, .read⟩, .check true,
      .ask false ⟨path, .write⟩, .check false, .ask true ⟨path, .read⟩, .check true]
    (s.phase false, s.held true) =
      (.asleep ⟨path, .write⟩, [⟨path, .read⟩, ⟨path, .read⟩]) := by decide

end LockMonitor

end ObjectMeta
