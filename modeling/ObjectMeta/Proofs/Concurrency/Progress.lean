import ObjectMeta.Crypto.Ed25519
import ObjectMeta.Proofs.Concurrency.Order
import ObjectMeta.Proofs.Operation.Nesting

/-!
# Some thread can always go on

A thread that has to wait asks for a path that another thread has in hand (`Nested.exists_holder`).
That one is at a call and asks for finer paths only, and paths are at most three deep, so the chain
of threads that wait for one another ends in one that can go on (`run_canGoOn`).  The threads start
without locks; nothing is assumed of the store, the allocation service or the names in the calls.
-/

namespace ObjectMeta

/-- Only taking a lock may have to wait. -/
theorem World.isReady_or_acquires {S : SignatureScheme} {A : AllocationService} {τ : Type}
    [DecidableEq τ] (w : World S A τ) (t : τ) (action : Action) :
    w.isReady t action = true ∨ ∃ path mode, action = .acquire path mode := by
  cases action with
  | acquire path mode => exact .inr ⟨path, mode, rfl⟩
  | _ => exact .inl rfl

def Move.BeginsGuarded {S : SignatureScheme} {A : AllocationService} {τ : Type} :
    Move S A τ → Prop
  | begin _ call => call.isGuarded = true
  | _ => True

namespace System

variable {service : KeyService} {S : SignatureScheme} {A : AllocationService} {τ : Type}
  [DecidableEq τ] {s s' : System service S A τ}

/-! ## 1. Threads that nest their locks -/

/-- The lock table counts what the threads have in hand, and whatever the answers are, each of them
goes on to nest its locks. -/
structure Nested (s : System service S A τ) : Prop where
  tracked : s.world.locks.Tracks s.held
  nested : ∀ t a, s.running t = some a →
    a.rest.Nested (fun trace r => trace.held = [] ∧ a.call.Concludes trace r) a.trace

theorem nested_empty {w : World S A τ} (hlocks : w.locks = {}) :
    ({ world := w } : System service S A τ).Nested where
  tracked := by
    rw [hlocks]
    exact LockTable.Tracks.empty
  nested _ _ hrun := by cases hrun

theorem Nested.begin (h : s.Nested) {t : τ} {call : Call} (hg : call.isGuarded = true)
    (hidle : s.running t = none) : (s.begin t call).Nested where
  tracked := tracks_begin h.tracked hidle call
  nested t' a hrun := by
    obtain ⟨rfl, ha⟩ | ⟨-, hrun⟩ := update_eq_some_iff.1 hrun
    · cases ha
      exact Call.nested service hg
    · exact h.nested t' a hrun

theorem Nested.act (h : s.Nested) {t : τ} {a : Activity service} {action : Action}
    {next : action.Answer → Program CallResult} (hrun : s.running t = some a)
    (hrest : a.rest = .step action next) (hready : s.world.isReady t action = true) :
    (s.act t a hrest).Nested := by
  have hnested := h.nested t a hrun
  rw [hrest, Program.nested_step] at hnested
  obtain ⟨hnests, hnext⟩ := hnested
  constructor
  · apply tracks_act h.tracked hrun hrest hready
    intro path mode haction
    subst haction
    rcases hnests with ⟨rest, hheld⟩
    rw [hheld]
    exact List.mem_cons_self ..
  · intro t' a' hrun'
    obtain ⟨rfl, ha⟩ | ⟨-, hrun'⟩ := update_eq_some_iff.1 hrun'
    · cases ha
      exact hnext _
    · exact h.nested t' a' hrun'

theorem Nested.finish (h : s.Nested) {t : τ} {a : Activity service} {result : CallResult}
    (hrun : s.running t = some a) (hrest : a.rest = .done result) :
    (s.finish t a result).Nested := by
  have hdone := h.nested t a hrun
  rw [hrest, Program.nested_done] at hdone
  refine ⟨tracks_finish h.tracked hrun hdone.1, fun t' a' hrun' => ?_⟩
  obtain ⟨-, ha⟩ | ⟨-, hrun'⟩ := update_eq_some_iff.1 hrun'
  · cases ha
  · exact h.nested t' a' hrun'

theorem Nested.transition {m : Move S A τ} (h : s.Nested) (hm : m.BeginsGuarded)
    (ht : Transition m s s') : s'.Nested := by
  cases ht with
  | begin hidle => exact h.begin hm hidle
  | act hrun hrest hready => exact h.act hrun hrest hready
  | finish hrun hrest => exact h.finish hrun hrest
  | disturb => exact ⟨h.tracked, h.nested⟩

/-! ## 2. Waiting -/

def CanGoOn (s : System service S A τ) : Prop :=
  ∃ (t : τ) (a : Activity service) (action : Action) (next : action.Answer → Program CallResult),
    s.running t = some a ∧ a.rest = .step action next ∧ s.world.isReady t action = true

/-- What a thread cannot take, another thread has in hand, and that one is at a call. -/
theorem Nested.exists_holder (h : s.Nested) {t : τ} {path : ResourcePath} {mode : LockMode}
    (hwait : ¬s.world.locks.canGrant path mode t = true) :
    ∃ t' a' m, s.running t' = some a' ∧ ⟨path, m⟩ ∈ a'.trace.held := by
  rw [h.tracked.canGrant_iff] at hwait
  simp only [not_forall, not_not] at hwait
  obtain ⟨t', -, m, -, hmem⟩ := hwait
  cases hrun : s.running t' with
  | none =>
    rw [held, Function.comp, hrun] at hmem
    exact absurd hmem List.not_mem_nil
  | some a' =>
    rw [held_of_running hrun] at hmem
    exact ⟨t', a', m, hrun, hmem⟩

/-- Whatever a thread is about to do, it or a thread that it waits for can go on. -/
theorem Nested.canGoOn (h : s.Nested) (hbusy : s.Busy) {n : Nat} {t : τ} {a : Activity service}
    {action : Action} {next : action.Answer → Program CallResult} (hrun : s.running t = some a)
    (hrest : a.rest = .step action next)
    (hdepth : ∀ path mode, action = .acquire path mode → 3 < path.depth + n) : s.CanGoOn := by
  induction n generalizing t a action with
  | zero =>
    obtain hready | ⟨path, mode, rfl⟩ := s.world.isReady_or_acquires t action
    · exact ⟨t, a, action, next, hrun, hrest, hready⟩
    · have hfine := hdepth path mode rfl
      have hle := path.depth_le
      omega
  | succ n ih =>
    obtain hready | ⟨path, mode, rfl⟩ := s.world.isReady_or_acquires t action
    · exact ⟨t, a, action, next, hrun, hrest, hready⟩
    · by_cases hready : s.world.locks.canGrant path mode t = true
      · exact ⟨t, a, _, next, hrun, hrest, hready⟩
      · obtain ⟨t', a', m, hrun', hmem⟩ := h.exists_holder hready
        cases hrest' : a'.rest with
        | done result => exact absurd hrest' (hbusy t' a' result hrun')
        | step action' next' =>
          have hnests := h.nested t' a' hrun'
          rw [hrest', Program.nested_step] at hnests
          apply ih hrun' hrest'
          -- what the other thread asks for lies below what it has in hand
          intro path' mode' haction
          subst haction
          have hbelow : path.depth < path'.depth := hnests.1 ⟨path, m⟩ hmem
          have hfine := hdepth path mode rfl
          omega

/-- While any call of any thread is unfinished, some thread can take the next action of its call. -/
theorem run_canGoOn {w : World S A τ} (hlocks : w.locks = {}) {moves : List (Move S A τ)}
    (hmoves : ∀ m ∈ moves, m.BeginsGuarded) {t : τ}
    (hrun : (({ world := w } : System service S A τ).run moves).running t ≠ none) :
    (({ world := w } : System service S A τ).run moves).CanGoOn := by
  have hnested : (({ world := w } : System service S A τ).run moves).Nested :=
    run_induction Move.BeginsGuarded (fun _ hm _ _ ht h => h.transition hm ht)
      (nested_empty hlocks) hmoves
  have hbusy : (({ world := w } : System service S A τ).run moves).Busy :=
    busy_run (fun _ _ _ hidle => by cases hidle) moves
  obtain ⟨a, ha⟩ := Option.ne_none_iff_exists'.1 hrun
  cases hrest : a.rest with
  | done result => exact absurd hrest (hbusy t a result ha)
  | step action next =>
    exact hnested.canGoOn hbusy ha hrest fun path mode _ => (by omega : 3 < path.depth + 4)

/-- One thread makes a volume while the other waits for the lock of the same volume. -/
theorem run_canGoOn_oneVolume :
    let w : World ed25519 localAllocation Bool :=
      { store := { store := .memory {} }
        allocator := (⟨1, 1, false⟩ : LocalAllocator)
        clock := 5 }
    let moves : List (Move ed25519 localAllocation Bool) :=
      [.begin true (.createVolume "v" "alice"), .begin false (.createBucket "v" "b"), .act true]
    let s := ({ world := w } : System {} ed25519 localAllocation Bool).run moves
    (w.locks = {} ∧ (∀ m ∈ moves, m.BeginsGuarded) ∧ s.running false ≠ none) ∧
      s.world.isReady false (.acquire (.volume "v") .read) = false ∧ s.CanGoOn := by
  intro w moves s
  have hmoves : ∀ m ∈ moves, m.BeginsGuarded := by
    simp [moves, Move.BeginsGuarded, Call.isGuarded]
  have hrun : s.running false ≠ none := by
    rw [Ne, ← Option.isNone_iff_eq_none]
    decide +kernel
  have hwait : s.world.isReady false (.acquire (.volume "v") .read) = false := by decide +kernel
  exact ⟨⟨rfl, hmoves, hrun⟩, hwait, run_canGoOn rfl hmoves hrun⟩

end System

end ObjectMeta
