import Mathlib.Logic.Function.Basic
import ObjectMeta.Proofs.Operation.Effects
import ObjectMeta.Proofs.Operation.Execution

/-!
# Threads that interleave

Threads share a world and take their calls through it one action at a time, in any order.  A move
picks the thread that goes on, and a move that cannot be made changes nothing, so the lists of moves
are the interleavings.  The history keeps what happened to every call; a call returns together with
its last action.  Between actions the surroundings may change as they like: the clocks, the faults
of the store, the allocation service and the token authority.

A move is one or two transitions (`Transition`), and what transitions keep holds after every run
(`run_induction`).
-/

namespace ObjectMeta

/-! ## 1. The system -/

abbrev CallResult := Except OperationError Outcome

inductive Happening where
  | began
  | acted (access : Access)
  | returned (result : CallResult)

/-- Something that happened to a call, which its index tells from all others. -/
structure Event (τ : Type) where
  index : Nat
  thread : τ
  call : Call
  happening : Happening

/-- A call on its way: what it has done and what is left of it. -/
structure Activity (service : KeyService) where
  index : Nat
  call : Call
  trace : Trace
  rest : Program CallResult
  leads : (call.program service).Leads trace rest

def Activity.start {service : KeyService} (index : Nat) (call : Call) : Activity service where
  index := index
  call := call
  trace := []
  rest := call.program service
  leads := Program.leads_nil _

def Activity.answered {service : KeyService} (a : Activity service) {action : Action}
    {next : action.Answer → Program CallResult} (h : a.rest = .step action next)
    (answer : action.Answer) : Activity service where
  index := a.index
  call := a.call
  trace := a.trace ++ [⟨action, answer⟩]
  rest := next answer
  leads := Program.Leads.concat (h ▸ a.leads) answer

/-- What happens next: a thread begins a call or takes the next action of the one it is at, or the
surroundings change. -/
inductive Move (S : SignatureScheme) (A : AllocationService) (τ : Type) where
  | begin (thread : τ) (call : Call)
  | act (thread : τ)
  | disturb (around : Surroundings S A)

/-- A world, the call that each thread is at, and all that has happened, oldest first. -/
structure System (service : KeyService) (S : SignatureScheme) (A : AllocationService)
    (τ : Type) where
  world : World S A τ
  running : τ → Option (Activity service) := fun _ => none
  history : List (Event τ) := []

namespace System

variable {service : KeyService} {S : SignatureScheme} {A : AllocationService} {τ : Type}
  [DecidableEq τ]

def begin (s : System service S A τ) (thread : τ) (call : Call) : System service S A τ where
  world := s.world
  running := Function.update s.running thread (some (.start s.history.length call))
  history := s.history ++ [⟨s.history.length, thread, call, .began⟩]

def act (s : System service S A τ) (thread : τ) (a : Activity service) {action : Action}
    {next : action.Answer → Program CallResult} (h : a.rest = .step action next) :
    System service S A τ where
  world := (s.world.perform thread action).2
  running := Function.update s.running thread
    (some (a.answered h (s.world.perform thread action).1))
  history := s.history ++
    [⟨a.index, thread, a.call, .acted ⟨action, (s.world.perform thread action).1⟩⟩]

def finish (s : System service S A τ) (thread : τ) (a : Activity service) (result : CallResult) :
    System service S A τ where
  world := s.world
  running := Function.update s.running thread none
  history := s.history ++ [⟨a.index, thread, a.call, .returned result⟩]

/-- Lets the call of a thread return if nothing is left of it. -/
def settle (s : System service S A τ) (thread : τ) : System service S A τ :=
  match s.running thread with
  | none => s
  | some a =>
    match a.rest with
    | .done result => s.finish thread a result
    | .step .. => s

/-- Makes a move; one that cannot be made changes nothing. -/
def step (s : System service S A τ) : Move S A τ → System service S A τ
  | .begin thread call =>
    match s.running thread with
    | none => (s.begin thread call).settle thread
    | some _ => s
  | .act thread =>
    match s.running thread with
    | none => s
    | some a =>
      match h : a.rest with
      | .done _ => s
      | .step action _ =>
        if s.world.isReady thread action then (s.act thread a h).settle thread else s
  | .disturb around => { s with world := s.world.within around }

def run (s : System service S A τ) (moves : List (Move S A τ)) : System service S A τ :=
  moves.foldl step s

/-! ## 2. Transitions -/

theorem update_eq_some_iff {α : Type} {f : τ → Option α} {t t' : τ} {x : Option α} {a : α} :
    Function.update f t x t' = some a ↔ t' = t ∧ x = some a ∨ t' ≠ t ∧ f t' = some a := by
  by_cases ht : t' = t
  · subst ht
    simp
  · rw [Function.update_of_ne ht]
    simp [ht]

/-- What a move can do to a system, in parts that cannot be divided. -/
inductive Transition : Move S A τ → System service S A τ → System service S A τ → Prop where
  | begin {s : System service S A τ} {t : τ} {call : Call} (idle : s.running t = none) :
      Transition (.begin t call) s (s.begin t call)
  | act {s : System service S A τ} {t : τ} {a : Activity service} {action : Action}
      {next : action.Answer → Program CallResult} (at_call : s.running t = some a)
      (rest : a.rest = .step action next) (ready : s.world.isReady t action = true) :
      Transition (.act t) s (s.act t a rest)
  | finish {m : Move S A τ} {s : System service S A τ} {t : τ} {a : Activity service}
      {result : CallResult} (at_call : s.running t = some a) (rest : a.rest = .done result) :
      Transition m s (s.finish t a result)
  | disturb {s : System service S A τ} {around : Surroundings S A} :
      Transition (.disturb around) s { s with world := s.world.within around }

/-- The history only grows. -/
theorem Transition.exists_history_eq {m : Move S A τ} {s s' : System service S A τ}
    (h : Transition m s s') : ∃ later, s'.history = s.history ++ later := by
  cases h with
  | begin => exact ⟨_, rfl⟩
  | act => exact ⟨_, rfl⟩
  | finish => exact ⟨_, rfl⟩
  | disturb => exact ⟨[], (List.append_nil _).symm⟩

/-- What the transitions of a move keep, the move keeps. -/
theorem step_induction {P : System service S A τ → Prop} {m : Move S A τ}
    (h : ∀ s s', Transition m s s' → P s → P s') {s : System service S A τ} (hs : P s) :
    P (s.step m) := by
  -- Letting a call return is a transition of its own, or nothing.
  have hsettle : ∀ s t, P s → P (settle s t) := by
    intro s t hs
    rw [settle]
    split
    · exact hs
    · next a hrun =>
      split
      · next result hrest => exact h _ _ (.finish hrun hrest) hs
      · exact hs
  cases m with
  | begin t call =>
    rw [step]
    split
    · next hidle => exact hsettle _ t (h _ _ (.begin hidle) hs)
    · exact hs
  | act t =>
    rw [step]
    split
    · exact hs
    · next a hrun =>
      split
      · exact hs
      · next action next hrest =>
        split
        · next hready => exact hsettle _ t (h _ _ (.act hrun hrest hready) hs)
        · exact hs
  | disturb around => exact h _ _ .disturb hs

/-- What the transitions of allowed moves keep holds after every run of them. -/
theorem run_induction {P : System service S A τ → Prop} (allowed : Move S A τ → Prop)
    (h : ∀ m, allowed m → ∀ s s', Transition m s s' → P s → P s') {s : System service S A τ}
    (hs : P s) {moves : List (Move S A τ)} (hmoves : ∀ m ∈ moves, allowed m) :
    P (s.run moves) := by
  induction moves generalizing s with
  | nil => exact hs
  | cons m moves ih =>
    rw [List.forall_mem_cons] at hmoves
    exact ih (step_induction (h m hmoves.1) hs) hmoves.2

/-- What has happened stays in the history. -/
theorem history_prefix_run (s : System service S A τ) (moves : List (Move S A τ)) :
    s.history <+: (s.run moves).history := by
  refine run_induction (P := fun s' => s.history <+: s'.history) (fun _ => True) ?_
    List.prefix_rfl fun _ _ => trivial
  intro m _ s' s'' ht h
  obtain ⟨later, hlater⟩ := ht.exists_history_eq
  rw [hlater]
  exact h.trans (List.prefix_append ..)

/-! ## 3. Nothing left to do -/

/-- Every call on its way has an action left. -/
def Busy (s : System service S A τ) : Prop :=
  ∀ t a result, s.running t = some a → a.rest ≠ .done result

theorem settle_busy {s : System service S A τ} {t : τ}
    (h : ∀ t' a result, t' ≠ t → s.running t' = some a → a.rest ≠ .done result) :
    (s.settle t).Busy := by
  intro t' a result hrun
  rw [settle] at hrun
  split at hrun
  · next hidle =>
    refine h t' a result ?_ hrun
    rintro rfl
    rw [hidle] at hrun
    cases hrun
  · next b hb =>
    split at hrun
    · obtain ⟨-, ha⟩ | ⟨ht, hrun⟩ := update_eq_some_iff.1 hrun
      · cases ha
      · exact h t' a result ht hrun
    · next hrest =>
      by_cases ht : t' = t
      · subst ht
        cases hb.symm.trans hrun
        rw [hrest]
        nofun
      · exact h t' a result ht hrun

theorem Busy.step {s : System service S A τ} (h : s.Busy) (m : Move S A τ) : (s.step m).Busy := by
  -- Whatever the thread of the move is at, the others are where they were.
  have hothers : ∀ (s' : System service S A τ) t b, s'.running = Function.update s.running t b →
      ∀ t' a result, t' ≠ t → s'.running t' = some a → a.rest ≠ .done result := by
    intro s' t b hs' t' a result ht hrun
    rw [hs', Function.update_of_ne ht] at hrun
    exact h t' a result hrun
  cases m with
  | begin t call =>
    rw [System.step]
    split
    · exact settle_busy (hothers _ t _ rfl)
    · exact h
  | act t =>
    rw [System.step]
    split
    · exact h
    · split
      · exact h
      · split
        · exact settle_busy (hothers _ t _ rfl)
        · exact h
  | disturb => exact h

/-- A call returns together with its last action. -/
theorem busy_run {s : System service S A τ} (h : s.Busy) (moves : List (Move S A τ)) :
    (s.run moves).Busy := by
  induction moves generalizing s with
  | nil => exact h
  | cons m moves ih => exact ih (h.step m)

end System

end ObjectMeta
