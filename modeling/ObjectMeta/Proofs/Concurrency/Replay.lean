import ObjectMeta.Proofs.Concurrency.Order

/-!
# Calls one at a time

A serial run takes one call after the other (`World.serve`).  A thread that has only gathered so far
can be moved to a later point of a serial run: if the world there would have given it the same
answers, then running its whole call there comes to the same as running what is left of it
(`runAlone_of_leads`).
-/

namespace ObjectMeta

variable {service : KeyService} {S : SignatureScheme} {A : AllocationService} {τ α : Type}
  [DecidableEq τ]

/-! ## 1. Serial runs -/

structure Served (τ : Type) where
  index : Nat
  thread : τ
  call : Call
  result : CallResult
  deriving DecidableEq

/-- Runs the calls one at a time: their results, and the world at the end. -/
def World.serve (service : KeyService) (w : World S A τ) :
    List (Served τ) → List CallResult × World S A τ
  | [] => ([], w)
  | entry :: rest =>
    let (result, w) := (entry.call.program service).runAlone entry.thread w
    let (results, w) := w.serve service rest
    (result :: results, w)

theorem World.serve_append (w : World S A τ) (first second : List (Served τ)) :
    w.serve service (first ++ second) =
      ((w.serve service first).1 ++ ((w.serve service first).2.serve service second).1,
        ((w.serve service first).2.serve service second).2) := by
  induction first generalizing w with
  | nil => rfl
  | cons entry rest ih =>
    simp only [List.cons_append, serve, ih]

/-! ## 2. Answers that a world would give again -/

/-- The world gives this answer, and does not change by giving it except for its locks. -/
def Access.Replays (w : World S A τ) : Access → Prop
  | ⟨.acquire .., _⟩ => True
  | ⟨.now, time⟩ => time = w.clock
  | ⟨.get table key, answer⟩ => answer = .ok (w.store.store.get table key)
  | ⟨.contains table key, answer⟩ => answer = .ok (w.store.store.contains table key)
  | _ => False

theorem Access.Replays.perform {w : World S A τ} {access : Access} (h : access.Replays w)
    (hw : w.store.faults = []) (t : τ) :
    ∃ locks, w.perform t access.action = (access.answer, { w with locks }) := by
  obtain ⟨action, answer⟩ := access
  cases action with
  | acquire path mode => exact ⟨_, rfl⟩
  | now =>
    cases h
    exact ⟨w.locks, rfl⟩
  | get table key =>
    cases h
    exact ⟨w.locks, World.perform_get hw t table key⟩
  | contains table key =>
    cases h
    exact ⟨w.locks, World.perform_contains hw t table key⟩
  | _ => exact h.elim

/-- Running a program whose first answers the world gives again is running the rest of it. -/
theorem Program.runAlone_of_leads {p q : Program α} {trace : Trace} (hl : p.Leads trace q)
    {w : World S A τ} (hw : w.store.faults = []) (h : ∀ access ∈ trace, access.Replays w) (t : τ) :
    ∃ locks, p.runAlone t w = q.runAlone t { w with locks } := by
  induction trace generalizing p w with
  | nil =>
    rw [leads_nil_iff] at hl
    exact ⟨w.locks, by rw [hl]⟩
  | cons access rest ih =>
    cases p with
    | done value => exact hl.elim
    | step action next =>
      obtain ⟨answer, rfl, hrest⟩ := hl
      rw [List.forall_mem_cons] at h
      obtain ⟨locks, hperform⟩ := h.1.perform hw t
      obtain ⟨locks', hrun⟩ := ih hrest (w := { w with locks }) hw h.2
      refine ⟨locks', ?_⟩
      rw [runAlone, hperform]
      exact hrun

omit [DecidableEq τ] in
/-- What a settled program still owes, it covers. -/
theorem Program.Settled.covered {p : Program α} {mayPut : Bool} {trace : Trace} {w₀ : World S A τ}
    {key value : Bytes} (h : p.Settled mayPut) (hd : p.Disciplined trace)
    (ho : p.owes w₀ = some (key, value)) : Covers trace.held .write .openKeys key := by
  induction p generalizing mayPut trace with
  | done result => cases ho
  | step action next ih =>
    rw [disciplined_step] at hd
    cases action with
    | release path mode =>
      -- once a lock is given back there is nothing left to write
      have hnone : (next ()).owes w₀ = none := Settled.owes_eq_none h
      rw [owes, hnone] at ho
      cases ho
    | now =>
      have hrest := ih _ (h w₀.clock) (hd.2 w₀.clock trivial) ho
      rwa [Trace.held_append] at hrest
    | mint owner block maxLength =>
      have hrest := ih _ (h (w₀.mint owner block maxLength)) (hd.2 _ trivial) ho
      rwa [Trace.held_append] at hrest
    | put table key' value' =>
      obtain ⟨-, rfl, -⟩ := h
      cases ho
      exact hd.1.1
    | _ => exact h.elim

end ObjectMeta
