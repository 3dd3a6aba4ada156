import Mathlib.Algebra.Group.Nat.Defs
import ObjectMeta.Operation.Program

/-!
# Traces of programs

A trace lists the accesses that a program has made, each an action with the answer it got.  What a
program can do does not depend on where the answers come from, so facts about one operation are
facts about its traces under arbitrary answers (`Program.Always`); worlds and other threads come in
later.
-/

namespace ObjectMeta

structure Access where
  action : Action
  answer : action.Answer

/-- What a program has done so far, oldest first. -/
abbrev Trace := List Access

/-! ## 1. What can be read off a trace -/

def Access.put? : Access → Option (Table × Bytes × Bytes)
  | ⟨.put table key value, .ok ()⟩ => some (table, key, value)
  | _ => none

theorem Access.action_of_put? {access : Access} {table : Table} {key value : Bytes}
    (h : access.put? = some (table, key, value)) : access.action = .put table key value := by
  unfold put? at h
  split at h
  · cases h
    rfl
  · cases h

/-- An entry that is written is shorter than a 64-bit count can count, as is every entry that fits into
memory. -/
def Access.isShort : Access → Bool
  | ⟨.put _ _ value, _⟩ => decide (value.length < 2 ^ 64)
  | _ => true

def Access.block? : Access → Option BlockId
  | ⟨.allocate _, .ok block⟩ => some block
  | _ => none

def Access.heldAfter (held : List LockGuard) : Access → List LockGuard
  | ⟨.acquire path mode, _⟩ => ⟨path, mode⟩ :: held
  | ⟨.release path mode, _⟩ => held.erase ⟨path, mode⟩
  | _ => held

namespace Trace

def puts (trace : Trace) : List (Table × Bytes × Bytes) := trace.filterMap Access.put?

def blocks (trace : Trace) : List BlockId := trace.filterMap Access.block?

/-- The locks in hand at the end, latest first. -/
def held (trace : Trace) : List LockGuard := trace.foldl Access.heldAfter []

@[simp] theorem held_nil : held [] = [] := rfl

theorem puts_append (trace trace' : Trace) : puts (trace ++ trace') = puts trace ++ puts trace' :=
  List.filterMap_append

theorem blocks_append (trace trace' : Trace) :
    blocks (trace ++ trace') = blocks trace ++ blocks trace' :=
  List.filterMap_append

/-- A place in a trace with one more access is a place in the trace, or the new access. -/
theorem split_concat {trace before after : Trace} {access last : Access}
    (h : trace ++ [last] = before ++ access :: after) :
    (∃ after', trace = before ++ access :: after') ∨ trace = before ∧ access = last := by
  -- what comes after the place is empty, or it ends in the new access
  obtain rfl | ⟨after', last', rfl⟩ := List.eq_nil_or_concat after
  · obtain ⟨hbefore, hlast⟩ := List.append_inj' h rfl
    exact .inr ⟨hbefore, (List.cons.inj hlast).1.symm⟩
  · rw [List.concat_eq_append, ← List.cons_append, ← List.append_assoc] at h
    exact .inl ⟨after', (List.append_inj' h rfl).1⟩

theorem held_append (trace trace' : Trace) :
    held (trace ++ trace') = trace'.foldl Access.heldAfter (held trace) :=
  List.foldl_append

end Trace

namespace Program

variable {α β : Type}

/-! ## 2. Following a program -/

/-- The accesses lead from a program to what is left of it. -/
def Leads : Program α → Trace → Program α → Prop
  | p, [], q => p = q
  | done _, _ :: _, _ => False
  | step action next, access :: rest, q =>
    ∃ answer, access = ⟨action, answer⟩ ∧ (next answer).Leads rest q

theorem leads_nil (p : Program α) : p.Leads [] p := by
  cases p <;> rfl

theorem leads_nil_iff {p q : Program α} : p.Leads [] q ↔ p = q := by
  cases p <;> rfl

/-- One more access after those that led to a step. -/
theorem Leads.concat {p : Program α} {trace : Trace} {action : Action}
    {next : action.Answer → Program α} (h : p.Leads trace (step action next))
    (answer : action.Answer) : p.Leads (trace ++ [⟨action, answer⟩]) (next answer) := by
  induction trace generalizing p with
  | nil =>
    rw [leads_nil_iff] at h
    subst h
    exact ⟨answer, rfl, leads_nil _⟩
  | cons access rest ih =>
    cases p with
    | done value => exact h.elim
    | step action' next' =>
      obtain ⟨answer', haccess, hrest⟩ := h
      exact ⟨answer', haccess, ih hrest⟩

theorem Leads.append {p q r : Program α} {trace trace' : Trace} (h : p.Leads trace q)
    (h' : q.Leads trace' r) : p.Leads (trace ++ trace') r := by
  induction trace generalizing p with
  | nil =>
    rw [leads_nil_iff] at h
    rwa [List.nil_append, h]
  | cons access rest ih =>
    cases p with
    | done value => exact h.elim
    | step action next =>
      obtain ⟨answer, haccess, hrest⟩ := h
      exact ⟨answer, haccess, ih hrest⟩

/-- Every program can come to an end. -/
theorem exists_leads_done (p : Program α) : ∃ trace value, p.Leads trace (done value) := by
  induction p with
  | done value => exact ⟨[], value, rfl⟩
  | step action next ih =>
    have hanswer : Nonempty action.Answer := by
      cases action with
      | acquire | release => exact ⟨()⟩
      | now => exact ⟨0⟩
      | allocate => exact ⟨.ok default⟩
      | get | mint => exact ⟨.ok none⟩
      | contains => exact ⟨.ok true⟩
      | put | delete => exact ⟨.ok ()⟩
    obtain ⟨answer⟩ := hanswer
    obtain ⟨trace, value, hleads⟩ := ih answer
    exact ⟨⟨action, answer⟩ :: trace, value, answer, rfl, hleads⟩

/-! ## 3. Facts about every trace -/

/-- After the trace so far, whatever the answers are as long as they are `credible`, every action
that the program takes is `fair` for the trace before it and its value is `good` for the whole
trace. -/
def Always (credible : Access → Prop) (fair : Trace → Action → Prop) (good : Trace → α → Prop) :
    Trace → Program α → Prop
  | trace, done value => good trace value
  | trace, step action next =>
    fair trace action ∧ ∀ answer, credible ⟨action, answer⟩ →
      (next answer).Always credible fair good (trace ++ [⟨action, answer⟩])

variable {credible : Access → Prop} {fair : Trace → Action → Prop}

/-- A program followed by another does what each of them does. -/
theorem Always.bind {mid : Trace → α → Prop} {good : Trace → β → Prop} {p : Program α}
    {f : α → Program β} {trace : Trace} (h : p.Always credible fair mid trace)
    (hf : ∀ trace a, mid trace a → (f a).Always credible fair good trace) :
    (p.bind f).Always credible fair good trace := by
  induction p generalizing trace with
  | done value => exact hf trace value h
  | step action next ih => exact ⟨h.1, fun answer hc => ih answer (h.2 answer hc)⟩

theorem Always.of_leads {good : Trace → α → Prop} {p q : Program α} {before trace : Trace}
    (h : p.Always credible fair good before) (hl : p.Leads trace q)
    (hc : ∀ access ∈ trace, credible access) :
    q.Always credible fair good (before ++ trace) := by
  induction trace generalizing p before with
  | nil =>
    rw [leads_nil_iff] at hl
    rwa [List.append_nil, ← hl]
  | cons access rest ih =>
    cases p with
    | done value => exact hl.elim
    | step action next =>
      obtain ⟨answer, rfl, hrest⟩ := hl
      rw [List.forall_mem_cons] at hc
      have hnext := ih (h.2 answer hc.1) hrest hc.2
      rwa [List.append_assoc] at hnext

/-- Every action on the way was fair. -/
theorem Always.fair_at {good : Trace → α → Prop} {p q : Program α} {before trace after : Trace}
    {access : Access} (h : p.Always credible fair good before)
    (hl : p.Leads (trace ++ access :: after) q)
    (hc : ∀ access' ∈ trace ++ access :: after, credible access') :
    fair (before ++ trace) access.action := by
  induction trace generalizing p before with
  | nil =>
    cases p with
    | done value => exact hl.elim
    | step action next =>
      obtain ⟨answer, rfl, -⟩ := hl
      rw [List.append_nil]
      exact h.1
  | cons first rest ih =>
    cases p with
    | done value => exact hl.elim
    | step action next =>
      obtain ⟨answer, rfl, hrest⟩ := hl
      rw [List.cons_append, List.forall_mem_cons] at hc
      have hnext := ih (h.2 answer hc.1) hrest hc.2
      rwa [List.append_assoc] at hnext

end Program

end ObjectMeta
