import Mathlib.Data.List.Induction
import ObjectMeta.Operation.Machine
import ObjectMeta.Proofs.Concurrency.History

/-!
# The machine is a system whose threads go on as far as they can

A machine keeps the calls of its threads as tasks, and goes through the tasks until each has ended
or waits.  What it does is a run of moves of a system: every world that it comes to is one that the
system comes to, and every reply that it gives is what the call returns there
(`Machine.feedAll_mirrors`).  So whatever holds of a system after every run holds of a machine.

The locks that threads take under names, outside of calls, have no moves in a system; neither has a
store that is closed and opened again.
-/

namespace ObjectMeta

variable {service : KeyService} {S : SignatureScheme} {A : AllocationService} {τ : Type}

/-! ## 1. What is left of a call -/

namespace System

/-- What is left of a call that a thread has been given: the call is on its way, or it has returned
and the thread is at no other. -/
def Leaves (s : System service S A τ) (t : τ) (index : Nat) (call : Call)
    (rest : Program CallResult) : Prop :=
  (∃ a, s.running t = some a ∧ a.index = index ∧ a.call = call ∧ a.rest = rest) ∨
    s.running t = none ∧
      ∃ result, ⟨index, t, call, .returned result⟩ ∈ s.history ∧ rest = .done result

variable {s s' : System service S A τ} {t : τ} {index : Nat} {call : Call}
  {rest : Program CallResult}

/-- Where the thread is and what has happened say what is left of its call. -/
theorem Leaves.mono (h : s.Leaves t index call rest) (hrun : s'.running t = s.running t)
    (hhistory : s.history <+: s'.history) : s'.Leaves t index call rest := by
  obtain ⟨a, ha, hrest⟩ | ⟨hidle, result, hresult, hrest⟩ := h
  · exact .inl ⟨a, hrun.trans ha, hrest⟩
  · exact .inr ⟨hrun.trans hidle, result, hhistory.subset hresult, hrest⟩

theorem Leaves.index_lt (h : s.Leaves t index call rest) (hs : s.Consistent) :
    index < s.history.length := by
  obtain ⟨a, ha, rfl, -⟩ | ⟨-, result, hresult, -⟩ := h
  · exact hs.index_lt ha
  · exact hs.fresh _ hresult

/-- A call of which nothing is left has returned. -/
theorem Leaves.returned {result : CallResult} (h : s.Leaves t index call (.done result))
    (hs : s.Busy) :
    s.running t = none ∧ ⟨index, t, call, .returned result⟩ ∈ s.history := by
  obtain ⟨a, ha, -, -, hrest⟩ | ⟨hidle, result', hresult, hrest⟩ := h
  · exact absurd hrest (hs t a result ha)
  · cases hrest
    exact ⟨hidle, hresult⟩

variable [DecidableEq τ]

theorem settle_leaves {a : Activity service} (hrun : s.running t = some a) :
    (s.settle t).world = s.world ∧
      (∀ t' ≠ t, (s.settle t).running t' = s.running t') ∧
      (s.settle t).Leaves t a.index a.call a.rest := by
  rw [settle]
  split
  · next hidle =>
    rw [hrun] at hidle
    cases hidle
  · next b hb =>
    cases hrun.symm.trans hb
    split
    · next result hrest =>
      refine ⟨rfl, fun t' ht => Function.update_of_ne ht .., .inr ⟨Function.update_self ..,
        result, ?_, hrest⟩⟩
      exact List.mem_append_right _ (List.mem_singleton_self _)
    · exact ⟨rfl, fun _ _ => rfl, .inl ⟨a, hrun, rfl, rfl, rfl⟩⟩

/-- A call that is begun has all of its program left. -/
theorem begin_leaves (call : Call) (hidle : s.running t = none) :
    (s.step (.begin t call)).world = s.world ∧
      (∀ t' ≠ t, (s.step (.begin t call)).running t' = s.running t') ∧
      (s.step (.begin t call)).Leaves t s.history.length call (call.program service) := by
  have hstep : s.step (.begin t call) = (s.begin t call).settle t := by rw [step, hidle]
  obtain ⟨hworld, hothers, hleaves⟩ :=
    settle_leaves (s := s.begin t call) (t := t) (Function.update_self ..)
  rw [hstep]
  exact ⟨hworld, fun t' ht => (hothers t' ht).trans (Function.update_of_ne ht ..), hleaves⟩

/-- A thread that is ready takes the next action of its call. -/
theorem Leaves.act {action : Action} {next : action.Answer → Program CallResult}
    (h : s.Leaves t index call (.step action next)) (hready : s.world.isReady t action = true) :
    (s.step (.act t)).world = (s.world.perform t action).2 ∧
      (∀ t' ≠ t, (s.step (.act t)).running t' = s.running t') ∧
      (s.step (.act t)).Leaves t index call (next (s.world.perform t action).1) := by
  obtain ⟨a, ha, rfl, rfl, hrest⟩ | ⟨-, result, -, hrest⟩ := h
  · have hstep : s.step (.act t) = (s.act t a hrest).settle t := by
      rw [step]
      split
      · next hidle =>
        rw [ha] at hidle
        cases hidle
      · next b hb =>
        cases ha.symm.trans hb
        split
        · next result hdone => cases hrest.symm.trans hdone
        · next action' next' hrest' =>
          cases hrest.symm.trans hrest'
          rw [if_pos hready]
    obtain ⟨hworld, hothers, hleaves⟩ :=
      settle_leaves (s := s.act t a hrest) (t := t) (Function.update_self ..)
    rw [hstep]
    exact ⟨hworld, fun t' ht => (hothers t' ht).trans (Function.update_of_ne ht ..), hleaves⟩
  · cases hrest

end System

/-! ## 2. What a machine is given -/

namespace Machine

variable [DecidableEq τ]

inductive Input (S : SignatureScheme) (A : AllocationService) (τ : Type) where
  | submit (thread : τ) (call : Call)
  | settle
  | setClock (time : Int64)
  | setTokenClock (time : Int64)
  | setAllocator (allocator : A.State)
  | startAuthority (key : S.SigningKey)
  | addFault (fault : StoreFault)
  | clearFaults
  | holdAllocations
  | passAllocation (thread : τ)
  | openAllocations

/-- The machine after an input, which stands at a place among all inputs.  A thread at work takes no
other call. -/
def feed (m : Machine S A τ) (place : Nat) : Input S A τ → Machine S A τ
  | .submit thread call => if m.isBusy thread then m else m.submit place thread call
  | .settle => m.settle.2
  | .setClock time => m.setClock time
  | .setTokenClock time => m.setTokenClock time
  | .setAllocator allocator => { m with world := { m.world with allocator } }
  | .startAuthority key => (m.startAuthority key).2
  | .addFault fault => m.addFault fault
  | .clearFaults => m.clearFaults
  | .holdAllocations => m.holdAllocations
  | .passAllocation thread => m.passAllocation thread
  | .openAllocations => m.openAllocations

def feedAll (m : Machine S A τ) (inputs : List (Input S A τ)) : Machine S A τ :=
  inputs.zipIdx.foldl (fun m (input, place) => m.feed place input) m

theorem feedAll_concat (m : Machine S A τ) (inputs : List (Input S A τ)) (input : Input S A τ) :
    m.feedAll (inputs ++ [input]) = (m.feedAll inputs).feed inputs.length input := by
  rw [feedAll, List.zipIdx_append, List.foldl_append, ← feedAll]
  simp

/-! ## 3. One task -/

theorem runTask_of_isReady {m : Machine S A τ} {t : τ} {action : Action}
    (h : m.isReady t action = true) (request? : Option KeyRequest)
    (next : action.Answer → Program Reply) (allocations : List AllocationCall) :
    runTask t request? (.step action next) allocations m =
      runTask t request? (next (m.perform t action).1)
        (allocations ++ m.allocationOf request? action) (m.perform t action).2 := by
  rw [runTask, if_pos h]

theorem runTask_of_not_isReady {m : Machine S A τ} {t : τ} {action : Action}
    (h : ¬m.isReady t action = true) (request? : Option KeyRequest)
    (next : action.Answer → Program Reply) (allocations : List AllocationCall) :
    runTask t request? (.step action next) allocations m =
      (.step action next, allocations, m) := by
  rw [runTask, if_neg h]

/-- What a thread does when its task is run, it does in the system, and nothing else happens. -/
theorem runTask_spec {t : τ} {index : Nat} {call : Call} (request? : Option KeyRequest)
    (rest : Program CallResult) :
    ∀ (allocations : List AllocationCall) (m : Machine S A τ) (s : System service S A τ),
      s.world = m.world → s.Leaves t index call rest →
      ∃ rest' allocations' world gate moves,
        runTask t request? (.result <$> rest) allocations m =
          (.result <$> rest', allocations', { m with world, gate }) ∧
        (s.run moves).world = world ∧ (∀ t' ≠ t, (s.run moves).running t' = s.running t') ∧
        (s.run moves).Leaves t index call rest' := by
  induction rest with
  | done result =>
    intro allocations m s hworld hleaves
    exact ⟨.done result, allocations, m.world, m.gate, [], rfl, hworld, fun _ _ => rfl, hleaves⟩
  | step action next ih =>
    intro allocations m s hworld hleaves
    by_cases hready : m.isReady t action = true
    · have hworldReady : s.world.isReady t action = true := by
        rw [hworld]
        exact (Bool.and_eq_true_iff.1 hready).1
      obtain ⟨hworld', hothers, hleaves'⟩ := hleaves.act hworldReady
      rw [hworld] at hworld' hleaves'
      obtain ⟨rest', allocations', world, gate, moves, hrun, hw, ho, hl⟩ :=
        ih (m.perform t action).1 (allocations ++ m.allocationOf request? action)
          (m.perform t action).2 (s.step (.act t)) hworld' hleaves'
      exact ⟨rest', allocations', world, gate, .act t :: moves,
        (runTask_of_isReady hready request? _ allocations).trans hrun, hw,
        fun t' ht => (ho t' ht).trans (hothers t' ht), hl⟩
    · exact ⟨.step action next, allocations, m.world, m.gate, [],
        runTask_of_not_isReady hready request? _ allocations, hworld, fun _ _ => rfl, hleaves⟩

/-! ## 4. Machine and system -/

def threads (m : Machine S A τ) : List τ := m.tasks.map (·.thread)

def indices (m : Machine S A τ) : List Nat := m.tasks.map (·.index) ++ m.finished.map (·.index)

/-- A task is a call among the inputs, and what it has still to do is what is left of the call in a
system, where `numbers` gives the index of the call at each place. -/
def MirrorsTask (inputs : List (Input S A τ)) (numbers : Nat → Nat) (s : System service S A τ)
    (task : Task τ) : Prop :=
  ∃ call rest, inputs[task.index]? = some (.submit task.thread call) ∧
    s.Leaves task.thread (numbers task.index) call rest ∧ task.program = .result <$> rest

/-- A reply is what a call among the inputs has returned in a system. -/
def MirrorsReply (inputs : List (Input S A τ)) (numbers : Nat → Nat) (s : System service S A τ)
    (ended : Finished) : Prop :=
  ∃ t call result, inputs[ended.index]? = some (.submit t call) ∧ ended.reply = .result result ∧
    ⟨numbers ended.index, t, call, .returned result⟩ ∈ s.history

/-- The system is where the machine is after some inputs. -/
structure Mirrors (inputs : List (Input S A τ)) (numbers : Nat → Nat) (m : Machine S A τ)
    (s : System service S A τ) : Prop where
  service_eq : m.service = service
  world_eq : s.world = m.world
  apart : m.threads.Nodup
  idle : ∀ t ∉ m.threads, s.running t = none
  tasks : ∀ task ∈ m.tasks, MirrorsTask inputs numbers s task
  finished : ∀ ended ∈ m.finished, MirrorsReply inputs numbers s ended
  injective : ∀ i ∈ m.indices, ∀ j ∈ m.indices, numbers i = numbers j → i = j

variable {inputs : List (Input S A τ)} {numbers numbers' : Nat → Nat} {m : Machine S A τ}
  {s s' : System service S A τ} {before after : List (Task τ)} {task : Task τ} {ended : Finished}

omit [DecidableEq τ] in
theorem MirrorsTask.mono (h : MirrorsTask inputs numbers s task)
    (hnumber : numbers' task.index = numbers task.index)
    (hrun : s'.running task.thread = s.running task.thread) (hhistory : s.history <+: s'.history) :
    MirrorsTask inputs numbers' s' task := by
  obtain ⟨call, rest, hinput, hleaves, hprogram⟩ := h
  refine ⟨call, rest, hinput, ?_, hprogram⟩
  rw [hnumber]
  exact hleaves.mono hrun hhistory

omit [DecidableEq τ] in
theorem MirrorsReply.mono (h : MirrorsReply inputs numbers s ended)
    (hnumber : numbers' ended.index = numbers ended.index) (hhistory : s.history <+: s'.history) :
    MirrorsReply inputs numbers' s' ended := by
  obtain ⟨t, call, result, hinput, hreply, hreturned⟩ := h
  refine ⟨t, call, result, hinput, hreply, ?_⟩
  rw [hnumber]
  exact hhistory.subset hreturned

omit [DecidableEq τ] in
/-- The other tasks are of other threads. -/
theorem Mirrors.thread_ne
    (h : Mirrors inputs numbers { m with tasks := before ++ task :: after } s) :
    ∀ other ∈ before ++ after, other.thread ≠ task.thread := by
  have hnodup := h.apart
  simp only [threads, List.map_append, List.map_cons] at hnodup
  have hnot := (List.nodup_cons.1 (List.perm_middle.nodup_iff.1 hnodup)).1
  rw [← List.map_append] at hnot
  exact fun other hother heq => hnot (heq ▸ List.mem_map_of_mem hother)

/-- One task goes on, and the others wait. -/
theorem Mirrors.goOn (h : Mirrors inputs numbers { m with tasks := before ++ task :: after } s) :
    ∃ rest allocations world gate moves,
      runTask task.thread task.request? task.program task.allocations m =
        (.result <$> rest, allocations, { m with world, gate }) ∧
      Mirrors inputs numbers
        { m with
          world, gate
          tasks := before ++ { task with allocations, program := .result <$> rest } :: after }
        (s.run moves) := by
  obtain ⟨call, rest, hinput, hleaves, hprogram⟩ :=
    h.tasks task (List.mem_append_right _ List.mem_cons_self)
  obtain ⟨rest', allocations, world, gate, moves, hrun, hworld, hothers, hleaves'⟩ :=
    runTask_spec task.request? rest task.allocations m s h.world_eq hleaves
  have hhistory := s.history_prefix_run moves
  have hwaiting : ∀ other ∈ before ++ after, MirrorsTask inputs numbers (s.run moves) other := by
    intro other hother
    have hmem : other ∈ before ++ task :: after :=
      List.mem_append.2 ((List.mem_append.1 hother).imp_right (List.mem_cons_of_mem _))
    exact (h.tasks other hmem).mono rfl (hothers _ (h.thread_ne other hother)) hhistory
  have hthreads : threads { m with
      world, gate
      tasks := before ++ { task with allocations, program := .result <$> rest' } :: after } =
      threads { m with tasks := before ++ task :: after } := by
    simp [threads]
  have hindices : indices { m with
      world, gate
      tasks := before ++ { task with allocations, program := .result <$> rest' } :: after } =
      indices { m with tasks := before ++ task :: after } := by
    simp [indices]
  refine ⟨rest', allocations, world, gate, moves, hprogram ▸ hrun, ?_⟩
  exact {
    service_eq := h.service_eq
    world_eq := hworld
    apart := hthreads ▸ h.apart
    idle := by
      intro t ht
      rw [hthreads] at ht
      rw [hothers t, h.idle t ht]
      rintro rfl
      exact ht (by simp [threads])
    tasks := by
      intro other hother
      simp only [List.mem_append, List.mem_cons] at hother
      obtain hother | rfl | hother := hother
      · exact hwaiting other (List.mem_append_left _ hother)
      · exact ⟨call, rest', hinput, hleaves', rfl⟩
      · exact hwaiting other (List.mem_append_right _ hother)
    finished := fun ended hended => (h.finished ended hended).mono rfl hhistory
    injective := hindices ▸ h.injective }

/-- A task that is done gives its reply, which its call has returned. -/
theorem Mirrors.reply (hs : s.Busy) {reply : Reply}
    (h : Mirrors inputs numbers { m with tasks := before ++ task :: after } s)
    (hdone : task.program = .done reply) :
    m.keepGuard task.thread reply = m ∧
      Mirrors inputs numbers
        { m with
          tasks := before ++ after
          finished := ⟨task.index, reply, task.allocations⟩ :: m.finished } s := by
  obtain ⟨call, rest, hinput, hleaves, hprogram⟩ :=
    h.tasks task (List.mem_append_right _ List.mem_cons_self)
  rw [hdone] at hprogram
  cases rest with
  | step action next => cases hprogram
  | done result =>
    cases hprogram
    obtain ⟨hidle, hreturned⟩ := hleaves.returned hs
    have hindices : ∀ i, i ∈ indices { m with
        tasks := before ++ after
        finished := ⟨task.index, .result result, task.allocations⟩ :: m.finished } →
        i ∈ indices { m with tasks := before ++ task :: after } := by
      intro i
      simp only [indices, List.map_append, List.map_cons, List.mem_append, List.mem_cons,
        or_assoc, or_left_comm, imp_self]
    refine ⟨rfl, ?_⟩
    exact {
      service_eq := h.service_eq
      world_eq := h.world_eq
      apart := by
        have hnodup := h.apart
        simp only [threads, List.map_append, List.map_cons] at hnodup ⊢
        exact (List.perm_middle.nodup_iff.1 hnodup).of_cons
      idle := by
        intro t ht
        by_cases htask : t = task.thread
        · exact htask ▸ hidle
        · refine h.idle t fun hmem => ht ?_
          simpa [threads, htask] using hmem
      tasks := by
        intro other hother
        exact h.tasks other
          (List.mem_append.2 ((List.mem_append.1 hother).imp_right (List.mem_cons_of_mem _)))
      finished := List.forall_mem_cons.2
        ⟨⟨task.thread, call, result, hinput, rfl, hreturned⟩, h.finished⟩
      injective := fun i hi j hj => h.injective i (hindices i hi) j (hindices j hj) }

theorem Mirrors.round (hs : s.Busy) {pending : List (Task τ)}
    (h : Mirrors inputs numbers { m with tasks := m.tasks ++ pending } s) :
    ∃ moves, Mirrors inputs numbers (Machine.round pending m).2 (s.run moves) := by
  induction pending generalizing m s with
  | nil =>
    rw [List.append_nil] at h
    exact ⟨[], h⟩
  | cons task pending ih =>
    obtain ⟨rest, allocations, world, gate, moves, hrun, h⟩ := h.goOn
    have hbusy := System.busy_run hs moves
    cases rest with
    | done result =>
      obtain ⟨-, h⟩ := Mirrors.reply (m := { m with world, gate }) hbusy h rfl
      obtain ⟨moves', h⟩ := ih (m := { m with
        world, gate, finished := ⟨task.index, .result result, allocations⟩ :: m.finished }) hbusy h
      refine ⟨moves ++ moves', ?_⟩
      rw [System.run, List.foldl_append, Machine.round, hrun]
      exact h
    | step action next =>
      obtain ⟨moves', h⟩ := ih (m := { m with
        world, gate
        tasks := m.tasks ++ [{ task with allocations, program := .result <$> .step action next }] })
        hbusy (by simpa using h)
      refine ⟨moves ++ moves', ?_⟩
      rw [System.run, List.foldl_append, Machine.round, hrun]
      exact h

theorem Mirrors.rounds (hs : s.Busy) (h : Mirrors inputs numbers m s) (n : Nat) :
    ∃ moves, Mirrors inputs numbers (Machine.rounds n m).2 (s.run moves) := by
  induction n generalizing m s with
  | zero => exact ⟨[], h⟩
  | succ n ih =>
    obtain ⟨moves, h⟩ := Mirrors.round (m := { m with tasks := [] }) hs h
    obtain ⟨moves', h⟩ := ih (System.busy_run hs moves) h
    refine ⟨moves ++ moves', ?_⟩
    rw [System.run, List.foldl_append]
    exact h

/-- What surrounds the threads, the gate apart, changes in the system as in the machine. -/
theorem Mirrors.surround (h : Mirrors inputs numbers m s) (around : Surroundings S A)
    (gate : AllocationGate τ) :
    Mirrors inputs numbers { m with world := m.world.within around, gate }
      (s.run [.disturb around]) where
  service_eq := h.service_eq
  world_eq := congrArg (World.within · around) h.world_eq
  apart := h.apart
  idle := h.idle
  tasks := h.tasks
  finished := h.finished
  injective := h.injective

omit [DecidableEq τ] in
/-- More inputs leave the earlier ones at their places. -/
theorem Mirrors.later (h : Mirrors inputs numbers m s) (input : Input S A τ) :
    Mirrors (inputs ++ [input]) numbers m s := by
  have hplace {place : Nat} {earlier : Input S A τ} (h : inputs[place]? = some earlier) :
      (inputs ++ [input])[place]? = some earlier := by
    rw [List.getElem?_append_left (List.getElem?_eq_some_iff.1 h).1, h]
  exact { h with
    tasks := by
      intro task htask
      obtain ⟨call, rest, hinput, hrest⟩ := h.tasks task htask
      exact ⟨call, rest, hplace hinput, hrest⟩
    finished := by
      intro ended hended
      obtain ⟨t, call, result, hinput, hrest⟩ := h.finished ended hended
      exact ⟨t, call, result, hplace hinput, hrest⟩ }

omit [DecidableEq τ] in
/-- Tasks have their places among the inputs, and their calls are in the history. -/
theorem Mirrors.index_lt (hs : s.Consistent) (h : Mirrors inputs numbers m s) {index : Nat}
    (hindex : index ∈ m.indices) :
    index < inputs.length ∧ numbers index < s.history.length := by
  rw [indices, List.mem_append, List.mem_map, List.mem_map] at hindex
  obtain ⟨task, htask, rfl⟩ | ⟨ended, hended, rfl⟩ := hindex
  · obtain ⟨call, rest, hinput, hleaves, -⟩ := h.tasks task htask
    exact ⟨(List.getElem?_eq_some_iff.1 hinput).1, hleaves.index_lt hs⟩
  · obtain ⟨t, call, result, hinput, -, hreturned⟩ := h.finished ended hended
    exact ⟨(List.getElem?_eq_some_iff.1 hinput).1, hs.fresh _ hreturned⟩

/-- A call that an idle thread is handed begins in the system. -/
theorem Mirrors.submit (hs : s.Consistent) (h : Mirrors inputs numbers m s) {t : τ} (call : Call)
    (hidle : t ∉ m.threads) :
    Mirrors (inputs ++ [.submit t call]) (Function.update numbers inputs.length s.history.length)
      (m.submit inputs.length t call) (s.run [.begin t call]) := by
  obtain ⟨hworld, hothers, hleaves⟩ := System.begin_leaves (s := s) call (h.idle t hidle)
  have hhistory := s.history_prefix_run [.begin t call]
  have hlater := h.later (.submit t call)
  have hthreads : (m.submit inputs.length t call).threads = m.threads ++ [t] := by
    simp [threads, Machine.submit]
  have hindices : ∀ index ∈ (m.submit inputs.length t call).indices,
      index = inputs.length ∨ index ∈ m.indices := by
    intro index hindex
    simp only [indices, Machine.submit, List.map_append, List.map_cons, List.map_nil,
      List.mem_append, List.mem_singleton] at hindex ⊢
    exact or_assoc.1 (hindex.imp_left Or.symm)
  -- the new place is none of the old ones, and no call has the new number
  have hnumber : ∀ index ∈ m.indices,
      Function.update numbers inputs.length s.history.length index = numbers index :=
    fun index hindex => Function.update_of_ne (Nat.ne_of_lt (h.index_lt hs hindex).1) ..
  have hnew : ∀ index ∈ m.indices, numbers index ≠ s.history.length :=
    fun index hindex => Nat.ne_of_lt (h.index_lt hs hindex).2
  exact {
    service_eq := h.service_eq
    world_eq := hworld.trans h.world_eq
    apart := by
      rw [hthreads]
      refine List.pairwise_append.2 ⟨h.apart, List.pairwise_singleton .., ?_⟩
      intro t' ht' t'' ht'' heq
      exact hidle (List.mem_singleton.1 ht'' ▸ heq ▸ ht')
    idle := by
      intro t' ht'
      rw [hthreads, List.mem_append, List.mem_singleton, not_or] at ht'
      exact (hothers t' ht'.2).trans (h.idle t' ht'.1)
    tasks := by
      intro task hmem
      rw [Machine.submit, List.mem_append, List.mem_singleton] at hmem
      obtain hmem | rfl := hmem
      · have hindex : task.index ∈ m.indices :=
          List.mem_append_left _ (List.mem_map_of_mem hmem)
        have hother : task.thread ≠ t := fun heq => hidle (heq ▸ List.mem_map_of_mem hmem)
        exact (hlater.tasks task hmem).mono (hnumber _ hindex) (hothers _ hother) hhistory
      · refine ⟨call, call.program service, List.getElem?_concat_length .., ?_, ?_⟩
        · rw [Function.update_self]
          exact hleaves
        · rw [h.service_eq]
    finished := by
      intro ended hmem
      have hindex : ended.index ∈ m.indices := List.mem_append_right _ (List.mem_map_of_mem hmem)
      exact (hlater.finished ended hmem).mono (hnumber _ hindex) hhistory
    injective := by
      intro i hi j hj heq
      obtain rfl | hi := hindices i hi <;> obtain rfl | hj := hindices j hj
      · rfl
      · rw [Function.update_self, hnumber j hj] at heq
        exact absurd heq.symm (hnew j hj)
      · rw [Function.update_self, hnumber i hi] at heq
        exact absurd heq (hnew i hi)
      · rw [hnumber i hi, hnumber j hj] at heq
        exact h.injective i hi j hj heq }

theorem Mirrors.feed (hs : s.Busy) (hs' : s.Consistent) (h : Mirrors inputs numbers m s)
    (input : Input S A τ) :
    ∃ numbers' moves,
      Mirrors (inputs ++ [input]) numbers' (m.feed inputs.length input) (s.run moves) := by
  have hlater := h.later input
  have hsurround : ∀ around gate, ∃ numbers' moves, Mirrors (inputs ++ [input]) numbers'
      { m with world := m.world.within around, gate } (s.run moves) :=
    fun around gate => ⟨numbers, _, hlater.surround around gate⟩
  let around := m.world.surroundings
  cases input with
  | submit t call =>
    rw [Machine.feed]
    split
    · exact ⟨numbers, [], hlater⟩
    · next hidle =>
      refine ⟨_, _, h.submit hs' call ?_⟩
      simpa [isBusy, threads] using hidle
  | settle =>
    obtain ⟨moves, h⟩ := hlater.rounds hs (3 * m.tasks.length + 1)
    exact ⟨numbers, moves, h⟩
  | setClock time => exact hsurround { around with clock := time } m.gate
  | setTokenClock time =>
    rw [Machine.feed, Machine.setTokenClock]
    split
    · exact hsurround { around with ownTokenClock := some time } m.gate
    · exact hsurround { around with clock := time } m.gate
  | setAllocator allocator => exact hsurround { around with allocator } m.gate
  | startAuthority key =>
    rw [Machine.feed, Machine.startAuthority]
    split
    · exact ⟨numbers, [], hlater⟩
    · split
      · exact ⟨numbers, [], hlater⟩
      · next authority _ => exact hsurround { around with authority := some authority } m.gate
  | addFault fault => exact hsurround { around with faults := around.faults ++ [fault] } m.gate
  | clearFaults => exact hsurround { around with faults := [] } m.gate
  | holdAllocations => exact hsurround around { m.gate with held := true }
  | passAllocation thread =>
    exact hsurround around { m.gate with passes := thread :: m.gate.passes }
  | openAllocations => exact hsurround around { m.gate with held := false }

variable (service) in
/-- What a machine does is a run of a system. -/
theorem feedAll_mirrors (w : World S A τ) (inputs : List (Input S A τ)) :
    ∃ numbers moves, Mirrors inputs numbers (feedAll { world := w, service } inputs)
      (({ world := w } : System service S A τ).run moves) := by
  have hbusy : ({ world := w } : System service S A τ).Busy :=
    fun _ _ _ hidle => by cases hidle
  induction inputs using List.reverseRecOn with
  | nil =>
    refine ⟨id, [], ?_⟩
    exact {
      service_eq := rfl
      world_eq := rfl
      apart := List.nodup_nil
      idle := fun _ _ => rfl
      tasks := fun _ hnone => by cases hnone
      finished := fun _ hnone => by cases hnone
      injective := fun _ hnone => by cases hnone }
  | append_singleton inputs input ih =>
    obtain ⟨numbers, moves, h⟩ := ih
    obtain ⟨numbers', moves', h⟩ := h.feed (System.busy_run hbusy moves)
      (System.consistent_run (System.consistent_empty w) moves) input
    refine ⟨numbers', moves ++ moves', ?_⟩
    rw [feedAll_concat, System.run, List.foldl_append]
    exact h

end Machine

end ObjectMeta
