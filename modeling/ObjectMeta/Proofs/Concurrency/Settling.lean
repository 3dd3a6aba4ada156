import ObjectMeta.Proofs.Concurrency.Machine
import ObjectMeta.Proofs.Operation.LockStack

/-!
# The machine settles

A thread can have to wait where it takes a lock and where it asks for a block, and a call does so
three times at most (`Call.waitsAtMost`).  A round in which a task moves takes it past such a place,
and a round in which none moves changes nothing.  So a machine settles in as many rounds as its
tasks can wait: whatever is left then waits for what it cannot have (`Machine.feedAll_settled`).
-/

namespace ObjectMeta

open Operation Program

variable {α β : Type} {n k : Nat}

/-! ## 1. Waiting on the way of a program -/

def Action.mayWait : Action → Bool
  | acquire .. | allocate _ => true
  | _ => false

/-- Whatever the answers are, the program takes at most `n` actions that it may have to wait for. -/
inductive Program.WaitsAtMost {α : Type} : Nat → Program α → Prop where
  | done {n : Nat} (value : α) : WaitsAtMost n (done value)
  | pass {n : Nat} {action : Action} {next : action.Answer → Program α}
      (ready : action.mayWait = false) (later : ∀ answer, WaitsAtMost n (next answer)) :
      WaitsAtMost n (step action next)
  | wait {n : Nat} {action : Action} {next : action.Answer → Program α}
      (later : ∀ answer, WaitsAtMost n (next answer)) : WaitsAtMost (n + 1) (step action next)

namespace Program.WaitsAtMost

theorem mono {p : Program α} (h : p.WaitsAtMost n) (hle : n ≤ k) : p.WaitsAtMost k := by
  induction h generalizing k with
  | done value => exact .done value
  | pass ready later ih => exact .pass ready fun answer => ih answer hle
  | wait later ih =>
    obtain ⟨k, rfl⟩ := Nat.exists_eq_add_of_lt hle
    exact .wait fun answer => ih answer (by omega)

theorem bind {p : Program α} {f : α → Program β} (h : p.WaitsAtMost n)
    (hf : ∀ a, (f a).WaitsAtMost k) : (p.bind f).WaitsAtMost (n + k) := by
  induction h with
  | done value => exact (hf value).mono (Nat.le_add_left ..)
  | pass ready later ih => exact .pass ready ih
  | @wait n action next later ih =>
    rw [Nat.add_right_comm]
    exact .wait ih

theorem of_leads {p q : Program α} {trace : Trace} (h : p.WaitsAtMost n) (hl : p.Leads trace q) :
    q.WaitsAtMost n := by
  induction trace generalizing p n with
  | nil => exact leads_nil_iff.1 hl ▸ h
  | cons access rest ih =>
    cases h with
    | done value => exact hl.elim
    | pass ready later =>
      obtain ⟨answer, -, hrest⟩ := hl
      exact ih (later answer) hrest
    | wait later =>
      obtain ⟨answer, -, hrest⟩ := hl
      exact (ih (later answer) hrest).mono (Nat.le_succ _)

end Program.WaitsAtMost

/-- Work that asks for no blocks has nothing to wait for. -/
theorem Program.Works.waitsAtMost {p : Program α} (h : p.Works false) : p.WaitsAtMost n := by
  induction p with
  | done value => exact .done value
  | step action next ih =>
    refine .pass ?_ fun answer => ih answer (h.2 answer)
    cases action with
    | acquire | release => exact h.1.elim
    | allocate request => cases h.1
    | _ => rfl

/-! ## 2. The calls -/

namespace Operation

/-- The rule of `WaitsAtMost.bind` for operations, where what fails is over. -/
theorem waitsAtMost_bind {op : Operation α} {f : α → Operation β} (h : op.run.WaitsAtMost n)
    (hf : ∀ a, (f a).run.WaitsAtMost k) : (op >>= f).run.WaitsAtMost (n + k) := by
  refine h.bind fun result => ?_
  cases result with
  | error e => exact .done _
  | ok a => exact hf a

theorem waitsAtMost_map {op : Operation α} (h : op.run.WaitsAtMost n) (f : α → β) :
    (f <$> op).run.WaitsAtMost n := by
  rw [← bind_pure_comp]
  exact waitsAtMost_bind h fun a => (works_pure (f a)).waitsAtMost (n := 0)

theorem waitsAtMost_checked {result : Except RequestError Unit} {f : Unit → Operation β}
    (hf : (f ()).run.WaitsAtMost k) : (checked result >>= f).run.WaitsAtMost k := by
  rw [← Nat.zero_add k]
  exact waitsAtMost_bind (works_ofExcept _ _).waitsAtMost fun _ => hf

theorem waitsAtMost_locked {path : ResourcePath} {mode : LockMode} {body : Operation α}
    (h : body.run.WaitsAtMost n) : (locked path mode body).run.WaitsAtMost (n + 1) := by
  refine .wait fun _ => h.bind (k := 0) fun result => ?_
  exact .pass rfl fun _ => .done result

theorem waitsAtMost_perform (action : Action) : (perform action).run.WaitsAtMost 1 :=
  .wait fun answer => .done (Except.ok answer)

variable (service : KeyService) (request : KeyRequest)

theorem waitsAtMost_allocateLocation (size : Int64) (replicationType : ReplicationType)
    (replicationFactor : ReplicationFactor) :
    (service.allocateLocation request size replicationType
      replicationFactor).run.WaitsAtMost 1 := by
  refine waitsAtMost_bind (k := 0) (waitsAtMost_perform _) fun answer => ?_
  refine Program.Works.waitsAtMost ((works_ofExcept _ _).bind fun block => ?_)
  exact (works_mint _ _ _).bind fun token => works_pure _

theorem waitsAtMost_writeFirst (committed? : Option KeyRecord) :
    (service.writeFirst request committed?).run.WaitsAtMost 1 := by
  refine waitsAtMost_bind (k := 0) (waitsAtMost_allocateLocation service request _ _ _) ?_
  refine fun location => Program.Works.waitsAtMost (works_now.bind fun time => ?_)
  exact (works_putRecord _ _ _).bind fun _ => works_pure _

theorem waitsAtMost_writeNext (number : UInt64) (record : KeyRecord) :
    (service.writeNext request number record).run.WaitsAtMost 1 := by
  refine waitsAtMost_bind (k := 0) (waitsAtMost_allocateLocation service request _ _ _) ?_
  refine fun location => Program.Works.waitsAtMost (works_now.bind fun time => ?_)
  exact (works_putRecord _ _ _).bind fun _ => works_pure _

theorem waitsAtMost_createVolume (volume owner : String) :
    (createVolume volume owner).run.WaitsAtMost 1 := by
  obtain ⟨body, hworks, hbody⟩ := createVolume_works false volume owner
  rw [hbody]
  exact waitsAtMost_checked (waitsAtMost_locked hworks.waitsAtMost)

theorem waitsAtMost_createBucket (volume bucket : String) :
    (createBucket volume bucket).run.WaitsAtMost 2 := by
  obtain ⟨body, hworks, hbody⟩ := createBucket_works false volume bucket
  rw [hbody]
  refine waitsAtMost_checked (waitsAtMost_checked ?_)
  exact waitsAtMost_locked (waitsAtMost_locked hworks.waitsAtMost)

theorem waitsAtMost_openKey : (service.openKey request).run.WaitsAtMost 2 := by
  rw [KeyService.openKey_eq]
  refine waitsAtMost_checked (waitsAtMost_locked (n := 0 + (0 + 1)) ?_)
  refine waitsAtMost_bind (works_checkBucketExists _ _).waitsAtMost fun _ => ?_
  refine waitsAtMost_bind (works_getRecord _ _ _).waitsAtMost fun found => ?_
  exact waitsAtMost_writeFirst service request found

theorem waitsAtMost_allocateBlock (number : UInt64) :
    (service.allocateBlock request number).run.WaitsAtMost 3 := by
  rw [KeyService.allocateBlock_eq]
  refine waitsAtMost_checked (waitsAtMost_locked (waitsAtMost_locked (n := 0 + 1) ?_))
  refine waitsAtMost_bind (works_getRecord _ _ _).waitsAtMost fun found => ?_
  cases found.filter fun record => (record.version? number).isSome with
  | none => exact (works_throw _).waitsAtMost
  | some record => exact waitsAtMost_writeNext service request number record

theorem waitsAtMost_lookupKey : (service.lookupKey request).run.WaitsAtMost 2 := by
  obtain ⟨body, hworks, hbody⟩ := lookupKey_works service request false
  rw [hbody]
  exact waitsAtMost_checked (waitsAtMost_locked (waitsAtMost_locked hworks.waitsAtMost))

end Operation

/-- A call waits for two locks and one block at most. -/
theorem Call.waitsAtMost (service : KeyService) (call : Call) :
    (call.program service).WaitsAtMost 3 := by
  suffices h : (call.operation service).run.WaitsAtMost 3 from h
  cases call with
  | createVolume volume owner =>
    exact waitsAtMost_map ((waitsAtMost_createVolume volume owner).mono (by decide)) _
  | createBucket volume bucket =>
    exact waitsAtMost_map ((waitsAtMost_createBucket volume bucket).mono (by decide)) _
  | openKey request =>
    exact waitsAtMost_map ((waitsAtMost_openKey service request).mono (by decide)) _
  | allocateBlock request number =>
    exact waitsAtMost_map (waitsAtMost_allocateBlock service request number) _
  | lookupKey request =>
    exact waitsAtMost_map ((waitsAtMost_lookupKey service request).mono (by decide)) _
  -- the other calls have no locks and no blocks
  | getVolume volume => exact waitsAtMost_map (works_getRecord _ _ _).waitsAtMost _
  | getBucket volume bucket => exact waitsAtMost_map (works_getRecord _ _ _).waitsAtMost _
  | checkBucket volume bucket => exact waitsAtMost_map (works_checkBucketExists _ _).waitsAtMost _
  | getOpenKey path => exact waitsAtMost_map (works_getRecord _ _ _).waitsAtMost _
  | getKey path => exact waitsAtMost_map (works_getRecord _ _ _).waitsAtMost _
  | putOpenKey record => exact waitsAtMost_map (works_putRecord _ _ _).waitsAtMost _
  | putKey record => exact waitsAtMost_map (works_putRecord _ _ _).waitsAtMost _
  | deleteOpenKey path => exact waitsAtMost_map (works_delete _ _).waitsAtMost _
  | commit path => exact waitsAtMost_map (works_commit path).waitsAtMost _

/-! ## 3. Tasks -/

namespace Machine

variable {service : KeyService} {S : SignatureScheme} {A : AllocationService} {τ : Type}

/-- A program has come to a place where it may have to wait. -/
def AtWait (p : Program Reply) : Prop :=
  ∃ action next, p = .step action next ∧ action.mayWait = true

/-- The tasks have at most so many places to wait before them, all taken together. -/
inductive WaitTotal : List (Task τ) → Nat → Prop where
  | nil : WaitTotal [] 0
  | cons {task : Task τ} {tasks : List (Task τ)} {n k : Nat} (first : task.program.WaitsAtMost n)
      (others : WaitTotal tasks k) : WaitTotal (task :: tasks) (n + k)

theorem waitTotal_of_forall {tasks : List (Task τ)}
    (h : ∀ task ∈ tasks, task.program.WaitsAtMost n) : WaitTotal tasks (n * tasks.length) := by
  induction tasks with
  | nil => exact .nil
  | cons task tasks ih =>
    rw [List.forall_mem_cons] at h
    rw [List.length_cons, Nat.mul_succ, Nat.add_comm]
    exact .cons h.1 (ih h.2)

theorem WaitTotal.eq_nil {tasks : List (Task τ)} (h : WaitTotal tasks 0)
    (hwait : ∀ task ∈ tasks, AtWait task.program) : tasks = [] := by
  generalize hnone : 0 = total at h
  cases h with
  | nil => rfl
  | @cons task tasks n k hfirst =>
    obtain ⟨action, next, hprogram, hmay⟩ := hwait task List.mem_cons_self
    obtain rfl : n = 0 := by omega
    rw [hprogram] at hfirst
    cases hfirst with
    | pass hready =>
      rw [hready] at hmay
      cases hmay

variable [DecidableEq τ]

/-- A task cannot take its next action. -/
def IsStuck (m : Machine S A τ) (task : Task τ) : Prop :=
  ∃ action next, task.program = .step action next ∧ m.isReady task.thread action = false

theorem mayWait_of_not_isReady {m : Machine S A τ} {t : τ} {action : Action}
    (h : m.isReady t action = false) : action.mayWait = true := by
  cases action with
  | acquire | allocate => rfl
  | _ => cases h

/-- A task runs until it is done or comes to a place to wait, and only the world and the gate
change. -/
theorem runTask_rests (t : τ) (request? : Option KeyRequest) (p : Program Reply) :
    ∀ (allocations : List AllocationCall) (m : Machine S A τ),
      ∃ p' allocations' world gate,
        runTask t request? p allocations m = (p', allocations', { m with world, gate }) ∧
        ((∃ reply, p' = .done reply) ∨ AtWait p') := by
  induction p with
  | done reply =>
    intro allocations m
    exact ⟨.done reply, allocations, m.world, m.gate, rfl, .inl ⟨reply, rfl⟩⟩
  | step action next ih =>
    intro allocations m
    by_cases hready : m.isReady t action = true
    · rw [runTask_of_isReady hready]
      exact ih ..
    · rw [runTask_of_not_isReady hready]
      exact ⟨.step action next, allocations, m.world, m.gate, rfl,
        .inr ⟨action, next, rfl, mayWait_of_not_isReady (Bool.eq_false_iff.2 hready)⟩⟩

theorem runTask_waitsAtMost (t : τ) (request? : Option KeyRequest) {p : Program Reply}
    (h : p.WaitsAtMost n) :
    ∀ (allocations : List AllocationCall) (m : Machine S A τ),
      (runTask t request? p allocations m).1.WaitsAtMost n := by
  induction h with
  | done reply => exact fun _ _ => .done reply
  | @pass n action next hpass later ih =>
    intro allocations m
    by_cases hready : m.isReady t action = true
    · rw [runTask_of_isReady hready]
      exact ih ..
    · rw [runTask_of_not_isReady hready]
      exact .pass hpass later
  | @wait n action next later ih =>
    intro allocations m
    by_cases hready : m.isReady t action = true
    · rw [runTask_of_isReady hready]
      exact (ih ..).mono (Nat.le_succ n)
    · rw [runTask_of_not_isReady hready]
      exact .wait later

/-- A task that moves on from a place to wait has one less before it. -/
theorem runTask_fewer {task : Task τ} {m : Machine S A τ} (h : task.program.WaitsAtMost n)
    (hmoves : ¬m.IsStuck task) :
    ∃ n' ≤ n, (AtWait task.program → n' < n) ∧
      (runTask task.thread task.request? task.program task.allocations m).1.WaitsAtMost n' := by
  by_cases hwait : AtWait task.program
  · obtain ⟨action, next, hprogram, hmay⟩ := hwait
    have hready : m.isReady task.thread action = true :=
      Bool.of_not_eq_false fun hnot => hmoves ⟨action, next, hprogram, hnot⟩
    rw [hprogram] at h ⊢
    rw [runTask_of_isReady hready]
    cases h with
    | pass hpass =>
      rw [hpass] at hmay
      cases hmay
    | wait later =>
      exact ⟨_, Nat.le_succ _, fun _ => Nat.lt_succ_self _, runTask_waitsAtMost _ _ (later _) _ _⟩
  · exact ⟨n, Nat.le_refl n, fun hat => absurd hat hwait, runTask_waitsAtMost _ _ h _ m⟩

/-! ## 4. Rounds -/

theorem round_cons_of_isStuck {m : Machine S A τ} {task : Task τ} (h : m.IsStuck task)
    (pending : List (Task τ)) :
    round (task :: pending) m = round pending { m with tasks := m.tasks ++ [task] } := by
  obtain ⟨index, thread, request?, allocations, program⟩ := task
  obtain ⟨action, next, rfl, hready⟩ := h
  rw [round, runTask_of_not_isReady (Bool.eq_false_iff.1 hready)]

/-- A round in which no task can move changes nothing. -/
theorem round_of_stuck {pending : List (Task τ)} {m : Machine S A τ}
    (h : ∀ task ∈ pending, m.IsStuck task) :
    round pending m = ([], { m with tasks := m.tasks ++ pending }) := by
  induction pending generalizing m with
  | nil => rw [List.append_nil, round]
  | cons task pending ih =>
    rw [List.forall_mem_cons] at h
    rw [round_cons_of_isStuck h.1, ih (m := { m with tasks := m.tasks ++ [task] }) h.2,
      List.append_assoc, List.singleton_append]

theorem rounds_of_stuck {m : Machine S A τ} (h : ∀ task ∈ m.tasks, m.IsStuck task) (n : Nat) :
    (rounds n m).2 = m := by
  induction n with
  | zero => rfl
  | succ n ih =>
    have hround : round m.tasks { m with tasks := [] } = ([], m) := round_of_stuck h
    rw [rounds, hround]
    exact ih

/-- After a round every task that is left is at a place to wait.  If that was so before, then there
are fewer such places now, unless no task could move. -/
theorem round_waits {pending : List (Task τ)} {total : Nat} (h : WaitTotal pending total)
    (m : Machine S A τ) :
    ∃ kept total',
      (round pending m).2.tasks = m.tasks ++ kept ∧ WaitTotal kept total' ∧ total' ≤ total ∧
      (∀ task ∈ kept, AtWait task.program) ∧
      ((∀ task ∈ pending, AtWait task.program) →
        total' < total ∨ ∀ task ∈ pending, m.IsStuck task) := by
  induction h generalizing m with
  | nil =>
    exact ⟨[], 0, (List.append_nil _).symm, .nil, Nat.le_refl _, List.forall_mem_nil _,
      fun _ => .inr (List.forall_mem_nil _)⟩
  | @cons task pending n k first others ih =>
    by_cases hstuck : m.IsStuck task
    · obtain ⟨kept, total', htasks, hkept, hle, hwait, hdrop⟩ :=
        ih { m with tasks := m.tasks ++ [task] }
      obtain ⟨action, next, hprogram, hready⟩ := hstuck
      refine ⟨task :: kept, n + total', ?_, .cons first hkept, Nat.add_le_add_left hle n, ?_, ?_⟩
      · rw [round_cons_of_isStuck ⟨action, next, hprogram, hready⟩, htasks, List.append_assoc,
          List.singleton_append]
      · exact List.forall_mem_cons.2
          ⟨⟨action, next, hprogram, mayWait_of_not_isReady hready⟩, hwait⟩
      · intro hall
        refine (hdrop (List.forall_mem_cons.1 hall).2).imp (Nat.add_lt_add_left · n) ?_
        exact fun hothers => List.forall_mem_cons.2 ⟨⟨action, next, hprogram, hready⟩, hothers⟩
    · obtain ⟨p, allocations, world, gate, hrun, hrests⟩ :=
        runTask_rests task.thread task.request? task.program task.allocations m
      obtain ⟨n', hle, hfewer, hwaits⟩ := runTask_fewer first hstuck
      rw [hrun] at hwaits
      -- what the other tasks do, they do in the machine that the task leaves behind
      obtain ⟨reply, rfl⟩ | ⟨action, next, rfl, hmay⟩ := hrests
      · let ended : Finished := ⟨task.index, reply, allocations⟩
        let m' := keepGuard { m with world, gate } task.thread reply
        have hkeeps : m'.tasks = m.tasks := by cases reply <;> rfl
        obtain ⟨kept, total', htasks, hkept, hle', hwait, -⟩ :=
          ih { m' with finished := ended :: m'.finished }
        refine ⟨kept, total', ?_, hkept, by omega, hwait, fun hall => .inl ?_⟩
        · rw [round, hrun]
          exact htasks.trans (congrArg (· ++ kept) hkeeps)
        · have hn := hfewer (hall task List.mem_cons_self)
          omega
      · let waiting := { task with allocations, program := .step action next }
        obtain ⟨kept, total', htasks, hkept, hle', hwait, -⟩ :=
          ih { m with world, gate, tasks := m.tasks ++ [waiting] }
        refine ⟨waiting :: kept, n' + total', ?_, .cons hwaits hkept, by omega,
          List.forall_mem_cons.2 ⟨⟨action, next, rfl, hmay⟩, hwait⟩, fun hall => .inl ?_⟩
        · rw [round, hrun, ← List.singleton_append, ← List.append_assoc]
          exact htasks
        · have hn := hfewer (hall task List.mem_cons_self)
          omega

/-- A machine whose tasks are at places to wait settles in as many rounds as there are such
places. -/
theorem rounds_settle {total : Nat} {m : Machine S A τ} (h : WaitTotal m.tasks total)
    (hwait : ∀ task ∈ m.tasks, AtWait task.program) (hn : total ≤ n) :
    ∀ task ∈ (rounds n m).2.tasks, (rounds n m).2.IsStuck task := by
  induction n generalizing m total with
  | zero =>
    obtain rfl : total = 0 := by omega
    rw [rounds, h.eq_nil hwait]
    exact List.forall_mem_nil _
  | succ n ih =>
    obtain ⟨kept, total', htasks, hkept, -, hkeptWait, hdrop⟩ :=
      round_waits h { m with tasks := [] }
    rw [List.nil_append] at htasks
    subst htasks
    obtain hless | hstuck := hdrop hwait
    · exact ih hkept hkeptWait (by omega)
    · rw [rounds_of_stuck hstuck]
      exact hstuck

/-- If every task waits at most three times, then those that are left when the machine has settled
cannot move. -/
theorem settle_settled {m : Machine S A τ} (h : ∀ task ∈ m.tasks, task.program.WaitsAtMost 3) :
    ∀ task ∈ m.settle.2.tasks, m.settle.2.IsStuck task := by
  obtain ⟨kept, total, htasks, hkept, hle, hwait, -⟩ :=
    round_waits (waitTotal_of_forall h) { m with tasks := [] }
  rw [List.nil_append] at htasks
  subst htasks
  exact rounds_settle (m := (round m.tasks { m with tasks := [] }).2) hkept hwait hle

variable (service) in
/-- The calls that are under way when a machine has settled cannot move: they wait for locks, or for
the allocation service. -/
theorem feedAll_settled (w : World S A τ) (inputs : List (Input S A τ)) :
    ∀ task ∈ (feedAll { world := w, service } (inputs ++ [.settle])).tasks,
      (feedAll { world := w, service } (inputs ++ [.settle])).IsStuck task := by
  obtain ⟨numbers, moves, h⟩ := feedAll_mirrors service w inputs
  rw [feedAll_concat]
  refine settle_settled fun task htask => ?_
  obtain ⟨call, rest, -, hleaves, hprogram⟩ := h.tasks task htask
  rw [hprogram, ← Nat.add_zero 3]
  refine Program.WaitsAtMost.bind ?_ fun result => .done (Reply.result result)
  obtain ⟨a, -, -, rfl, rfl⟩ | ⟨-, result, -, rfl⟩ := hleaves
  · exact (a.call.waitsAtMost service).of_leads a.leads
  · exact .done result

end Machine

end ObjectMeta
