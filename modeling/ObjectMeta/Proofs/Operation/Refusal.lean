import ObjectMeta.Proofs.Concurrency.BlockIds
import ObjectMeta.Proofs.Concurrency.Exclusion
import ObjectMeta.Proofs.Operation.Transparency

/-!
# A refused allocation is invisible

A call that opens or extends a key asks for a block once.  If this is refused, the call has nothing
left to do but to give its locks back, and it returns the refusal (`Call.endsRefused`).  A call that
is made while the local allocator is in chill mode therefore leaves no trace: it can be put anywhere
into a history, and all other calls answer as before, over the same tables and without a lock
(`World.refusals_invisible`).
-/

namespace ObjectMeta

open Operation Program

variable {α : Type}

/-! ## 1. After a refusal -/

namespace Trace

def Unrefused (trace : Trace) : Prop := ∀ asked e, (asked, Except.error e) ∉ trace.allocations

def Reports (trace : Trace) (result : Except OperationError α) : Prop :=
  ∀ asked e, (asked, Except.error e) ∈ trace.allocations → result = .error (.ofAllocation e)

variable {trace trace' : Trace}

theorem allocations_append (trace trace' : Trace) :
    allocations (trace ++ trace') = allocations trace ++ allocations trace' :=
  List.filterMap_append

theorem Unrefused.of_eq_nil (h : trace.allocations = []) : trace.Unrefused := by
  intro asked e hmem
  rw [h] at hmem
  exact absurd hmem List.not_mem_nil

theorem Unrefused.congr (h : trace.Unrefused) (ha : trace'.allocations = trace.allocations) :
    trace'.Unrefused := by
  intro asked e hmem
  rw [ha] at hmem
  exact h asked e hmem

theorem Unrefused.reports (h : trace.Unrefused) (result : Except OperationError α) :
    trace.Reports result :=
  fun asked e hmem => absurd hmem (h asked e)

end Trace

/-- A block is asked for once, and after a refusal only locks are given back. -/
def Action.Heeds (trace : Trace) : Action → Prop
  | release .. => True
  | allocate _ => trace.allocations = []
  | _ => trace.Unrefused

def Program.Heeds (good : Trace → α → Prop) : Trace → Program α → Prop :=
  Always (fun _ => True) (fun trace action => action.Heeds trace) good

variable {trace : Trace} {good : Trace → α → Prop}

/-- Work that asks for no block may come after a block was given, and before. -/
theorem Program.Works.heeds {p : Program α} (h : p.Works false) (hun : trace.Unrefused)
    (hgood : ∀ trace' a, trace'.allocations = trace.allocations → good trace' a) :
    p.Heeds good trace := by
  induction p generalizing trace with
  | done value => exact hgood trace value rfl
  | step action next ih =>
    have hsame : ∀ answer,
        Trace.allocations (trace ++ [⟨action, answer⟩]) = trace.allocations := by
      intro answer
      rw [Trace.allocations_append]
      cases action with
      | allocate asked => exact absurd h.1 Bool.false_ne_true
      | _ => exact List.append_nil _
    constructor
    · cases action with
      | acquire path mode => exact h.1.elim
      | release path mode => exact h.1.elim
      | allocate asked => exact absurd h.1 Bool.false_ne_true
      | _ => exact hun
    · intro answer _
      refine ih answer (h.2 answer) (hun.congr (hsame answer)) fun trace' a ha => ?_
      exact hgood trace' a (ha.trans (hsame answer))

theorem locked_heeds {path : ResourcePath} {mode : LockMode} {body : Operation α}
    (hun : trace.Unrefused)
    (hbody : body.run.Heeds Trace.Reports (trace ++ [⟨.acquire path mode, ()⟩])) :
    (locked path mode body).run.Heeds Trace.Reports trace := by
  refine locked_always hun hbody fun trace' r hreports => ⟨trivial, ?_⟩
  intro asked e hmem
  rw [Trace.allocations_append] at hmem
  exact hreports asked e ((List.append_nil _).subst hmem)

variable (service : KeyService) (request : KeyRequest)

/-- A location takes one request, and without a location the refusal is reported. -/
theorem allocateLocation_heeds (h : trace.allocations = []) (size : Int64)
    (replicationType : ReplicationType) (replicationFactor : ReplicationFactor) :
    (service.allocateLocation request size replicationType replicationFactor).run.Heeds
      (fun trace' r => trace'.Reports r ∧ ∀ location, r = .ok location → trace'.Unrefused)
      trace := by
  rw [run_eq_followedBy, KeyService.allocateLocation_followedBy]
  refine ⟨h, fun answer _ => ?_⟩
  cases answer with
  | error e =>
    refine ⟨fun asked e' hmem => ?_, fun _ hok => nomatch hok⟩
    rw [Trace.allocations_append, h] at hmem
    cases List.mem_singleton.1 hmem
    rfl
  | ok block =>
    have hun : Trace.Unrefused (trace ++ [⟨.allocate
        { size, replicationType, replicationFactor, owner := service.serviceId }, .ok block⟩]) := by
      intro asked e hmem
      rw [Trace.allocations_append, h] at hmem
      cases List.mem_singleton.1 hmem
    refine ⟨hun, fun token _ => ?_⟩
    have hminted := hun.congr ((Trace.allocations_append _
      [⟨.mint (service.tokenOwner request) block size, token⟩]).trans (List.append_nil _))
    exact ⟨hminted.reports _, fun _ _ => hminted⟩

/-- What comes after a location asks for no block. -/
theorem location_heeds (h : trace.allocations = []) {size : Int64}
    {replicationType : ReplicationType} {replicationFactor : ReplicationFactor}
    {f : BlockLocation → Operation α} (hf : ∀ location, (f location).Works false) :
    (service.allocateLocation request size replicationType replicationFactor >>= f).run.Heeds
      Trace.Reports trace := by
  refine bind_always (allocateLocation_heeds service request h _ _ _) ?_ ?_
  · intro trace' e hreports asked e' hmem
    cases hreports.1 asked e' hmem
    rfl
  · intro trace' location hlocation
    have hun := hlocation.2 location rfl
    exact (hf location).heeds hun fun _ r ha => (hun.congr ha).reports r

theorem Call.heeds_of_operation {service : KeyService} {call : Call} {wrap : α → Outcome}
    {op : Operation α} (hcall : call.operation service = wrap <$> op)
    (h : op.run.Heeds Trace.Reports []) : (call.program service).Heeds Trace.Reports [] := by
  rw [Call.program, hcall, run_eq_followedBy, map_followedBy]
  refine h.bind fun trace r hreports asked e hmem => ?_
  rw [hreports asked e hmem]
  rfl

theorem openKey_heeds : ((Call.openKey request).program service).Heeds Trace.Reports [] := by
  have hnil : Trace.Unrefused [] := Trace.Unrefused.of_eq_nil rfl
  refine Call.heeds_of_operation rfl ?_
  rw [KeyService.openKey_eq]
  refine checked_always (fun _ => hnil.reports _) fun _ => locked_heeds hnil ?_
  -- nothing is asked for while the bucket is looked for and the committed key is read
  refine bind_always ((works_checkBucketExists _ _).heeds (.of_eq_nil rfl) fun _ _ ha => ha) ?_ ?_
  · exact fun _ _ ha => (Trace.Unrefused.of_eq_nil ha).reports _
  · intro trace _ ha
    refine bind_always ((works_getRecord KeyRecord .keys request.path).heeds (.of_eq_nil ha)
      fun _ _ ha' => ha'.trans ha) ?_ ?_
    · exact fun _ _ ha => (Trace.Unrefused.of_eq_nil ha).reports _
    · intro trace committed? ha
      refine location_heeds service request ha fun location => ?_
      exact works_now.bind fun time => (works_putRecord _ _ _).bind fun _ => works_pure _

theorem allocateBlock_heeds (number : UInt64) :
    ((Call.allocateBlock request number).program service).Heeds Trace.Reports [] := by
  have hnil : Trace.Unrefused [] := Trace.Unrefused.of_eq_nil rfl
  refine Call.heeds_of_operation rfl ?_
  rw [KeyService.allocateBlock_eq]
  refine checked_always (fun _ => hnil.reports _) fun _ => locked_heeds hnil ?_
  refine locked_heeds (.of_eq_nil rfl) ?_
  refine bind_always ((works_getRecord KeyRecord .openKeys request.path).heeds (.of_eq_nil rfl)
    fun _ _ ha => ha) ?_ ?_
  · exact fun _ _ ha => (Trace.Unrefused.of_eq_nil ha).reports _
  · intro trace open? ha
    have ha' : trace.allocations = [] := ha
    cases open?.filter fun record => (record.version? number).isSome with
    | none => exact (Trace.Unrefused.of_eq_nil ha').reports _
    | some record =>
      refine location_heeds service request ha' fun location => ?_
      exact works_now.bind fun time => (works_putRecord _ _ _).bind fun _ => works_pure _

/-- A call that opens or extends a key asks for one block at most, and heeds a refusal. -/
theorem Call.heeds {call : Call} (h : call.writesOpenKeys = true) :
    (call.program service).Heeds Trace.Reports [] := by
  cases call with
  | openKey request => exact openKey_heeds service request
  | allocateBlock request number => exact allocateBlock_heeds service request number
  | _ => cases h

/-- Nothing is left to do but to give back locks and to end with a value. -/
def Program.GivesBack (value : α) : Program α → Prop
  | done a => a = value
  | step action next =>
    (∃ path mode, action = .release path mode) ∧ ∀ answer, (next answer).GivesBack value

theorem Program.Heeds.givesBack {p : Program (Except OperationError α)}
    (h : p.Heeds Trace.Reports trace) {asked : AllocationRequest} {e : AllocationError}
    (hmem : (asked, Except.error e) ∈ trace.allocations) :
    p.GivesBack (.error (.ofAllocation e)) := by
  induction p generalizing trace with
  | done result => exact h asked e hmem
  | step action next ih =>
    constructor
    · cases action with
      | release path mode => exact ⟨path, mode, rfl⟩
      | allocate asked' =>
        have hnone : trace.allocations = [] := h.1
        rw [hnone] at hmem
        exact absurd hmem List.not_mem_nil
      | _ => exact absurd hmem (h.1 asked e)
    · intro answer
      refine ih answer (h.2 answer trivial) ?_
      rw [Trace.allocations_append]
      exact List.mem_append_left _ hmem

/-- An answer of the allocation service is the only one that a call has from it. -/
theorem Program.Heeds.allocations_eq {p q : Program (Except OperationError α)}
    (h : p.Heeds Trace.Reports []) (hl : p.Leads trace q) {asked : AllocationRequest}
    {answer : Except AllocationError BlockId} (hmem : (asked, answer) ∈ trace.allocations) :
    trace.allocations = [(asked, answer)] := by
  obtain ⟨access, haccess, hallocation⟩ := List.mem_filterMap.1 hmem
  obtain ⟨before, after, rfl⟩ := List.append_of_mem haccess
  obtain ⟨action, answered⟩ := access
  cases action with
  | allocate asked' =>
    cases hallocation
    have hbefore : Trace.allocations before = [] := h.fair_at hl fun _ _ => trivial
    -- nothing is asked for after the first request
    have hafter : Trace.allocations after = [] := by
      rw [Trace.allocations, List.filterMap_eq_nil_iff]
      intro later hlater
      obtain ⟨mid, rest, rfl⟩ := List.append_of_mem hlater
      obtain ⟨action, answer⟩ := later
      cases action with
      | allocate asked'' =>
        rw [← List.cons_append, ← List.append_assoc] at hl
        have hnone : Trace.allocations (before ++ _ :: mid) = [] :=
          h.fair_at hl fun _ _ => trivial
        rw [Trace.allocations_append, List.append_eq_nil_iff] at hnone
        cases hnone.2
      | _ => rfl
    have hsplit := Trace.allocations_append before (⟨.allocate asked, answer⟩ :: after)
    rw [hsplit, hbefore, List.nil_append]
    show (asked, answer) :: Trace.allocations after = _
    rw [hafter]
  | _ => cases hallocation

/-- The error says what was refused, and whether it is worth trying again. -/
def OperationError.Carries (error : OperationError) : AllocationError → Prop
  | .clusterNotReady reason =>
    error = .clusterNotReady reason ∧ error.message = reason ∧ error.isRetryable = true
  | e =>
    error = .blockAllocation e.message ∧ error.message = "block allocation failed: " ++ e.message ∧
      error.isRetryable = false

theorem OperationError.carries_ofAllocation (e : AllocationError) :
    (OperationError.ofAllocation e).Carries e := by
  cases e with
  | clusterNotReady reason => exact ⟨rfl, rfl, rfl⟩
  | unavailable reason => exact ⟨rfl, rfl, rfl⟩
  | rejected reason => exact ⟨rfl, rfl, rfl⟩

/-- However a call came to be refused a block, it has asked once, will not ask again, and returns
the refusal once its locks are given back. -/
def Call.EndsRefused (service : KeyService) (call : Call) : Prop :=
  ∀ trace rest, (call.program service).Leads trace rest →
    ∀ asked e, (asked, Except.error e) ∈ trace.allocations →
      trace.allocations = [(asked, .error e)] ∧
        ∃ error : OperationError, error.Carries e ∧ rest.GivesBack (.error error)

theorem Call.endsRefused {call : Call} (h : call.writesOpenKeys = true) :
    call.EndsRefused service := by
  intro trace rest hleads asked e hmem
  have hheeds := Call.heeds service h
  refine ⟨hheeds.allocations_eq hleads hmem, _, OperationError.carries_ofAllocation e, ?_⟩
  have hrest : rest.Heeds Trace.Reports trace := Always.of_leads hheeds hleads fun _ _ => trivial
  exact hrest.givesBack hmem

/-! ## 2. Worlds that are the same -/

section Same

variable {S : SignatureScheme} {A : AllocationService} {τ : Type}

/-- Equal tables, locks, allocation services and authorities. -/
structure World.Same (w w' : World S A τ) : Prop where
  tables : w.store.store = w'.store.store
  locks : w.locks = w'.locks
  allocator : w.allocator = w'.allocator
  authority : w.authority = w'.authority

theorem World.Same.refl (w : World S A τ) : w.Same w := ⟨rfl, rfl, rfl, rfl⟩

theorem World.Same.trans {w w' w'' : World S A τ} (h : w.Same w') (h' : w'.Same w'') :
    w.Same w'' :=
  ⟨h.tables.trans h'.tables, h.locks.trans h'.locks, h.allocator.trans h'.allocator,
    h.authority.trans h'.authority⟩

theorem World.Same.at_eq {w w' : World S A τ} (h : w.Same w') (visit : Visit τ) :
    w.at visit = w'.at visit := by
  -- a visit brings along the clocks and the faults, and all else is the same
  unfold World.at
  dsimp only
  rw [h.tables, h.locks, h.allocator, h.authority]

def World.setChill (w : World S localAllocation τ) (on : Bool) : World S localAllocation τ :=
  let allocator : LocalAllocator := { w.counter with chillMode := on }
  { w with allocator }

theorem World.Same.setChill {w w' : World S localAllocation τ} (h : w.Same w') (on : Bool) :
    (w.setChill on).Same (w'.setChill on) := by
  have hcounter : w.counter = w'.counter := h.allocator
  refine ⟨h.tables, h.locks, ?_, h.authority⟩
  show ({ w.counter with chillMode := on } : LocalAllocator) = { w'.counter with chillMode := on }
  rw [hcounter]

end Same

/-! ## 3. A call in chill mode -/

section Worlds

variable {service} {S : SignatureScheme} {A : AllocationService} {τ : Type} [DecidableEq τ]

def heldBy (t : τ) (held : List LockGuard) : τ → List LockGuard :=
  Function.update (fun _ => []) t held

theorem heldBy_nil (t : τ) : heldBy t [] = fun _ => [] := Function.update_eq_self t _

/-- A call that runs by itself has given back all its locks at the end. -/
theorem Program.KeepsTo.locks_runAlone {call : Call} {trace : Trace} {p : Program α} {t : τ}
    {w : World S A τ} (h : p.KeepsTo call [] trace)
    (htracks : w.locks.Tracks (heldBy t trace.held)) (htidy : w.locks.Tidy) :
    (p.runAlone t w).2.locks = {} := by
  induction p generalizing trace w with
  | done value =>
    have hheld : trace.held = [] := h
    rw [hheld, heldBy_nil] at htracks
    let s : LockUse τ := { table := w.locks }
    have hexact : s.Exact := LockUse.exact_of_tracks htracks htidy
    exact hexact.empty fun _ => rfl
  | step action next ih =>
    have hready : w.isReady t action = true := by
      cases action with
      | acquire path mode =>
        refine (htracks.canGrant_iff path mode t).2 fun t' ht m _ => ?_
        rw [heldBy, Function.update_of_ne ht]
        exact List.not_mem_nil
      | _ => rfl
    have hrelease : ∀ path mode, action = .release path mode →
        ⟨path, mode⟩ ∈ heldBy t trace.held t := by
      rintro path mode rfl
      obtain ⟨-, rest, hheld⟩ := h.1
      rw [heldBy, Function.update_self, hheld]
      exact List.mem_cons_self ..
    have hafter := World.perform_tracks htracks hready hrelease
    have hheld : Access.heldAfter trace.held ⟨action, (w.perform t action).1⟩ =
        Trace.held (trace ++ [⟨action, (w.perform t action).1⟩]) :=
      (Trace.held_append trace [⟨action, (w.perform t action).1⟩]).symm
    rw [heldBy, Function.update_idem, Function.update_self, hheld] at hafter
    exact ih _ (h.2 _ trivial) hafter (World.perform_tidy htidy t action)

theorem Call.locks_runAlone (service : KeyService) (call : Call) {w : World S A τ}
    (hlocks : w.locks = {}) (t : τ) :
    ((call.program service).runAlone t w).2.locks = {} := by
  refine (Call.keepsTo service call).locks_runAlone ?_ ?_
  · rw [hlocks, Trace.held_nil, heldBy_nil]
    exact LockTable.Tracks.empty
  · rw [hlocks]
    exact LockTable.Tidy.empty

theorem World.perform_authority (w : World S A τ) (t : τ) (action : Action) :
    (w.perform t action).2.authority = w.authority := by
  cases action <;> rfl

theorem World.authority_runAlone (w : World S A τ) (t : τ) (p : Program α) :
    (p.runAlone t w).2.authority = w.authority := by
  induction p generalizing w with
  | done value => rfl
  | step action next ih => exact (ih _ _).trans (w.perform_authority t action)

/-- In chill mode no block is given and none is used up. -/
theorem World.Plays.chilled {w w' : World S localAllocation τ} {t : τ} {trace : Trace}
    (h : w.Plays t trace w') (hchill : w.counter.chillMode = true) :
    trace.blocks = [] ∧ w'.counter = w.counter := by
  induction trace generalizing w with
  | nil => exact ⟨rfl, congrArg World.counter (show w' = w from h.symm)⟩
  | cons access rest ih =>
    obtain ⟨action, answer⟩ := access
    obtain ⟨hanswer, hplays⟩ := h
    have hstep : Access.block? ⟨action, answer⟩ = none ∧
        (w.perform t action).2.counter = w.counter := by
      cases action with
      | allocate request =>
        obtain ⟨e, hperform⟩ := World.perform_of_refuses (.inl hchill) t
        dsimp only at hanswer
        rw [hperform] at hanswer ⊢
        rw [hanswer]
        exact ⟨rfl, rfl⟩
      | _ => exact ⟨rfl, rfl⟩
    obtain ⟨hblocks, hcounter⟩ := ih hplays (hstep.2 ▸ hchill)
    refine ⟨?_, hcounter.trans hstep.2⟩
    rw [Trace.blocks, List.filterMap_cons, hstep.1]
    exact hblocks

theorem Trace.Through.store_eq {trace : Trace} {store store' : Store}
    (h : trace.Through store store')
    (hspares : ∀ access ∈ trace, ∀ store, access.applied store = store) : store' = store :=
  h.keeps (fun mid => mid = store) rfl
    fun access haccess mid hsame => (hspares access haccess mid).trans hsame

/-- A call that was given no block has written nothing. -/
theorem Call.applied_eq {call : Call} (hwrites : call.writesOpenKeys = true) {trace : Trace}
    {rest : Program (Except OperationError Outcome)}
    (hl : (call.program service).Leads trace rest) (hblocks : trace.blocks = []) :
    ∀ access ∈ trace, ∀ store, access.applied store = store := by
  intro access haccess store
  obtain ⟨before, after, rfl⟩ := List.append_of_mem haccess
  have hplaces := (Call.places service hwrites).fair_at hl fun _ _ => trivial
  rw [Trace.blocks_append, List.append_eq_nil_iff] at hblocks
  obtain ⟨action, answer⟩ := access
  cases action with
  | put table key value =>
    -- what is written has a block that was given before
    obtain ⟨-, -, record, block, -, hgiven, -⟩ := hplaces
    rw [List.nil_append, hblocks.1] at hgiven
    cases hgiven
  | delete table key => exact hplaces.elim
  | _ => rfl

/-! ## 4. Histories with calls put in -/

variable (service)

/-- A call that opens or extends a key in chill mode changes nothing that lasts. -/
theorem World.visit_same {w : World S localAllocation τ} (hlocks : w.locks = {})
    (hchill : w.counter.chillMode = true) {visit : Visit τ}
    (hwrites : visit.call.writesOpenKeys = true) : (w.visit service visit).2.Same w := by
  obtain ⟨trace, hleads, hplays⟩ :=
    plays_runAlone (visit.call.program service) visit.thread (w.at visit)
  obtain ⟨hblocks, hcounter⟩ := hplays.chilled hchill
  have hlocks' : (w.at visit).locks = {} := hlocks
  constructor
  · exact hplays.through.store_eq (Call.applied_eq hwrites hleads hblocks)
  · exact (Call.locks_runAlone service visit.call hlocks' visit.thread).trans hlocks.symm
  · exact hcounter
  · exact authority_runAlone ..

def World.afterVisits (w : World S localAllocation τ) (visits : List (Visit τ)) :
    World S localAllocation τ :=
  visits.foldl (fun w visit => (w.visit service visit).2) w

/-- What happens in a history: a call is made, chill mode is switched, or calls are made while chill
mode is on for them and switched back after them. -/
inductive Deed (τ : Type) where
  | call (visit : Visit τ)
  | chill (on : Bool)
  | episode (visits : List (Visit τ))

def World.after (w : World S localAllocation τ) : Deed τ → World S localAllocation τ
  | .call visit => (w.visit service visit).2
  | .chill on => w.setChill on
  -- chill mode is on for the calls, and then what it was before them
  | .episode visits => ((w.setChill true).afterVisits service visits).setChill w.counter.chillMode

/-- What can be seen of the calls of a history, apart from those of its episodes. -/
def World.seen : World S localAllocation τ → List (Deed τ) → List Visited
  | _, [] => []
  | w, deed :: rest =>
    let visited := match deed with
      | .call visit => [(w.visit service visit).1]
      | _ => []
    visited ++ World.seen (w.after service deed) rest

def World.afterAll (w : World S localAllocation τ) (deeds : List (Deed τ)) :
    World S localAllocation τ :=
  deeds.foldl (World.after service) w

def Deed.isEpisode : Deed τ → Bool
  | .episode _ => true
  | _ => false

/-- If it is an episode, it has only calls that open or extend keys. -/
def Deed.onlyWrites : Deed τ → Bool
  | .episode visits => visits.all (·.call.writesOpenKeys)
  | _ => true

theorem World.Same.visit_eq {w w' : World S A τ} (h : w.Same w') (visit : Visit τ) :
    w.visit service visit = w'.visit service visit := by
  unfold World.visit
  rw [h.at_eq visit]

theorem World.Same.after {w w' : World S localAllocation τ} (h : w.Same w') {deed : Deed τ}
    (hdeed : deed.isEpisode = false) : (w.after service deed).Same (w'.after service deed) := by
  cases deed with
  | call visit =>
    rw [World.after, World.after, h.visit_eq service visit]
    exact .refl _
  | chill on => exact h.setChill on
  | episode visits => cases hdeed

theorem World.afterVisits_same {w : World S localAllocation τ} (hlocks : w.locks = {})
    (hchill : w.counter.chillMode = true) {visits : List (Visit τ)}
    (hwrites : ∀ visit ∈ visits, visit.call.writesOpenKeys = true) :
    (w.afterVisits service visits).Same w := by
  induction visits generalizing w with
  | nil => exact .refl w
  | cons visit rest ih =>
    rw [List.forall_mem_cons] at hwrites
    have hvisit := World.visit_same service hlocks hchill hwrites.1
    have hcounter : (w.visit service visit).2.counter = w.counter := hvisit.allocator
    have hrest := ih (hvisit.locks.trans hlocks) (hcounter ▸ hchill) hwrites.2
    exact hrest.trans hvisit

/-- An episode changes nothing that lasts. -/
theorem World.episode_same {w : World S localAllocation τ} (hlocks : w.locks = {})
    {visits : List (Visit τ)} (hwrites : ∀ visit ∈ visits, visit.call.writesOpenKeys = true) :
    (w.after service (.episode visits)).Same w := by
  have hlocks' : (w.setChill true).locks = {} := hlocks
  have hsame := World.afterVisits_same service hlocks' rfl hwrites
  have hback := hsame.setChill w.counter.chillMode
  exact ⟨hback.tables, hback.locks, hback.allocator, hback.authority⟩

theorem World.locks_after {w : World S localAllocation τ} (hlocks : w.locks = {}) {deed : Deed τ}
    (hdeed : deed.onlyWrites = true) : (w.after service deed).locks = {} := by
  cases deed with
  | call visit =>
    have hlocks' : (w.at visit).locks = {} := hlocks
    exact Call.locks_runAlone service visit.call hlocks' visit.thread
  | chill on => exact hlocks
  | episode visits =>
    exact (World.episode_same service hlocks (List.all_eq_true.1 hdeed)).locks.trans hlocks

/-- Two histories from worlds that are the same, of which one leaves out the episodes. -/
theorem World.Same.seen_eq {w w' : World S localAllocation τ} (h : w.Same w')
    (hlocks : w.locks = {}) {deeds : List (Deed τ)}
    (hdeeds : ∀ deed ∈ deeds, deed.onlyWrites = true) :
    w.seen service deeds = w'.seen service (deeds.filter (!·.isEpisode)) ∧
      (w.afterAll service deeds).Same (w'.afterAll service (deeds.filter (!·.isEpisode))) := by
  induction deeds generalizing w w' with
  | nil => exact ⟨rfl, h⟩
  | cons deed rest ih =>
    rw [List.forall_mem_cons] at hdeeds
    have hlocks' := World.locks_after service hlocks hdeeds.1
    cases deed with
    | episode visits =>
      -- the second history goes on without the episode
      have hepisode := World.episode_same service hlocks (List.all_eq_true.1 hdeeds.1)
      exact ih (hepisode.trans h) hlocks' hdeeds.2
    | call visit =>
      obtain ⟨hseen, hafter⟩ := ih (h.after service rfl) hlocks' hdeeds.2
      refine ⟨?_, hafter⟩
      rw [List.filter_cons_of_pos rfl, World.seen, World.seen, hseen, h.visit_eq service visit]
    | chill on =>
      exact ih (h.setChill on) hlocks' hdeeds.2

/-- A call that opens or extends a key asks for a block once; if it is refused, it returns the
refusal, word for word and worth trying again if the cluster was not ready.  And calls that are put
into a history with a local allocator while chill mode is on, at any points and any number of them,
change nothing that the other calls do or return, no table and no lock. -/
theorem World.refusals_invisible (service : KeyService) :
    (∀ call : Call, call.writesOpenKeys = true → call.EndsRefused service) ∧
      ∀ (w : World S localAllocation τ) (deeds : List (Deed τ)), w.locks = {} →
        (∀ deed ∈ deeds, deed.onlyWrites = true) →
          w.seen service deeds = w.seen service (deeds.filter (!·.isEpisode)) ∧
            (w.afterAll service deeds).Same
              (w.afterAll service (deeds.filter (!·.isEpisode))) :=
  ⟨fun _ => Call.endsRefused service,
    fun w _ hlocks hdeeds => (Same.refl w).seen_eq service hlocks hdeeds⟩

/-- Calls are put in that are refused before a key is opened, again when it is open, and before it
is looked up; the blocks of the other calls are still 1 and 2.  The first refusal is what the call
returns that was put in first. -/
theorem World.refusals_invisible_twoBlocks :
    let request : KeyRequest := { volume := "vol", bucket := "buc", key := "k" }
    let w : World checksumScheme localAllocation Unit := {
      store := { store := .memory {} }, allocator := (⟨7, 1, false⟩ : LocalAllocator), clock := 5 }
    let visit := fun call => ({ thread := (), call, clock := 5 } : Visit Unit)
    let refused := Deed.episode [visit (.openKey request), visit (.allocateBlock request 1)]
    let deeds := [.call (visit (.createVolume "vol" "owner")),
      .call (visit (.createBucket "vol" "buc")), refused, .call (visit (.openKey request)), refused,
      .call (visit (.allocateBlock request 1)), refused, .call (visit (.lookupKey request))]
    let created := (w.afterAll {} (deeds.take 2)).setChill true
    let first := (Call.openKey request).program {}
    (w.seen {} deeds).map (fun visited => visited.accesses.blocks) =
        [[], [], [⟨7, 1⟩], [⟨7, 2⟩], []] ∧
      (w.afterAll {} deeds).counter = ⟨7, 3, false⟩ ∧
      w.seen {} deeds = w.seen {} (deeds.filter (!·.isEpisode)) ∧
      (w.afterAll {} deeds).Same (w.afterAll {} (deeds.filter (!·.isEpisode))) ∧
      (first.runAlone () created).1 = .error (.clusterNotReady chillModeReason) ∧
      ∃ asked, (first.accesses () created).allocations =
        [(asked, .error (.clusterNotReady chillModeReason))] := by
  intro request w visit refused deeds created first
  have hinvisible := @refusals_invisible checksumScheme Unit _ {}
  have hsame := hinvisible.2 w deeds rfl (by decide)
  have hleads : first.Leads (first.accesses () created) (.done (first.runAlone () created).1) :=
    first.leads_accesses () created
  let asked : AllocationRequest := {
    size := 268435456, replicationType := .standAlone, replicationFactor := .one, owner := "om1" }
  have hmem : (asked, Except.error (.clusterNotReady chillModeReason)) ∈
      (first.accesses () created).allocations := by decide +kernel
  have hends := hinvisible.1 (.openKey request) rfl _ _ hleads asked _ hmem
  exact ⟨by decide +kernel, by decide +kernel, hsame.1, hsame.2, by decide +kernel, asked, hends.1⟩

end Worlds

end ObjectMeta
