import Mathlib.Data.List.Nodup
import Mathlib.Data.List.Pairwise
import ObjectMeta.Proofs.Concurrency.History
import ObjectMeta.Proofs.Operation.Placement
import ObjectMeta.Proofs.Record.Size
import ObjectMeta.Proofs.Token.Minting

/-!
# Block ids are not shared

Threads open and extend keys with blocks of a local allocator, whose chill mode may be switched at
any time.  The blocks that are given are numbered without a gap (`Numbered`), so they differ until
the numbers come round.  A block goes under the one key that the call which it was given to has
written, and stays there (`Tidy`); so no block is under two keys or twice under one
(`System.turns_blockIds`).
-/

namespace ObjectMeta

/-! ## 1. Numbers in sequence -/

namespace LocalAllocator

variable {a : LocalAllocator} {request : AllocationRequest}

def Refuses (a : LocalAllocator) (request : AllocationRequest) : Prop :=
  a.chillMode = true ∨ request.size ≤ 0

/-- The first blocks that an allocator gives, with numbers that wrap around. -/
def numbered (a : LocalAllocator) (count : Nat) : List BlockId :=
  (List.range count).map fun n : Nat => ⟨a.container, Int64.ofInt (a.nextLocalId.toInt + n)⟩

theorem allocate_of_refuses (h : a.Refuses request) : ∃ e, a.allocate request = (.error e, a) := by
  unfold allocate
  rcases h with hchill | hsize
  · rw [if_pos hchill]
    exact ⟨_, rfl⟩
  · by_cases hchill : a.chillMode = true
    · rw [if_pos hchill]
      exact ⟨_, rfl⟩
    · rw [if_neg hchill, if_pos hsize]
      exact ⟨_, rfl⟩

theorem allocate_of_not_refuses (h : ¬a.Refuses request) : a.allocate request =
    (.ok ⟨a.container, a.nextLocalId⟩, { a with nextLocalId := a.nextLocalId + 1 }) := by
  have ⟨hchill, hsize⟩ := not_or.1 h
  unfold allocate
  rw [if_neg hchill, if_neg hsize]

theorem numbered_succ (a : LocalAllocator) (count : Nat) : a.numbered (count + 1) =
    a.numbered count ++ [⟨a.container, Int64.ofInt (a.nextLocalId.toInt + count)⟩] := by
  rw [numbered, List.range_succ, List.map_append]
  rfl

/-- Numbers repeat only after all of them were used. -/
theorem nodup_numbered {count : Nat} (h : count ≤ 2 ^ 64) : (a.numbered count).Nodup := by
  refine List.Nodup.map_on (fun i hi j hj hsame => ?_) List.nodup_range
  have hi' := List.mem_range.1 hi
  have hj' := List.mem_range.1 hj
  have hnumber := congrArg Int64.toInt (BlockId.mk.inj hsame).2
  rw [Int64.toInt_ofInt, Int64.toInt_ofInt] at hnumber
  -- equal after wrapping around means equal modulo the number of numbers
  have hmod := congrArg (· % (Int64.size : Int)) hnumber
  simp only [Int.bmod_emod] at hmod
  have hsize : (Int64.size : Int) = 2 ^ 64 := rfl
  rw [hsize] at hmod
  omega

end LocalAllocator

/-! ## 2. Blocks in a history -/

section Histories

variable {τ : Type} {history : History τ} {e : Event τ} {i j : Nat} {block : BlockId}

def Event.block? (e : Event τ) : Option BlockId := e.access?.bind Access.block?

/-- The blocks that a call which opens or extends keys returns at an event. -/
def Event.returned (e : Event τ) : List BlockId :=
  match e.call.writesOpenKeys, e.result? with
  | true, some (.ok outcome) => outcome.blocks
  | _, _ => []

theorem Event.returned_eq_nil (h : e.result? = none) : e.returned = [] := by
  unfold returned
  rw [h]
  cases e.call.writesOpenKeys <;> rfl

def Event.isShort (e : Event τ) : Bool := e.access?.all Access.isShort

theorem Event.length_lt {table : Table} {key value : Bytes} {answer : Except StoreError Unit}
    (h : e.isShort = true) (haccess : e.access? = some ⟨.put table key value, answer⟩) :
    value.length < 2 ^ 64 := by
  unfold isShort at h
  rw [haccess, Option.all_some] at h
  exact of_decide_eq_true h

namespace History

def allocated (history : History τ) : List BlockId := history.filterMap Event.block?

def returned (history : History τ) : List BlockId := history.flatMap Event.returned

theorem allocated_concat (history : History τ) (e : Event τ) :
    allocated (history ++ [e]) = allocated history ++ e.block?.toList := by
  rw [allocated, List.filterMap_append, ← allocated, List.filterMap_cons, List.filterMap_nil]
  cases e.block? <;> rfl

theorem allocated_concat_of_silent (h : e.access? = none) :
    allocated (history ++ [e]) = allocated history := by
  rw [allocated_concat, Event.block?, h]
  exact List.append_nil _

theorem returned_concat (history : History τ) (e : Event τ) :
    returned (history ++ [e]) = returned history ++ e.returned := by
  rw [returned, List.flatMap_append, List.flatMap_singleton, returned]

theorem mem_blocks_trace : block ∈ (trace history i).blocks ↔
    ∃ e ∈ history, e.index = i ∧ e.block? = some block := by
  unfold Trace.blocks
  rw [List.mem_filterMap]
  constructor
  · rintro ⟨access, haccess, hblock⟩
    have ⟨e, he, hindex, hacted⟩ := mem_trace.1 haccess
    exact ⟨e, he, hindex, by rw [Event.block?, hacted]; exact hblock⟩
  · rintro ⟨e, he, hindex, hblock⟩
    have ⟨access, hacted, hgiven⟩ := Option.bind_eq_some_iff.1 hblock
    exact ⟨access, mem_trace.2 ⟨e, he, hindex, hacted⟩, hgiven⟩

/-- Two calls are not given one block, if no block is given twice. -/
theorem index_eq_of_given (h : (allocated history).Nodup)
    (hi : block ∈ (trace history i).blocks) (hj : block ∈ (trace history j).blocks) : i = j := by
  have ⟨e, he, hindex, hblock⟩ := mem_blocks_trace.1 hi
  have ⟨e', he', hindex', hblock'⟩ := mem_blocks_trace.1 hj
  by_cases hsame : e = e'
  · rw [← hindex, ← hindex', hsame]
  · -- two events that were given a block were given different ones
    have hapart := List.pairwise_filterMap.1 h
    have : Std.Symm fun e e' : Event τ => ∀ b, e.block? = some b →
        ∀ b', e'.block? = some b' → b ≠ b' :=
      ⟨fun _ _ hne b hb b' hb' => (hne b' hb' b hb).symm⟩
    exact absurd rfl (hapart.forall he he' hsame block hblock block hblock')

theorem mem_blocks_trace_mono (h : block ∈ (trace history i).blocks) (e : Event τ) :
    block ∈ (trace (history ++ [e]) i).blocks := by
  rw [trace_concat, Trace.blocks_append]
  exact List.mem_append_left _ h

theorem mem_puts_trace_mono {entry : Table × Bytes × Bytes} (h : entry ∈ (trace history i).puts)
    (e : Event τ) : entry ∈ (trace (history ++ [e]) i).puts := by
  rw [trace_concat, Trace.puts_append]
  exact List.mem_append_left _ h

/-- A call was given the block and has written an entry under the key. -/
def Placed (history : History τ) (key : Bytes) (block : BlockId) : Prop :=
  ∃ i value, block ∈ (trace history i).blocks ∧
    (.openKeys, key, value) ∈ (trace history i).puts

/-- What is under the key is no record, or one that has each of its blocks once, and has only blocks
that were placed under the key that it names, which is this one. -/
def Accounts (history : History τ) (key bytes : Bytes) : Prop :=
  ∀ record, Stored.decode KeyRecord bytes = .ok record → record.blocks.Nodup ∧
    ∀ block ∈ record.blocks, record.path.tableKey = key ∧ Placed history key block

theorem Placed.concat {key : Bytes} (h : Placed history key block) (e : Event τ) :
    Placed (history ++ [e]) key block :=
  have ⟨i, value, hgiven, hput⟩ := h
  ⟨i, value, mem_blocks_trace_mono hgiven e, mem_puts_trace_mono hput e⟩

theorem Accounts.concat {key bytes : Bytes} (h : Accounts history key bytes) (e : Event τ) :
    Accounts (history ++ [e]) key bytes := by
  intro record hdecode
  have ⟨hnodup, hplaced⟩ := h record hdecode
  exact ⟨hnodup, fun block hblock =>
    ⟨(hplaced block hblock).1, (hplaced block hblock).2.concat e⟩⟩

/-- A record that a call writes with the block that it was given is accounted for. -/
theorem accounts_put {record : KeyRecord} (hallocated : (allocated history).Nodup)
    (hplaces : (trace history i).Places block record)
    (hgiven : (trace history i).blocks = [block]) (hputs : (trace history i).puts = [])
    (hfound : ∀ key bytes, (trace history i).Found key bytes → Accounts history key bytes)
    (hshort : (Stored.encode record).length < 2 ^ 64) (hindex : e.index = i)
    (hput : e.access? =
      some ⟨.put .openKeys record.path.tableKey (Stored.encode record), .ok ()⟩) :
    Accounts (history ++ [e]) record.path.tableKey (Stored.encode record) := by
  intro record' hdecode
  rw [Stored.decode_encode_of_short hshort] at hdecode
  cases hdecode
  have hmem : block ∈ (trace history i).blocks := hgiven ▸ List.mem_singleton_self block
  have hnew : Placed (history ++ [e]) record.path.tableKey block := by
    refine ⟨i, Stored.encode record, mem_blocks_trace_mono hmem e, ?_⟩
    rw [trace_concat, if_pos hindex, hput, Trace.puts_append]
    exact List.mem_append_right _ (List.mem_singleton_self _)
  cases hplaces with
  | first hblocks =>
    rw [hblocks]
    refine ⟨List.nodup_singleton block, fun block' hblock' => ⟨rfl, ?_⟩⟩
    rw [List.mem_singleton.1 hblock']
    exact hnew
  | @next key bytes found _ hread hdecoded hpath hblocks =>
    have ⟨hnodup, hplaced⟩ := hfound key bytes hread found hdecoded
    constructor
    · refine hblocks.nodup_iff.2 (List.nodup_cons.2 ⟨fun hold => ?_, hnodup⟩)
      -- an old block was given to a call that has written, and this one has not
      have ⟨j, value, hgiven', hput'⟩ := (hplaced block hold).2
      rw [index_eq_of_given hallocated hgiven' hmem, hputs] at hput'
      exact absurd hput' List.not_mem_nil
    · intro block' hblock'
      rcases List.mem_cons.1 (hblocks.mem_iff.1 hblock') with rfl | hold
      · exact ⟨rfl, hnew⟩
      · have ⟨hkey, hold'⟩ := hplaced block' hold
        rw [← hkey, ← hpath] at hold'
        exact ⟨rfl, hold'.concat e⟩

end History

end Histories

def Store.HoldsOpen (store : Store) (key : Bytes) (record : KeyRecord) : Prop :=
  ∃ bytes, store.get .openKeys key = some bytes ∧ Stored.decode KeyRecord bytes = .ok record

/-- No block occurs twice in the table of open keys, be it in one record or under two keys. -/
def Store.SharesNoBlock (store : Store) : Prop :=
  ∀ key record, store.HoldsOpen key record → record.blocks.Nodup ∧
    ∀ key' record', store.HoldsOpen key' record' →
      ∀ block ∈ record.blocks, block ∈ record'.blocks → key = key'

/-! ## 3. Turns around a local allocator -/

section Turns

variable {service : KeyService} {S : SignatureScheme} {τ : Type}

def World.counter (w : World S localAllocation τ) : LocalAllocator := w.allocator

/-- What happens next around a local allocator: a thread begins a guarded call or takes the next
action of the one it is at, chill mode is switched, or whatever else surrounds the threads
changes. -/
inductive Turn (S : SignatureScheme) (τ : Type) where
  | begin (thread : τ) (call : Call) (guarded : call.isGuarded = true)
  | act (thread : τ)
  | chill (on : Bool)
  | disturb (around : Surroundings S localAllocation)

/-- The move that a turn is in a world; the numbering of blocks is left to the allocator. -/
def Turn.move (w : World S localAllocation τ) : Turn S τ → Move S localAllocation τ
  | .begin thread call _ => .begin thread call
  | .act thread => .act thread
  | .chill on =>
    let allocator : LocalAllocator := { w.counter with chillMode := on }
    .disturb { w.surroundings with allocator }
  | .disturb around => .disturb { around with allocator := w.allocator }

/-- The move begins no call that is not guarded, and leaves the numbering of blocks alone. -/
def Move.KeepsNumbers (w : World S localAllocation τ) : Move S localAllocation τ → Prop
  | .begin _ call => call.isGuarded = true
  | .act _ => True
  | .disturb around =>
    (w.within around).counter.container = w.counter.container ∧
      (w.within around).counter.nextLocalId = w.counter.nextLocalId

variable [DecidableEq τ]

/-- A refusal leaves everything as it is. -/
theorem World.perform_of_refuses {w : World S localAllocation τ} {request : AllocationRequest}
    (h : w.counter.Refuses request) (t : τ) :
    ∃ e, w.perform t (.allocate request) = (Except.error e, w) := by
  have ⟨e, hallocate⟩ := LocalAllocator.allocate_of_refuses h
  have hanswer : localAllocation.allocate request w.allocator = (.error e, w.allocator) := hallocate
  refine ⟨e, ?_⟩
  simp only [perform, hanswer]

/-- What is not refused is the next block. -/
theorem World.perform_of_not_refuses {w : World S localAllocation τ} {request : AllocationRequest}
    (h : ¬w.counter.Refuses request) (t : τ) :
    (w.perform t (.allocate request)).1 = .ok ⟨w.counter.container, w.counter.nextLocalId⟩ ∧
      (w.perform t (.allocate request)).2.counter =
        { w.counter with nextLocalId := w.counter.nextLocalId + 1 } := by
  have hallocate := LocalAllocator.allocate_of_not_refuses h
  exact ⟨congrArg Prod.fst hallocate, congrArg Prod.snd hallocate⟩

namespace System

def turn (s : System service S localAllocation τ) (turn : Turn S τ) :
    System service S localAllocation τ :=
  s.step (turn.move s.world)

def turns (s : System service S localAllocation τ) (turns : List (Turn S τ)) :
    System service S localAllocation τ :=
  turns.foldl turn s

/-- What transitions that keep the numbers keep holds after all turns. -/
theorem turns_induction {P : System service S localAllocation τ → Prop}
    (h : ∀ m s s', Transition m s s' → m.KeepsNumbers s.world → P s → P s')
    {s : System service S localAllocation τ} (hs : P s) (turns : List (Turn S τ)) :
    P (s.turns turns) := by
  induction turns generalizing s with
  | nil => exact hs
  | cons turn rest ih =>
    refine ih ?_
    cases turn with
    | begin thread call guarded =>
      exact step_induction (fun s s' ht => h (.begin thread call) s s' ht guarded) hs
    | act thread => exact step_induction (fun s s' ht => h (.act thread) s s' ht trivial) hs
    | chill on => exact h _ s _ .disturb ⟨rfl, rfl⟩ hs
    | disturb around => exact h _ s _ .disturb ⟨rfl, rfl⟩ hs

/-- The blocks that were given are the first of the allocator `a`, which goes on with the next. -/
structure Numbered (a : LocalAllocator) (s : System service S localAllocation τ) : Prop where
  allocated : History.allocated s.history = a.numbered (History.allocated s.history).length
  container : s.world.counter.container = a.container
  next : s.world.counter.nextLocalId =
    Int64.ofInt (a.nextLocalId.toInt + (History.allocated s.history).length)

variable {a : LocalAllocator} {s s' : System service S localAllocation τ}

omit [DecidableEq τ] in
/-- What gives no block and leaves the numbering alone keeps the numbers. -/
theorem Numbered.of_eq (h : s.Numbered a)
    (hallocated : History.allocated s'.history = History.allocated s.history)
    (hcontainer : s'.world.counter.container = s.world.counter.container)
    (hnext : s'.world.counter.nextLocalId = s.world.counter.nextLocalId) : s'.Numbered a := by
  constructor
  · rw [hallocated]
    exact h.allocated
  · rw [hcontainer, h.container]
  · rw [hnext, h.next, hallocated]

omit [DecidableEq τ] in
theorem numbered_empty (w : World S localAllocation τ) :
    ({ world := w } : System service S localAllocation τ).Numbered w.counter where
  allocated := rfl
  container := rfl
  next := by
    show w.counter.nextLocalId = Int64.ofInt (w.counter.nextLocalId.toInt + (0 : Nat))
    rw [Int.natCast_zero, Int.add_zero, Int64.ofInt_toInt]

theorem Numbered.act (h : s.Numbered a) {t : τ} {activity : Activity service} {action : Action}
    {next : action.Answer → Program CallResult} (hrest : activity.rest = .step action next) :
    (s.act t activity hrest).Numbered a := by
  have hallocated : History.allocated (s.act t activity hrest).history =
      History.allocated s.history ++
        (Access.block? ⟨action, (s.world.perform t action).1⟩).toList :=
    History.allocated_concat _ _
  cases action with
  | allocate request =>
    by_cases hrefuses : s.world.counter.Refuses request
    · have ⟨e, hperform⟩ := World.perform_of_refuses hrefuses t
      rw [hperform] at hallocated
      have hworld : (s.act t activity hrest).world = s.world := congrArg Prod.snd hperform
      exact h.of_eq (hallocated.trans (List.append_nil _)) (by rw [hworld]) (by rw [hworld])
    · have ⟨hanswer, hcounter⟩ := World.perform_of_not_refuses hrefuses t
      rw [hanswer, h.container, h.next] at hallocated
      have hlength : (History.allocated (s.act t activity hrest).history).length =
          (History.allocated s.history).length + 1 := by
        rw [hallocated]
        exact List.length_append
      constructor
      · rw [hlength, LocalAllocator.numbered_succ, ← h.allocated]
        exact hallocated
      · exact (congrArg LocalAllocator.container hcounter).trans h.container
      · have hnext := congrArg LocalAllocator.nextLocalId hcounter
        refine hnext.trans ?_
        show s.world.counter.nextLocalId + 1 = _
        rw [hlength, h.next, Int.natCast_add, ← Int.add_assoc, Int64.ofInt_add _ (1 : Nat)]
        rfl
  | _ => exact h.of_eq (hallocated.trans (List.append_nil _)) rfl rfl

theorem numbered_turns (w : World S localAllocation τ) (turns : List (Turn S τ)) :
    (({ world := w } : System service S localAllocation τ).turns turns).Numbered w.counter := by
  refine turns_induction ?_ (numbered_empty w) turns
  intro m s s' htransition hm h
  cases htransition with
  | begin => exact h.of_eq (History.allocated_concat_of_silent rfl) rfl rfl
  | act hrun hrest => exact h.act hrest
  | finish => exact h.of_eq (History.allocated_concat_of_silent rfl) rfl rfl
  | disturb => exact h.of_eq rfl hm.1 hm.2

/-! ## 4. Blocks that are returned -/

structure Guarded (s : System service S localAllocation τ) : Prop where
  consistent : s.Consistent
  calls : ∀ e ∈ s.history, e.call.isGuarded = true

omit [DecidableEq τ] in
theorem Guarded.call (h : s.Guarded) {t : τ} {activity : Activity service}
    (hrun : s.running t = some activity) : activity.call.isGuarded = true :=
  h.calls _ (h.consistent.began t activity hrun)

theorem Guarded.transition {m : Move S localAllocation τ} (h : s.Guarded)
    (ht : Transition m s s') (hm : m.KeepsNumbers s.world) : s'.Guarded := by
  have hconcat : ∀ e, s'.history = s.history ++ [e] → e.call.isGuarded = true →
      ∀ e ∈ s'.history, e.call.isGuarded = true := by
    intro e hhistory he e' he'
    rw [hhistory, List.mem_append, List.mem_singleton] at he'
    rcases he' with he' | rfl
    · exact h.calls e' he'
    · exact he
  refine ⟨h.consistent.transition ht, ?_⟩
  cases ht with
  | begin => exact hconcat _ rfl hm
  | act hrun => exact hconcat _ rfl (h.call hrun)
  | finish hrun => exact hconcat _ rfl (h.call hrun)
  | disturb => exact h.calls

/-- No block was returned twice, and each of them was given to a call that has returned. -/
structure ReturnsOnce (s : System service S localAllocation τ) : Prop where
  nodup : (History.returned s.history).Nodup
  given : ∀ block ∈ History.returned s.history, ∃ i,
    (History.result? s.history i).isSome = true ∧ block ∈ (History.trace s.history i).blocks

omit [DecidableEq τ] in
theorem ReturnsOnce.given_concat (h : s.ReturnsOnce) (e : Event τ) :
    ∀ block ∈ History.returned s.history, ∃ i,
      (History.result? (s.history ++ [e]) i).isSome = true ∧
        block ∈ (History.trace (s.history ++ [e]) i).blocks := by
  intro block hblock
  have ⟨i, hresult, hgiven⟩ := h.given block hblock
  refine ⟨i, ?_, History.mem_blocks_trace_mono hgiven e⟩
  rw [History.result?_concat, Option.isSome_or, hresult, Bool.true_or]

omit [DecidableEq τ] in
theorem ReturnsOnce.of_unreturned (h : s.ReturnsOnce) {e : Event τ}
    (hhistory : s'.history = s.history ++ [e]) (he : e.returned = []) : s'.ReturnsOnce := by
  have hreturned : History.returned s'.history = History.returned s.history := by
    rw [hhistory, History.returned_concat, he, List.append_nil]
  constructor
  · rw [hreturned]
    exact h.nodup
  · intro block hblock
    rw [hreturned] at hblock
    rw [hhistory]
    exact h.given_concat e block hblock

/-- A call returns the block that was given to it, which was given to no other call. -/
theorem ReturnsOnce.finish (h : s.ReturnsOnce) (hg : s.Guarded)
    (hallocated : (History.allocated s.history).Nodup) {t : τ} {activity : Activity service}
    {result : CallResult} (hrun : s.running t = some activity)
    (hrest : activity.rest = .done result) : (s.finish t activity result).ReturnsOnce := by
  let e : Event τ := ⟨activity.index, t, activity.call, .returned result⟩
  have hhistory : (s.finish t activity result).history = s.history ++ [e] := rfl
  by_cases he : e.returned = []
  · exact h.of_unreturned hhistory he
  · have hwrites : activity.call.writesOpenKeys = true := by
      by_contra hwrites
      exact he (by simp [e, Event.returned, hwrites])
    cases result with
    | error failure => exact absurd (by simp [e, Event.returned, Event.result?, hwrites]) he
    | ok outcome =>
      have hplaces := Program.Always.of_leads (Call.places service hwrites) activity.leads
        fun _ _ => trivial
      rw [hrest] at hplaces
      have hgives : activity.trace.Gives (.ok outcome) := hplaces
      have ⟨block, hblock, hgiven⟩ := hgives outcome rfl
      have hmem : block ∈ (History.trace s.history activity.index).blocks := by
        rw [hg.consistent.trace t activity hrun, hgiven]
        exact List.mem_singleton_self block
      have he : e.returned = [block] := by
        simp only [e, Event.returned, Event.result?, hwrites, hblock]
      constructor
      · rw [hhistory, History.returned_concat, he, List.nodup_append]
        refine ⟨h.nodup, List.nodup_singleton block, fun earlier hearlier last hlast hsame => ?_⟩
        rw [List.mem_singleton.1 hlast] at hsame
        rw [hsame] at hearlier
        -- it was given to one call only, and that one has not returned before
        have ⟨i, hresult, hgiven'⟩ := h.given block hearlier
        rw [History.index_eq_of_given hallocated hgiven' hmem,
          hg.consistent.unreturned t activity hrun] at hresult
        cases hresult
      · intro block' hblock'
        rw [hhistory, History.returned_concat, he, List.mem_append, List.mem_singleton] at hblock'
        rw [hhistory]
        rcases hblock' with hblock' | rfl
        · exact h.given_concat e block' hblock'
        · refine ⟨activity.index, ?_, History.mem_blocks_trace_mono hmem e⟩
          rw [History.result?_concat, if_pos rfl, Option.isSome_or]
          exact Bool.or_true _

/-- Blocks that are given once are returned once. -/
theorem ReturnsOnce.transition {m : Move S localAllocation τ} (h : s.ReturnsOnce)
    (hg : s.Guarded) (hallocated : (History.allocated s.history).Nodup)
    (ht : Transition m s s') : s'.ReturnsOnce := by
  cases ht with
  | @begin _ _ call => exact h.of_unreturned rfl (Event.returned_eq_nil rfl)
  | act => exact h.of_unreturned rfl (Event.returned_eq_nil rfl)
  | finish hrun hrest => exact h.finish hg hallocated hrun hrest
  | disturb => exact ⟨h.nodup, h.given⟩

/-! ## 5. Blocks in the table of open keys -/

/-- Open keys are accounted for, those in the table as well as those that calls have read. -/
structure Tidy (s : System service S localAllocation τ) : Prop where
  stored : ∀ key bytes, s.world.store.store.get .openKeys key = some bytes →
    History.Accounts s.history key bytes
  found : ∀ i key bytes, (History.trace s.history i).Found key bytes →
    History.Accounts s.history key bytes

omit [DecidableEq τ] in
theorem tidy_empty {w : World S localAllocation τ}
    (hempty : ∀ key record, w.store.store.HoldsOpen key record → record.blocks = []) :
    ({ world := w } : System service S localAllocation τ).Tidy where
  stored key bytes hget record hdecode := by
    rw [hempty key record ⟨bytes, hget, hdecode⟩]
    exact ⟨List.nodup_nil, fun _ hblock => absurd hblock List.not_mem_nil⟩
  found _ _ _ hfound := absurd hfound List.not_mem_nil

omit [DecidableEq τ] in
theorem Tidy.of_silent (h : s.Tidy) (hstore : s'.world.store.store = s.world.store.store)
    {e : Event τ} (hhistory : s'.history = s.history ++ [e]) (he : e.access? = none) : s'.Tidy := by
  constructor
  · intro key bytes hget
    rw [hstore] at hget
    rw [hhistory]
    exact (h.stored key bytes hget).concat e
  · intro i key bytes hfound
    rw [hhistory, History.trace_concat_of_silent he] at hfound
    rw [hhistory]
    exact (h.found i key bytes hfound).concat e

/-- An action of a guarded call leaves an open key as it is, or writes one that is accounted for. -/
theorem Tidy.stored_act (h : s.Tidy) (hg : s.Guarded)
    (hallocated : (History.allocated s.history).Nodup) {t : τ} {activity : Activity service}
    {action : Action} {next : action.Answer → Program CallResult}
    (hrun : s.running t = some activity) (hrest : activity.rest = .step action next)
    (hshort : ∀ e ∈ (s.act t activity hrest).history, e.isShort = true) (key bytes : Bytes)
    (hget : (s.act t activity hrest).world.store.store.get .openKeys key = some bytes) :
    History.Accounts (s.act t activity hrest).history key bytes := by
  let access : Access := ⟨action, (s.world.perform t action).1⟩
  let e : Event τ := ⟨activity.index, t, activity.call, .acted access⟩
  have hhistory : (s.act t activity hrest).history = s.history ++ [e] := rfl
  have hstore : (s.act t activity hrest).world.store.store =
      access.applied s.world.store.store := s.world.perform_store t action
  have htrace := hg.consistent.trace t activity hrun
  rcases Call.spares_or_places (hg.call hrun) (hrest ▸ activity.leads) _ with
    hspares | ⟨record, block, haccess, hrecord, hgiven, hputs⟩
  · rw [hstore, hspares key] at hget
    exact (h.stored key bytes hget).concat e
  · rw [hstore, show access = _ from haccess] at hget
    change (s.world.store.store.put .openKeys _ _).get .openKeys key = some bytes at hget
    rw [Store.get_put] at hget
    by_cases hkey : record.path.tableKey = key
    · -- this is what was just written
      rw [if_pos ⟨rfl, hkey⟩, Option.some.injEq] at hget
      have hput : e.access? = some ⟨record.putOpen, Except.ok ()⟩ := congrArg some haccess
      have hvalue := Event.length_lt
        (hshort e (List.mem_append_right _ (List.mem_singleton_self e))) hput
      rw [← htrace] at hrecord hgiven hputs
      rw [← hkey, ← hget]
      exact History.accounts_put hallocated hrecord hgiven hputs (h.found _) hvalue rfl hput
    · rw [if_neg fun hsame => hkey hsame.2] at hget
      exact (h.stored key bytes hget).concat e

theorem Tidy.act (h : s.Tidy) (hg : s.Guarded) (hallocated : (History.allocated s.history).Nodup)
    {t : τ} {activity : Activity service} {action : Action}
    {next : action.Answer → Program CallResult} (hrun : s.running t = some activity)
    (hrest : activity.rest = .step action next)
    (hshort : ∀ e ∈ (s.act t activity hrest).history, e.isShort = true) :
    (s.act t activity hrest).Tidy := by
  refine ⟨h.stored_act hg hallocated hrun hrest hshort, fun i key bytes hfound => ?_⟩
  let e : Event τ := ⟨activity.index, t, activity.call,
    .acted ⟨action, (s.world.perform t action).1⟩⟩
  have hhistory : (s.act t activity hrest).history = s.history ++ [e] := rfl
  rw [hhistory, History.trace_concat] at hfound
  rcases List.mem_append.1 hfound with hold | hnew
  · exact (h.found i key bytes hold).concat e
  · -- what is read now is in the table
    have haccess : (⟨.get .openKeys key, .ok (some bytes)⟩ : Access) =
        ⟨action, (s.world.perform t action).1⟩ := by
      split at hnew
      · exact List.mem_singleton.1 hnew
      · exact absurd hnew List.not_mem_nil
    have hstands := s.world.perform_stands t action
    rw [← haccess] at hstands
    exact (h.stored key bytes hstands).concat e

theorem Tidy.transition {m : Move S localAllocation τ} (h : s.Tidy) (hg : s.Guarded)
    (hallocated : (History.allocated s.history).Nodup) (ht : Transition m s s')
    (hshort : ∀ e ∈ s'.history, e.isShort = true) : s'.Tidy := by
  cases ht with
  | begin => exact h.of_silent rfl rfl rfl
  | act hrun hrest => exact h.act hg hallocated hrun hrest hshort
  | finish => exact h.of_silent rfl rfl rfl
  | disturb => exact ⟨h.stored, h.found⟩

omit [DecidableEq τ] in
/-- A block is placed under one key. -/
theorem Guarded.eq_of_placed (hg : s.Guarded) (hallocated : (History.allocated s.history).Nodup)
    {key key' : Bytes} {block : BlockId} (h : History.Placed s.history key block)
    (h' : History.Placed s.history key' block) : key = key' := by
  rcases h with ⟨i, value, hgiven, hput⟩
  rcases h' with ⟨j, value', hgiven', hput'⟩
  rw [← History.index_eq_of_given hallocated hgiven hgiven'] at hput'
  have ⟨e, he, hindex, _⟩ := History.mem_blocks_trace.1 hgiven
  have ⟨rest, hleads⟩ := hg.consistent.exists_leads he
  rw [hindex] at hleads
  exact Call.eq_of_mem_puts (hg.calls e he) hleads hput hput'

omit [DecidableEq τ] in
theorem Tidy.sharesNoBlock (h : s.Tidy) (hg : s.Guarded)
    (hallocated : (History.allocated s.history).Nodup) : s.world.store.store.SharesNoBlock := by
  intro key record hholds
  have ⟨bytes, hget, hdecode⟩ := hholds
  have ⟨hnodup, hplaced⟩ := h.stored key bytes hget record hdecode
  refine ⟨hnodup, fun key' record' hholds' block hblock hblock' => ?_⟩
  have ⟨bytes', hget', hdecode'⟩ := hholds'
  have ⟨_, hplaced'⟩ := h.stored key' bytes' hget' record' hdecode'
  exact hg.eq_of_placed hallocated (hplaced block hblock).2 (hplaced' block hblock').2

/-! ## 6. All turns -/

/-- As long as blocks are given once they are returned once, and as long as entries can be read back
they are in the tables once. -/
structure GivenOnce (s : System service S localAllocation τ) : Prop where
  guarded : s.Guarded
  returns : (History.allocated s.history).Nodup → s.ReturnsOnce
  tidy : (History.allocated s.history).Nodup → (∀ e ∈ s.history, e.isShort = true) → s.Tidy

theorem GivenOnce.transition {m : Move S localAllocation τ} (h : s.GivenOnce)
    (ht : Transition m s s') (hm : m.KeepsNumbers s.world) : s'.GivenOnce := by
  have ⟨later, hhistory⟩ := ht.exists_history_eq
  have hallocated : (History.allocated s'.history).Nodup →
      (History.allocated s.history).Nodup := by
    intro hnodup
    rw [hhistory, History.allocated, List.filterMap_append] at hnodup
    exact (List.nodup_append.1 hnodup).1
  have hshort : (∀ e ∈ s'.history, e.isShort = true) → ∀ e ∈ s.history, e.isShort = true := by
    intro hall e he
    rw [hhistory] at hall
    exact hall e (List.mem_append_left _ he)
  constructor
  · exact h.guarded.transition ht hm
  · intro hnodup
    exact (h.returns (hallocated hnodup)).transition h.guarded (hallocated hnodup) ht
  · intro hnodup hall
    have htidy := h.tidy (hallocated hnodup) (hshort hall)
    exact htidy.transition h.guarded (hallocated hnodup) ht hall

theorem givenOnce_turns {w : World S localAllocation τ}
    (hempty : ∀ key record, w.store.store.HoldsOpen key record → record.blocks = [])
    (turns : List (Turn S τ)) :
    (({ world := w } : System service S localAllocation τ).turns turns).GivenOnce := by
  refine turns_induction (fun m s s' ht hm h => h.transition ht hm) ?_ turns
  refine ⟨⟨consistent_empty w, fun _ he => absurd he List.not_mem_nil⟩, fun _ => ?_,
    fun _ _ => tidy_empty hempty⟩
  exact ⟨List.nodup_nil, fun _ hblock => absurd hblock List.not_mem_nil⟩

/-- From a table of open keys without blocks, threads open and extend keys of a service with a local
allocator, at the same time and in any order, while chill mode is switched and stores fail.  The
blocks that the allocator gives are numbered from its first number on, around the end of the range,
whatever becomes of the calls that they are given to; a request in chill mode or for a size that is
not positive is refused and takes no number.  Until all numbers were used, no block is given twice
or returned twice, and none is twice in the table of open keys, as long as no record is too long to
be written. -/
theorem turns_blockIds (w : World S localAllocation τ)
    (hempty : ∀ key record, w.store.store.HoldsOpen key record → record.blocks = [])
    (turns : List (Turn S τ)) :
    let s := ({ world := w } : System service S localAllocation τ).turns turns
    let given := History.allocated s.history
    given = w.counter.numbered given.length ∧
      (∀ t request, s.world.counter.chillMode = true ∨ request.size ≤ 0 →
        ∃ e, s.world.perform t (.allocate request) = (Except.error e, s.world)) ∧
      (given.length ≤ 2 ^ 64 →
        given.Nodup ∧ (History.returned s.history).Nodup ∧
          ((∀ e ∈ s.history, e.isShort = true) → s.world.store.store.SharesNoBlock)) := by
  intro s given
  have hnumbered : s.Numbered w.counter := numbered_turns w turns
  have hgiven : s.GivenOnce := givenOnce_turns hempty turns
  refine ⟨hnumbered.allocated, fun t request hrefuses => World.perform_of_refuses hrefuses t, ?_⟩
  intro hcount
  have hnodup : (w.counter.numbered given.length).Nodup := LocalAllocator.nodup_numbered hcount
  rw [← hnumbered.allocated] at hnodup
  refine ⟨hnodup, (hgiven.returns hnodup).nodup, fun hshort => ?_⟩
  exact (hgiven.tidy hnodup hshort).sharesNoBlock hgiven.guarded hnodup

/-- The last number of the range and the first three: two keys are opened, one of them at the second
attempt since chill mode was on at the first, and two threads then extend them at the same time. -/
theorem turns_blockIds_wrapped :
    let volumes := (Store.memory {}).put .volumes (ResourcePath.volume "vol").tableKey []
    let buckets := volumes.put .buckets (ResourcePath.bucket "vol" "buc").tableKey []
    let w : World checksumScheme localAllocation Bool := {
      store := { store := buckets }
      allocator := (⟨7, Int64.maxValue, false⟩ : LocalAllocator), clock := 0 }
    let request := fun key : String => ({ volume := "vol", bucket := "buc", key } : KeyRequest)
    let turns : List (Turn checksumScheme Bool) :=
      .begin true (.openKey (request "a")) rfl :: List.replicate 9 (.act true) ++
        [.chill true, .begin false (.openKey (request "b")) rfl] ++ List.replicate 9 (.act false) ++
        [.chill false, .begin false (.openKey (request "b")) rfl] ++
        List.replicate 9 (.act false) ++
        [.begin true (.allocateBlock (request "a") 1) rfl,
          .begin false (.allocateBlock (request "b") 1) rfl] ++
        (List.replicate 9 [.act true, .act false]).flatten
    let s := ({ world := w } : System {} checksumScheme localAllocation Bool).turns turns
    History.allocated s.history =
        [⟨7, Int64.maxValue⟩, ⟨7, Int64.minValue⟩, ⟨7, Int64.minValue + 1⟩,
          ⟨7, Int64.minValue + 2⟩] ∧
      History.returned s.history = History.allocated s.history ∧
      s.world.store.store.SharesNoBlock := by
  intro volumes buckets w request turns s
  have hempty : ∀ key record, w.store.store.HoldsOpen key record → record.blocks = [] := by
    intro key record hholds
    have ⟨bytes, hget, _⟩ := hholds
    have hnone : w.store.store.get .openKeys key = none := by
      show buckets.get .openKeys key = none
      rw [Store.get_put, if_neg fun hsame => nomatch hsame.1]
      show volumes.get .openKeys key = none
      rw [Store.get_put, if_neg fun hsame => nomatch hsame.1]
      exact Store.get_empty .openKeys key
    rw [hnone] at hget
    cases hget
  have hgiven : History.allocated s.history =
      [⟨7, Int64.maxValue⟩, ⟨7, Int64.minValue⟩, ⟨7, Int64.minValue + 1⟩,
        ⟨7, Int64.minValue + 2⟩] := by decide +kernel
  have hcount : (History.allocated s.history).length ≤ 2 ^ 64 := by
    rw [hgiven]
    decide
  have ⟨_, _, honce⟩ := @turns_blockIds {} checksumScheme Bool _ w hempty turns
  have hshort : ∀ e ∈ s.history, e.isShort = true := by decide +kernel
  exact ⟨hgiven, by decide +kernel, (honce hcount).2.2 hshort⟩

end System

end Turns

end ObjectMeta
