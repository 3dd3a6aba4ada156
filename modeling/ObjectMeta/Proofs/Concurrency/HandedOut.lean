import Mathlib.Data.List.Induction
import ObjectMeta.Proofs.Concurrency.Atomicity
import ObjectMeta.Proofs.Concurrency.History
import ObjectMeta.Proofs.Operation.Credentials

/-!
# Blocks are handed out with credentials

Whatever threads do at the same time and whatever the tables hold, a call that is made while the
token authority is started and its clock stands still hands out blocks with the authority's
credentials, and a look-up leaves the tokens in the tables as they are (`System.run_handsOut`).  An
answer that a call got was the answer of the world at some move of the run (`answered_run`), so what
the call read was in the tables and its tokens are from the authority.
-/

namespace ObjectMeta

variable {service : KeyService} {S : SignatureScheme} {A : AllocationService} {τ : Type}

def Move.KeepsTokens (authority : TokenAuthority S) (now : Int64) : Move S A τ → Prop
  | disturb around =>
    around.authority = some authority ∧ around.ownTokenClock.getD around.clock = now
  | _ => True

/-- A look-up that comes to its end leaves all tables alone. -/
theorem Call.lookupKey_applied {request : KeyRequest} {trace : Trace}
    {result : Except OperationError Outcome}
    (hleads : ((Call.lookupKey request).program service).Leads trace (.done result)) :
    ∀ access ∈ trace, ∀ store : Store, access.applied store = store := by
  intro access haccess store
  have hnested : ((Call.lookupKey request).program service).Nested _ [] := Call.nested service rfl
  obtain ⟨before, after, rfl⟩ := List.append_of_mem haccess
  have hnests := hnested.fair_at hleads fun _ _ => trivial
  have hends : Trace.held _ = [] ∧ (Call.lookupKey request).Concludes _ result :=
    hnested.of_leads hleads fun _ _ => trivial
  have hputs : Trace.puts (before ++ access :: after) = [] := by
    have hconcludes := hends.2
    cases result with
    | error e => exact hconcludes
    | ok outcome =>
      rcases hconcludes with ⟨change?, hleaves, hputs⟩
      cases hleaves
      exact hputs
  rw [Access.applied_eq_putAll hnests]
  rw [Trace.puts_append, List.append_eq_nil_iff] at hputs
  have hsingle : Trace.puts ([access] ++ after) = [] := hputs.2
  rw [Trace.puts_append, List.append_eq_nil_iff] at hsingle
  rw [hsingle.1]
  rfl

variable [DecidableEq τ]

namespace World

def Answers (w : World S A τ) (access : Access) : Prop :=
  ∃ t action, access = ⟨action, (w.perform t action).1⟩

variable {w : World S A τ}

theorem perform_tokens (w : World S A τ) (t : τ) (action : Action) :
    (w.perform t action).2.authority = w.authority ∧
      (w.perform t action).2.tokenClock = w.tokenClock := by
  cases action <;> exact ⟨rfl, rfl⟩

/-- What a world answers is what its authority mints and what its tables hold. -/
theorem Answers.supplied {minting : Minting} {found : Table → Bytes → Option Bytes → Prop}
    {access : Access} (h : w.Answers access)
    (hminting : ∀ owner block maxLength,
      minting owner block maxLength (w.mint owner block maxLength))
    (hfound : ∀ table key, found table key (w.store.store.get table key)) :
    access.Supplied minting found := by
  rcases h with ⟨t, action, rfl⟩
  have hstands := w.perform_stands t action
  cases action with
  | get table key =>
    cases hanswer : (w.perform t (.get table key)).1 with
    | error e => trivial
    | ok answer =>
      rw [hanswer] at hstands
      have hget : w.store.store.get table key = answer := hstands
      rw [← hget]
      exact hfound table key
  | mint owner block maxLength => exact hminting owner block maxLength
  | _ => trivial

omit [DecidableEq τ] in
theorem mint_of_authority {authority : TokenAuthority S} (h : w.authority = some authority)
    (owner : String) (block : BlockId) (maxLength : Int64) :
    authority.minting w.tokenClock owner block maxLength (w.mint owner block maxLength) := by
  unfold World.mint
  rw [h]
  rfl

end World

namespace System

/-! ## 1. When a call got its answers -/

theorem mem_settle {s : System service S A τ} {t : τ} {e : Event τ} {access : Access}
    (h : e ∈ (s.settle t).history) (haccess : e.access? = some access) : e ∈ s.history := by
  unfold settle at h
  split at h
  · exact h
  · split at h
    · rcases List.mem_append.1 h with h | h
      · exact h
      · -- to return is not to act
        rw [List.mem_singleton.1 h] at haccess
        cases haccess
    · exact h

theorem answered_step {s : System service S A τ} {m : Move S A τ} {e : Event τ} {access : Access}
    (h : e ∈ (s.step m).history) (haccess : e.access? = some access) :
    e ∈ s.history ∨ s.world.Answers access := by
  cases m with
  | begin t call =>
    rw [step] at h
    split at h
    · rcases List.mem_append.1 (mem_settle h haccess) with h | h
      · exact .inl h
      · rw [List.mem_singleton.1 h] at haccess
        cases haccess
    · exact .inl h
  | act t =>
    rw [step] at h
    split at h
    · exact .inl h
    · split at h
      · exact .inl h
      · next action next hrest =>
        split at h
        · rcases List.mem_append.1 (mem_settle h haccess) with h | h
          · exact .inl h
          · rw [List.mem_singleton.1 h] at haccess
            cases haccess
            exact .inr ⟨t, action, rfl⟩
        · exact .inl h
  | disturb around => exact .inl h

/-- A call got each of its answers from the world at one of the moves. -/
theorem answered_run {s : System service S A τ} {moves : List (Move S A τ)} {e : Event τ}
    {access : Access} (h : e ∈ (s.run moves).history) (haccess : e.access? = some access) :
    e ∈ s.history ∨ ∃ past, past <+: moves ∧ (s.run past).world.Answers access := by
  induction moves using List.reverseRecOn with
  | nil => exact .inl h
  | append_singleton moves m ih =>
    have hrun : s.run (moves ++ [m]) = (s.run moves).step m := List.foldl_append
    rw [hrun] at h
    rcases answered_step h haccess with h | h
    · exact (ih h).imp_right fun ⟨past, hpast, hanswers⟩ =>
        ⟨past, hpast.trans (List.prefix_append ..), hanswers⟩
    · exact .inr ⟨moves, List.prefix_append .., h⟩

/-! ## 2. While authority and clock stay -/

theorem run_tokens {s : System service S A τ} {authority : TokenAuthority S} {now : Int64}
    (hauthority : s.world.authority = some authority) (hclock : s.world.tokenClock = now)
    {moves : List (Move S A τ)} (hkeeps : ∀ m ∈ moves, m.KeepsTokens authority now) :
    (s.run moves).world.authority = some authority ∧ (s.run moves).world.tokenClock = now := by
  refine run_induction (P := fun s => s.world.authority = some authority ∧
    s.world.tokenClock = now) (Move.KeepsTokens authority now) ?_ ⟨hauthority, hclock⟩ hkeeps
  intro m hm s s' htransition h
  cases htransition with
  | @act _ t _ action =>
    have ⟨hauthority', hclock'⟩ := s.world.perform_tokens t action
    exact ⟨hauthority'.trans h.1, hclock'.trans h.2⟩
  | disturb => exact hm
  | _ => exact h

/-- The tables held this under a key at some moment of the run. -/
def Held (s : System service S A τ) (moves : List (Move S A τ)) (table : Table) (key : Bytes)
    (answer : Option Bytes) : Prop :=
  ∃ past, past <+: moves ∧ (s.run past).world.store.store.get table key = answer

/-- A call that began in the run got its tokens from minting and its records from tables of the
run. -/
theorem trace_supplied {s : System service S A τ} (hc : s.Consistent) {moves : List (Move S A τ)}
    {minting : Minting} (hminting : ∀ past, past <+: moves → ∀ owner block maxLength,
      minting owner block maxLength ((s.run past).world.mint owner block maxLength))
    {i : Nat} (hi : s.history.length ≤ i) :
    ∀ access ∈ History.trace (s.run moves).history i, access.Supplied minting (s.Held moves) := by
  intro access haccess
  have ⟨e, he, hindex, hacted⟩ := History.mem_trace.1 haccess
  rcases answered_run he hacted with hbefore | ⟨past, hpast, hanswers⟩
  · -- what happened before has a lower index
    have hlt := hc.fresh e hbefore
    omega
  · exact hanswers.supplied (hminting past hpast) fun _ _ => ⟨past, hpast, rfl⟩

theorem trace_suppliedBy {s : System service S A τ} (hc : s.Consistent)
    {authority : TokenAuthority S} {now : Int64} (hauthority : s.world.authority = some authority)
    (hclock : s.world.tokenClock = now) {moves : List (Move S A τ)}
    (hkeeps : ∀ m ∈ moves, m.KeepsTokens authority now) {i : Nat} (hi : s.history.length ≤ i) :
    ∀ access ∈ History.trace (s.run moves).history i,
      access.SuppliedBy authority now (s.Held moves) := by
  intro access haccess
  apply Access.suppliedBy_iff.2
  refine trace_supplied hc (fun past hpast => ?_) hi access haccess
  have ⟨hauthority', hclock'⟩ := run_tokens hauthority hclock fun m hm => hkeeps m (hpast.subset hm)
  rw [← hclock']
  exact World.mint_of_authority hauthority'

omit [DecidableEq τ] in
/-- A look-up that has come to its end has left all tables alone. -/
theorem Consistent.lookupKey_applied {s : System service S A τ} (hc : s.Consistent) {e : Event τ}
    (he : e ∈ s.history) {request : KeyRequest} (hcall : e.call = .lookupKey request)
    {result : CallResult} (hresult : History.result? s.history e.index = some result) :
    ∀ access ∈ History.trace s.history e.index, ∀ store : Store, access.applied store = store := by
  have hleads := hc.complete e he result hresult
  rw [hcall] at hleads
  exact Call.lookupKey_applied hleads

/-- From any state that threads can bring about, and while a started authority and its clock stay as
they are: a call on a key that succeeds hands out blocks with the authority's credentials for the
requester.  Every block of a key that it opens, the block that it adds to one, and every block that
readers see of a key that it looks up, has its own.  What is looked up is otherwise as it was found,
and the tables stay as they are. -/
theorem run_handsOut (w : World S A τ) (earlier later : List (Move S A τ))
    {authority : TokenAuthority S} {key : S.SigningKey} {now : Int64} :
    let s := ({ world := w } : System service S A τ).run earlier
    s.world.authority = some authority → authority.signingKey = some key → S.AcceptsOwn key →
    s.world.tokenClock = now → (∀ m ∈ later, m.KeepsTokens authority now) →
    ∀ e ∈ (s.run later).history, s.history.length ≤ e.index →
      ∀ request, e.call.request? = some request →
      (Bytes.ofText (service.tokenOwner request)).length < 2 ^ 32 →
      ∀ result, History.result? (s.run later).history e.index = some result →
        (∀ outcome, result = .ok outcome →
          e.call.HandsOut service authority now (s.Held later) outcome) ∧
        (e.call = .lookupKey request → ∀ access ∈ History.trace (s.run later).history e.index,
          ∀ store : Store, access.applied store = store) := by
  intro s hauthority hstarted hown hclock hkeeps e he hindex request hcall howner result hresult
  have hc : s.Consistent := consistent_run (consistent_empty w) earlier
  have hc' : (s.run later).Consistent := consistent_run hc later
  have hsupplied := trace_suppliedBy hc hauthority hclock hkeeps hindex
  constructor
  · exact (Call.handsOut service hstarted hown howner hcall).of_leads
      (hc'.complete e he result hresult) hsupplied
  · intro hlookup
    exact hc'.lookupKey_applied he hlookup hresult

/-- A committed key of two versions with foreign tokens and none: for Alice's look-up at time 5, both
blocks of the second version get credentials that expire at 1005. -/
theorem run_handsOut_lookUp :
    let authority : TokenAuthority checksumScheme := { lifetime := 1000, signingKey := some [7] }
    let request : KeyRequest := { volume := "v", bucket := "b", key := "k", user := some "alice" }
    let stored : KeyRecord := {
      volume := "v", bucket := "b", key := "k", dataSize := 60, creationTime := 0
      modificationTime := 0, replicationType := .ratis, replicationFactor := .three
      versions := [⟨1, [⟨⟨1, 1⟩, 0, 10, some ⟨[1], [2]⟩⟩]⟩,
        ⟨2, [⟨⟨1, 2⟩, 0, 20, some ⟨[3], [4]⟩⟩, ⟨⟨1, 3⟩, 0, 30, none⟩]⟩] }
    let w : World checksumScheme localAllocation Bool := {
      store := { store := (Store.memory {}).put .keys request.path.tableKey (Stored.encode stored) }
      allocator := (⟨1, 4, false⟩ : LocalAllocator)
      clock := 0, ownTokenClock := some 5, authority := some authority }
    let moves : List (Move checksumScheme localAllocation Bool) :=
      .begin true (.lookupKey request) :: List.replicate 7 (.act true)
    let s : System {} checksumScheme localAllocation Bool := { world := w }
    let token := fun block length =>
      TokenAuthority.issue checksumScheme [7] (authority.claims 5 "alice" block length)
    let found := stored.withLatestLocations
      [⟨⟨1, 2⟩, 0, 20, some (token ⟨1, 2⟩ 20)⟩, ⟨⟨1, 3⟩, 0, 30, some (token ⟨1, 3⟩ 30)⟩]
    History.result? (s.run moves).history 0 = some (.ok (.record found)) ∧
      (authority.claims 5 "alice" ⟨1, 2⟩ 20).expiryTime = 1005 ∧
      (Call.lookupKey request).HandsOut {} authority 5 (s.Held moves) (.record found) := by
  intro authority request stored w moves s token found
  have hresult : History.result? (s.run moves).history 0 = some (.ok (.record found)) := by
    decide +kernel
  have hcalls : (s.run moves).history.any
      (fun e => decide (e.index = 0 ∧ e.call = .lookupKey request)) = true := by decide +kernel
  have ⟨e, he, hcall⟩ := List.any_eq_true.1 hcalls
  have ⟨hindex, hlookup⟩ := of_decide_eq_true hcall
  have hkeeps : ∀ m ∈ moves, m.KeepsTokens authority 5 := by
    intro m hm
    rcases List.mem_cons.1 hm with hm | hm
    · rw [hm]
      exact trivial
    · rw [List.eq_of_mem_replicate hm]
      exact trivial
  have hhandsOut := run_handsOut w [] moves rfl rfl (checksumScheme_acceptsOwn [7]) rfl hkeeps e he
    (Nat.zero_le _) request (hlookup ▸ rfl) (by decide) (.ok (.record found)) (hindex ▸ hresult)
  rw [hlookup] at hhandsOut
  exact ⟨hresult, by decide +kernel, hhandsOut.1 _ rfl⟩

end System

end ObjectMeta
