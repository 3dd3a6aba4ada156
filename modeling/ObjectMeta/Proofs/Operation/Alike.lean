import ObjectMeta.Proofs.Operation.LookUp
import ObjectMeta.Proofs.Record.Size

/-!
# Programs that tokens tell apart

Two programs are alike if they take the same actions in the same order, write entries that differ in
tokens only, and stay alike whatever they are answered, as long as their answers differ in tokens
only (`Program.Alike`).  The rules for operations follow their building blocks.  Alike programs that
run by themselves in worlds whose tables differ in tokens only ask for the same blocks and leave such
worlds behind (`Program.Alike.runAlone`).
-/

namespace ObjectMeta

variable {α β γ δ ε : Type}

/-! ## 1. Entries and answers -/

/-- Both fail in the same way, or both succeed with related values. -/
inductive Agree (related : α → β → Prop) : Except ε α → Except ε β → Prop where
  | ok {a : α} {b : β} (values : related a b) : Agree related (.ok a) (.ok b)
  | error (e : ε) : Agree related (.error e) (.error e)

/-- The same bytes, or two records of keys that differ in their tokens only. -/
def BytesAlike (table : Table) (bytes bytes' : Bytes) : Prop :=
  bytes = bytes' ∨ (table = .openKeys ∨ table = .keys) ∧ ∃ record record',
    Stored.decode KeyRecord bytes = .ok record ∧ Stored.decode KeyRecord bytes' = .ok record' ∧
      record.withoutTokens = record'.withoutTokens

def Store.Alike (store store' : Store) : Prop :=
  ∀ table key, Option.Rel (BytesAlike table) (store.get table key) (store'.get table key)

/-- The answers differ in tokens only: what was read is alike, and if one token could be minted so
could the other. -/
def Action.AnswersAlike : (action : Action) → action.Answer → action.Answer → Prop
  | get table _, answer, answer' => Agree (Option.Rel (BytesAlike table)) answer answer'
  | mint .., answer, answer' => ∃ token? token?', answer = .ok token? ∧ answer' = .ok token?'
  | _, answer, answer' => answer = answer'

theorem agree_eq_iff {r r' : Except ε α} : Agree Eq r r' ↔ r = r' := by
  constructor
  · intro h
    cases h with
    | ok values => exact congrArg Except.ok values
    | error e => rfl
  · rintro rfl
    cases r with
    | ok a => exact .ok rfl
    | error e => exact .error e

theorem BytesAlike.refl (table : Table) (bytes : Bytes) : BytesAlike table bytes bytes := .inl rfl

theorem Store.Alike.refl (store : Store) : store.Alike store := by
  intro table key
  cases store.get table key with
  | none => exact .none
  | some bytes => exact .some (.refl table bytes)

/-- Records that differ in tokens only, if they are short enough to be read back. -/
theorem bytesAlike_encode {table : Table} (htable : table = .openKeys ∨ table = .keys)
    {record record' : KeyRecord} (h : record.withoutTokens = record'.withoutTokens)
    (hshort : (Stored.encode record).length < 256 ^ 8)
    (hshort' : (Stored.encode record').length < 256 ^ 8) :
    BytesAlike table (Stored.encode record) (Stored.encode record') :=
  .inr ⟨htable, record, record', Stored.decode_encode_of_short hshort,
    Stored.decode_encode_of_short hshort', h⟩

theorem Store.Alike.put {store store' : Store} (h : store.Alike store') {table : Table}
    (key : Bytes) {value value' : Bytes} (hvalue : BytesAlike table value value') :
    (store.put table key value).Alike (store'.put table key value') := by
  intro table' key'
  rw [Store.get_put, Store.get_put]
  by_cases hsame : table = table' ∧ key = key'
  · rw [if_pos hsame, if_pos hsame, ← hsame.1]
    exact .some hvalue
  · rw [if_neg hsame, if_neg hsame]
    exact h table' key'

theorem Store.Alike.delete {store store' : Store} (h : store.Alike store') (table : Table)
    (key : Bytes) : (store.delete table key).Alike (store'.delete table key) := by
  intro table' key'
  rw [Store.get_delete, Store.get_delete]
  by_cases hsame : table = table' ∧ key = key'
  · rw [if_pos hsame, if_pos hsame]
    exact .none
  · rw [if_neg hsame, if_neg hsame]
    exact h table' key'

theorem Store.Alike.contains {store store' : Store} (h : store.Alike store') (table : Table)
    (key : Bytes) : store.contains table key = store'.contains table key := by
  have hsome : ∀ {bytes? bytes?' : Option Bytes},
      Option.Rel (BytesAlike table) bytes? bytes?' → bytes?.isSome = bytes?'.isSome := by
    intro bytes? bytes?' hrel
    cases hrel with
    | none => rfl
    | some _ => rfl
  exact hsome (h table key)

/-! ## 2. Programs -/

/-- The programs take the same actions, except that values they put may differ as far as entries may,
and come to related values. -/
inductive Program.Alike (related : α → β → Prop) : Program α → Program β → Prop where
  | done {a : α} {b : β} (values : related a b) : Alike related (.done a) (.done b)
  | step {action : Action} {next : action.Answer → Program α} {next' : action.Answer → Program β}
      (rest : ∀ answer answer', action.AnswersAlike answer answer' →
        Alike related (next answer) (next' answer')) :
      Alike related (.step action next) (.step action next')
  | put {table : Table} {key value value' : Bytes} {next : Except StoreError Unit → Program α}
      {next' : Except StoreError Unit → Program β}
      (values : value.length < 256 ^ 8 → value'.length < 256 ^ 8 → BytesAlike table value value')
      (rest : ∀ answer answer', answer = answer' → Alike related (next answer) (next' answer')) :
      Alike related (.step (.put table key value) next) (.step (.put table key value') next')

theorem Program.Alike.bind {related : α → β → Prop} {related' : γ → δ → Prop} {p : Program α}
    {p' : Program β} {f : α → Program γ} {f' : β → Program δ} (h : p.Alike related p')
    (hf : ∀ a b, related a b → (f a).Alike related' (f' b)) :
    (p.bind f).Alike related' (p'.bind f') := by
  induction h with
  | done values => exact hf _ _ values
  | step _ ih => exact .step ih
  | put values _ ih => exact .put values ih

theorem Program.Alike.mono {related related' : α → β → Prop} {p : Program α} {p' : Program β}
    (h : p.Alike related p') (himp : ∀ a b, related a b → related' a b) : p.Alike related' p' := by
  induction h with
  | done values => exact .done (himp _ _ values)
  | step _ ih => exact .step ih
  | put values _ ih => exact .put values ih

/-! ## 3. Operations -/

namespace Operation

def Alike (related : α → β → Prop) (op : Operation α) (op' : Operation β) : Prop :=
  op.run.Alike (Agree related) op'.run

variable {related : α → β → Prop} {op : Operation α} {op' : Operation β}

theorem alike_pure {a : α} {b : β} (h : related a b) :
    (pure a : Operation α).Alike related (pure b) := .done (.ok h)

theorem alike_throw (e : OperationError) :
    (throw e : Operation α).Alike related (throw e : Operation β) := .done (.error e)

theorem Alike.bind {related' : γ → δ → Prop} {f : α → Operation γ} {f' : β → Operation δ}
    (h : op.Alike related op') (hf : ∀ a b, related a b → (f a).Alike related' (f' b)) :
    (op >>= f).Alike related' (op' >>= f') := by
  refine Program.Alike.bind h fun result result' hresult => ?_
  cases hresult with
  | ok values => exact hf _ _ values
  | error e => exact .done (.error e)

theorem Alike.mono {related' : α → β → Prop} (h : op.Alike related op')
    (himp : ∀ a b, related a b → related' a b) : op.Alike related' op' := by
  refine Program.Alike.mono h fun result result' hresult => ?_
  cases hresult with
  | ok values => exact .ok (himp _ _ values)
  | error e => exact .error e

theorem Alike.map {related' : γ → δ → Prop} {f : α → γ} {f' : β → δ}
    (h : op.Alike (fun a b => related' (f a) (f' b)) op') :
    (f <$> op).Alike related' (f' <$> op') := by
  rw [← bind_pure_comp, ← bind_pure_comp]
  exact h.bind fun _ _ hvalues => alike_pure hvalues

/-- What is made of equal values is related if it is related to itself. -/
theorem Alike.map_eq {related' : γ → γ → Prop} {op op' : Operation α} {f : α → γ}
    (h : op.Alike Eq op') (hrefl : ∀ c, related' c c) :
    (f <$> op).Alike related' (f <$> op') :=
  Alike.map (h.mono fun a _ hab => hab ▸ hrefl (f a))

theorem Alike.locked (path : ResourcePath) (mode : LockMode) (h : op.Alike related op') :
    (locked path mode op).Alike related (locked path mode op') := by
  rw [Alike, run_eq_followedBy, run_eq_followedBy, locked_followedBy, locked_followedBy]
  refine .step fun _ _ _ => Program.Alike.bind h fun _ _ hresult => ?_
  exact .step fun _ _ _ => .done hresult

theorem alike_perform (action : Action) :
    (perform action).Alike action.AnswersAlike (perform action) :=
  .step fun _ _ hanswers => .done (.ok hanswers)

theorem alike_ofExcept (wrap : ε → OperationError) {r : Except ε α} {r' : Except ε β}
    (h : Agree related r r') : (ofExcept wrap r).Alike related (ofExcept wrap r') := by
  cases h with
  | ok values => exact alike_pure values
  | error e => exact alike_throw (wrap e)

theorem alike_checked (r : Except RequestError Unit) : (checked r).Alike Eq (checked r) :=
  alike_ofExcept .invalidRequest (agree_eq_iff.2 rfl)

theorem alike_now : now.Alike Eq now := alike_perform .now

theorem alike_contains (table : Table) (path : ResourcePath) :
    (contains table path).Alike Eq (contains table path) := by
  refine (alike_perform _).bind fun answer answer' hanswers => ?_
  cases hanswers
  exact alike_ofExcept .store (agree_eq_iff.2 rfl)

theorem alike_delete (table : Table) (path : ResourcePath) :
    (delete table path).Alike Eq (delete table path) := by
  refine (alike_perform _).bind fun answer answer' hanswers => ?_
  cases hanswers
  exact alike_ofExcept .store (agree_eq_iff.2 rfl)

/-- Minting succeeds on both sides, whatever comes of it. -/
theorem alike_mint (owner : String) (block : BlockId) (maxLength : Int64) :
    (mint owner block maxLength).Alike (fun _ _ => True) (mint owner block maxLength) := by
  refine (alike_perform _).bind fun answer answer' hanswers => ?_
  rcases hanswers with ⟨token?, token?', rfl, rfl⟩
  exact alike_pure trivial

theorem alike_getBytes (table : Table) (path : ResourcePath) :
    (getBytes table path).Alike (Option.Rel (BytesAlike table)) (getBytes table path) :=
  (alike_perform _).bind fun _ _ hanswers => alike_ofExcept .store hanswers

/-- Records of keys that are read differ in tokens only. -/
theorem alike_getRecord_key (table : Table) (path : ResourcePath) :
    (getRecord KeyRecord table path).Alike
      (Option.Rel fun record record' => record.withoutTokens = record'.withoutTokens)
      (getRecord KeyRecord table path) := by
  refine (alike_getBytes table path).bind fun bytes? bytes?' hbytes => ?_
  cases hbytes with
  | none => exact alike_pure .none
  | some halike =>
    refine (alike_ofExcept .codec ?_).bind fun record record' hrecords =>
      alike_pure (.some hrecords)
    rcases halike with rfl | ⟨-, record, record', hrecord, hrecord', hsame⟩
    · cases Stored.decode KeyRecord _ with
      | ok record => exact .ok rfl
      | error e => exact .error e
    · rw [hrecord, hrecord']
      exact .ok hsame

/-- Other tables hold the same bytes on both sides. -/
theorem alike_getRecord (γ : Type) [Stored γ] {table : Table} (path : ResourcePath)
    (htable : ¬(table = .openKeys ∨ table = .keys)) :
    (getRecord γ table path).Alike Eq (getRecord γ table path) := by
  refine (alike_getBytes table path).bind fun bytes? bytes?' hbytes => ?_
  cases hbytes with
  | none => exact alike_pure rfl
  | some halike =>
    rcases halike with rfl | ⟨hkeys, -⟩
    · refine (alike_ofExcept .codec (agree_eq_iff.2 rfl)).bind fun record record' hrecords => ?_
      rw [hrecords]
      exact alike_pure rfl
    · exact absurd hkeys htable

/-- Entries that are alike if they are short are written alike. -/
theorem alike_put {table : Table} {key value value' : Bytes}
    (h : value.length < 256 ^ 8 → value'.length < 256 ^ 8 → BytesAlike table value value') :
    (do ofExcept .store (← perform (.put table key value)) : Operation Unit).Alike Eq
      (do ofExcept .store (← perform (.put table key value'))) := by
  have hput : (perform (.put table key value)).Alike Eq (perform (.put table key value')) :=
    .put h fun _ _ hanswers => .done (.ok hanswers)
  refine hput.bind fun answer answer' hanswers => ?_
  rw [hanswers]
  exact alike_ofExcept .store (agree_eq_iff.2 rfl)

theorem alike_putRecord_key {table : Table} (htable : table = .openKeys ∨ table = .keys)
    {record record' : KeyRecord} (h : record.withoutTokens = record'.withoutTokens) :
    (putRecord table record.path record).Alike Eq (putRecord table record'.path record') := by
  have hpath : record.withoutTokens.path = record'.withoutTokens.path := congrArg _ h
  rw [show record.path = record'.path from hpath]
  exact alike_put fun hshort hshort' => bytesAlike_encode htable h hshort hshort'

theorem alike_putRecord [Stored γ] (table : Table) (path : ResourcePath) (record : γ) :
    (putRecord table path record).Alike Eq (putRecord table path record) :=
  alike_put fun _ _ => .refl table _

end Operation

/-! ## 4. Runs -/

variable {S : SignatureScheme} {A : AllocationService} {τ : Type} [DecidableEq τ]

def Program.accesses (t : τ) : Program α → World S A τ → Trace
  | .done _, _ => []
  | .step action next, w =>
    ⟨action, (w.perform t action).1⟩ ::
      (next (w.perform t action).1).accesses t (w.perform t action).2

theorem Program.leads_accesses (p : Program α) (t : τ) (w : World S A τ) :
    p.Leads (p.accesses t w) (.done (p.runAlone t w).1) := by
  induction p generalizing w with
  | done value => rfl
  | step action next ih => exact ⟨_, rfl, ih _ _⟩

def Access.allocation? :
    Access → Option (AllocationRequest × Except AllocationError BlockId)
  | ⟨.allocate request, answer⟩ => some (request, answer)
  | _ => none

def Trace.allocations (trace : Trace) :
    List (AllocationRequest × Except AllocationError BlockId) :=
  trace.filterMap Access.allocation?

/-- There is no authority, or it has been started. -/
def World.CanMint (w : World S A τ) : Prop :=
  ∀ authority, w.authority = some authority → authority.isStarted = true

/-- Worlds that tokens alone tell apart, and their authorities. -/
structure World.Parallels (w w' : World S A τ) : Prop where
  tables : w.store.store.Alike w'.store.store
  faults : w.store.faults = w'.store.faults
  allocator : w.allocator = w'.allocator
  clock : w.clock = w'.clock
  mints : w.CanMint
  mints' : w'.CanMint

namespace World.Parallels

variable {w w' : World S A τ}

omit [DecidableEq τ] in
/-- A call of the store fails on both sides, or is made on both. -/
theorem attempt (h : w.Parallels w') (call : StoreCall) (table : Table)
    (action action' : Store → α × Store) {related : α → α → Prop}
    (hanswers : related (action w.store.store).1 (action' w'.store.store).1)
    (htables : (action w.store.store).2.Alike (action' w'.store.store).2) :
    Agree related (w.store.attempt call table action).1 (w'.store.attempt call table action').1 ∧
      World.Parallels { w with store := (w.store.attempt call table action).2 }
        { w' with store := (w'.store.attempt call table action').2 } := by
  unfold FaultyStore.attempt
  rw [h.faults]
  split
  · next e faults hcheck =>
    exact ⟨.error e, h.tables, rfl, h.allocator, h.clock, h.mints, h.mints'⟩
  · next faults hcheck =>
    exact ⟨.ok hanswers, htables, rfl, h.allocator, h.clock, h.mints, h.mints'⟩

/-- Values that are alike are put alike. -/
theorem put (h : w.Parallels w') (t : τ) (table : Table) (key : Bytes) {value value' : Bytes}
    (hvalues : BytesAlike table value value') :
    (w.perform t (.put table key value)).1 = (w'.perform t (.put table key value')).1 ∧
      (w.perform t (.put table key value)).2.Parallels
        (w'.perform t (.put table key value')).2 := by
  have ⟨hanswers, hworlds⟩ := h.attempt .put table (fun store => ((), store.put table key value))
    (fun store => ((), store.put table key value')) (@rfl _ ()) (h.tables.put key hvalues)
  exact ⟨agree_eq_iff.1 hanswers, hworlds⟩

/-- One action on both sides. -/
theorem perform (h : w.Parallels w') (t : τ) (action : Action) :
    action.AnswersAlike (w.perform t action).1 (w'.perform t action).1 ∧
      (w.perform t action).2.Parallels (w'.perform t action).2 := by
  cases action with
  | get table key =>
    exact h.attempt .get table (fun store => (store.get table key, store))
      (fun store => (store.get table key, store)) (h.tables table key) h.tables
  | contains table key =>
    have ⟨hanswers, hworlds⟩ := h.attempt .get table
      (fun store => (store.contains table key, store))
      (fun store => (store.contains table key, store)) (h.tables.contains table key) h.tables
    exact ⟨agree_eq_iff.1 hanswers, hworlds⟩
  | put table key value => exact h.put t table key (.refl table value)
  | delete table key =>
    have ⟨hanswers, hworlds⟩ := h.attempt .delete table
      (fun store => ((), store.delete table key)) (fun store => ((), store.delete table key))
      (@rfl _ ()) (h.tables.delete table key)
    exact ⟨agree_eq_iff.1 hanswers, hworlds⟩
  | allocate request =>
    have hanswer : (A.allocate request w.allocator).1 = (A.allocate request w'.allocator).1 := by
      rw [h.allocator]
    have hafter : (A.allocate request w.allocator).2 = (A.allocate request w'.allocator).2 := by
      rw [h.allocator]
    exact ⟨hanswer, h.tables, h.faults, hafter, h.clock, h.mints, h.mints'⟩
  | now => exact ⟨h.clock, h⟩
  | mint owner block maxLength =>
    obtain ⟨token?, hmint⟩ := World.mint_ok h.mints owner block maxLength
    obtain ⟨token?', hmint'⟩ := World.mint_ok h.mints' owner block maxLength
    exact ⟨⟨token?, token?', hmint, hmint'⟩, h⟩
  | acquire | release =>
    exact ⟨rfl, h.tables, h.faults, h.allocator, h.clock, h.mints, h.mints'⟩

end World.Parallels

/-- An allocation on both sides has the same answer. -/
theorem Access.allocation?_eq {action : Action} {answer answer' : action.Answer}
    (h : action.AnswersAlike answer answer') :
    Access.allocation? ⟨action, answer⟩ = Access.allocation? ⟨action, answer'⟩ := by
  cases action with
  | allocate request =>
    cases h
    rfl
  | _ => rfl

/-- Alike programs come to related values, ask for the same blocks and leave parallel worlds, unless
they write more bytes than can be counted. -/
theorem Program.Alike.runAlone {related : α → β → Prop} {p : Program α} {p' : Program β}
    (h : p.Alike related p') {w w' : World S A τ} (hw : w.Parallels w') (t : τ)
    (hshort : ∀ access ∈ p.accesses t w, access.isShort = true)
    (hshort' : ∀ access ∈ p'.accesses t w', access.isShort = true) :
    related (p.runAlone t w).1 (p'.runAlone t w').1 ∧
      Trace.allocations (p.accesses t w) = Trace.allocations (p'.accesses t w') ∧
      (p.runAlone t w).2.Parallels (p'.runAlone t w').2 := by
  induction h generalizing w w' with
  | done values => exact ⟨values, rfl, hw⟩
  | @step action next next' rest ih =>
    have ⟨hanswers, hworlds⟩ := hw.perform t action
    have ⟨hrelated, hallocations, hafter⟩ := ih _ _ hanswers hworlds
      (List.forall_mem_cons.1 hshort).2 (List.forall_mem_cons.1 hshort').2
    refine ⟨hrelated, ?_, hafter⟩
    unfold Trace.allocations at hallocations ⊢
    unfold Program.accesses
    rw [List.filterMap_cons, List.filterMap_cons, hallocations, Access.allocation?_eq hanswers]
  | @put table key value value' next next' values rest ih =>
    have hvalue := of_decide_eq_true (List.forall_mem_cons.1 hshort).1
    have hvalue' := of_decide_eq_true (List.forall_mem_cons.1 hshort').1
    have ⟨hanswer, hworlds⟩ := hw.put t table key (values hvalue hvalue')
    have ⟨hrelated, hallocations, hafter⟩ := ih _ _ hanswer hworlds
      (List.forall_mem_cons.1 hshort).2 (List.forall_mem_cons.1 hshort').2
    exact ⟨hrelated, hallocations, hafter⟩

end ObjectMeta
