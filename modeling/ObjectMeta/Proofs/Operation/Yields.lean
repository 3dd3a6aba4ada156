import ObjectMeta.Proofs.Operation.Execution

/-!
# What operations yield

What a program comes to under arbitrary answers, as long as each of them is credible
(`Program.Returns`), and the rules that follow the building blocks of operations: an operation in
sequence with another, under a lock, after a check (`Operation.Yields`).  An operation may always
fail, so the rules speak of its value if it succeeds.  Nothing is said of the order of actions here;
facts that depend on it are facts about traces.
-/

namespace ObjectMeta

variable {α β : Type} {credible : Access → Prop}

/-! ## 1. Programs -/

namespace Program

/-- Whatever credible answers the program gets, it comes to a good value. -/
def Returns (credible : Access → Prop) (good : α → Prop) : Program α → Prop
  | done value => good value
  | step action next => ∀ answer, credible ⟨action, answer⟩ → (next answer).Returns credible good

variable {good : α → Prop}

theorem Returns.imp {good' : α → Prop} {p : Program α} (h : p.Returns credible good)
    (hgood : ∀ a, good a → good' a) : p.Returns credible good' := by
  induction p with
  | done value => exact hgood value h
  | step action next ih => exact fun answer hanswer => ih answer (h answer hanswer)

/-- What holds under some answers holds under fewer. -/
theorem Returns.anti {credible' : Access → Prop} {p : Program α} (h : p.Returns credible good)
    (hcredible : ∀ access, credible' access → credible access) : p.Returns credible' good := by
  induction p with
  | done value => exact h
  | step action next ih =>
    exact fun answer hanswer => ih answer (h answer (hcredible _ hanswer))

theorem Returns.bind {mid : α → Prop} {good : β → Prop} {p : Program α} {f : α → Program β}
    (h : p.Returns credible mid) (hf : ∀ a, mid a → (f a).Returns credible good) :
    (p.bind f).Returns credible good := by
  induction p with
  | done value => exact hf value h
  | step action next ih => exact fun answer hanswer => ih answer (h answer hanswer)

theorem returns_of_forall (h : ∀ a, good a) (p : Program α) : p.Returns credible good := by
  induction p with
  | done value => exact h value
  | step action next ih => exact fun answer _ => ih answer

/-- The value at the end of a trace is good if the answers on the way are credible. -/
theorem Returns.of_leads {p : Program α} {trace : Trace} {value : α} (h : p.Returns credible good)
    (hleads : p.Leads trace (done value)) (hcredible : ∀ access ∈ trace, credible access) :
    good value := by
  induction trace generalizing p with
  | nil =>
    rw [leads_nil_iff] at hleads
    rw [hleads] at h
    exact h
  | cons access rest ih =>
    cases p with
    | done value => exact hleads.elim
    | step action next =>
      rcases hleads with ⟨answer, rfl, hrest⟩
      rw [List.forall_mem_cons] at hcredible
      exact ih (h answer hcredible.1) hrest hcredible.2

end Program

/-! ## 2. Operations -/

namespace Operation

def Yields (credible : Access → Prop) (good : α → Prop) (op : Operation α) : Prop :=
  op.run.Returns credible fun result => ∀ a, result = .ok a → good a

variable {good : α → Prop} {op : Operation α}

theorem yields_any (op : Operation α) : op.Yields credible fun _ => True :=
  Program.returns_of_forall (fun _ _ _ => trivial) op.run

theorem yields_pure {a : α} (h : good a) : (pure a : Operation α).Yields credible good := by
  intro a' ha
  cases ha
  exact h

theorem yields_throw (e : OperationError) : (throw e : Operation α).Yields credible good :=
  fun _ h => nomatch h

theorem Yields.mono {good' : α → Prop} (h : op.Yields credible good)
    (hgood : ∀ a, good a → good' a) : op.Yields credible good' :=
  h.imp fun _ hresult a ha => hgood a (hresult a ha)

theorem Yields.bind {good : β → Prop} {mid : α → Prop} {f : α → Operation β}
    (h : op.Yields credible mid) (hf : ∀ a, mid a → (f a).Yields credible good) :
    (op >>= f).Yields credible good := by
  refine Program.Returns.bind h fun result hresult => ?_
  cases result with
  | error e => exact fun _ h => nomatch h
  | ok a => exact hf a (hresult a rfl)

theorem Yields.map {good : β → Prop} {f : α → β} (h : op.Yields credible fun a => good (f a)) :
    (f <$> op).Yields credible good := by
  rw [← bind_pure_comp]
  exact h.bind fun a ha => yields_pure ha

theorem Yields.locked (path : ResourcePath) (mode : LockMode) (h : op.Yields credible good) :
    (locked path mode op).Yields credible good := by
  rw [Yields, run_eq_followedBy, locked_followedBy]
  intro _ _
  exact Program.Returns.bind h fun result hresult _ _ => hresult

/-! ## 3. Actions -/

theorem yields_perform (action : Action) :
    (perform action).Yields credible fun answer => credible ⟨action, answer⟩ := by
  intro answer hanswer a ha
  cases ha
  exact hanswer

theorem yields_ofExcept {ε : Type} (wrap : ε → OperationError) (r : Except ε α) :
    (ofExcept wrap r).Yields credible fun a => r = .ok a := by
  cases r with
  | error e => exact yields_throw (wrap e)
  | ok a => exact yields_pure rfl

theorem yields_mint (owner : String) (block : BlockId) (maxLength : Int64) :
    (mint owner block maxLength).Yields credible fun token? =>
      credible ⟨.mint owner block maxLength, .ok token?⟩ := by
  refine (yields_perform _).bind fun answer hanswer => ?_
  cases answer with
  | error e => exact yields_throw _
  | ok token? => exact yields_pure hanswer

/-- What was read at a path is nothing, or bytes that a record is decoded from. -/
def WasRead {γ : Type} [Stored γ] (credible : Access → Prop) (table : Table)
    (path : ResourcePath) : Option γ → Prop
  | none => credible ⟨.get table path.tableKey, .ok none⟩
  | some record => ∃ bytes, credible ⟨.get table path.tableKey, .ok (some bytes)⟩ ∧
    Stored.decode γ bytes = .ok record

theorem yields_getBytes (table : Table) (path : ResourcePath) :
    (getBytes table path).Yields credible fun bytes? =>
      credible ⟨.get table path.tableKey, .ok bytes?⟩ := by
  refine (yields_perform _).bind fun answer hanswer => ?_
  cases answer with
  | error e => exact yields_throw _
  | ok bytes? => exact yields_pure hanswer

theorem yields_getRecord (γ : Type) [Stored γ] (table : Table) (path : ResourcePath) :
    (getRecord γ table path).Yields credible (WasRead credible table path) := by
  refine (yields_getBytes table path).bind fun bytes? hbytes => ?_
  cases bytes? with
  | none => exact yields_pure hbytes
  | some bytes =>
    exact (yields_ofExcept .codec (Stored.decode γ bytes)).bind fun record hrecord =>
      yields_pure ⟨bytes, hbytes, hrecord⟩

end Operation

end ObjectMeta
