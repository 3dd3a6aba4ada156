import ObjectMeta.Proofs.Concurrency.System

/-!
# What a history says

The history of a system gives every call one index, thread and trace, knows which calls are on their
way and what they have done, and lets a call return once, at the end of its program
(`System.Consistent`).  This holds of every system after every run (`consistent_run`).
-/

namespace ObjectMeta

variable {τ : Type}

/-! ## 1. Reading a history -/

def Event.access? (e : Event τ) : Option Access :=
  match e.happening with
  | .acted access => some access
  | _ => none

def Event.result? (e : Event τ) : Option CallResult :=
  match e.happening with
  | .returned result => some result
  | _ => none

abbrev History (τ : Type) := List (Event τ)

namespace History

def trace (history : History τ) (i : Nat) : Trace :=
  history.filterMap fun e => if e.index = i then e.access? else none

def result? (history : History τ) (i : Nat) : Option CallResult :=
  history.findSome? fun e => if e.index = i then e.result? else none

theorem mem_trace {history : History τ} {i : Nat} {access : Access} :
    access ∈ trace history i ↔ ∃ e ∈ history, e.index = i ∧ e.access? = some access := by
  rw [trace, List.mem_filterMap]
  refine exists_congr fun e => and_congr_right fun _ => ?_
  split
  · next hi => exact ⟨fun h => ⟨hi, h⟩, fun h => h.2⟩
  · next hi => exact ⟨fun h => (by cases h), fun h => absurd h.1 hi⟩

theorem trace_concat (history : History τ) (e : Event τ) (i : Nat) :
    trace (history ++ [e]) i =
      trace history i ++ if e.index = i then e.access?.toList else [] := by
  rw [trace, List.filterMap_append, ← trace]
  congr 1
  rw [List.filterMap_cons]
  split <;> split <;> simp_all

theorem trace_concat_of_ne {history : History τ} {e : Event τ} {i : Nat} (h : e.index ≠ i) :
    trace (history ++ [e]) i = trace history i := by
  rw [trace_concat, if_neg h, List.append_nil]

theorem trace_concat_of_silent {history : History τ} {e : Event τ} (h : e.access? = none)
    (i : Nat) : trace (history ++ [e]) i = trace history i := by
  rw [trace_concat, h, Option.toList_none, ite_self, List.append_nil]

theorem trace_eq_nil {history : History τ} {i : Nat} (h : ∀ e ∈ history, e.index ≠ i) :
    trace history i = [] := by
  rw [trace, List.filterMap_eq_nil_iff]
  intro e he
  rw [if_neg (h e he)]

theorem result?_concat (history : History τ) (e : Event τ) (i : Nat) :
    result? (history ++ [e]) i =
      (result? history i).or (if e.index = i then e.result? else none) := by
  rw [result?, List.findSome?_append, ← result?, List.findSome?_singleton]

theorem result?_concat_of_pending {history : History τ} {e : Event τ} (h : e.result? = none)
    (i : Nat) : result? (history ++ [e]) i = result? history i := by
  rw [result?_concat, h, ite_self, Option.or_none]

/-- A result stays what it is when more happens. -/
theorem result?_of_prefix {history history' : History τ} (h : history <+: history') {i : Nat}
    {result : CallResult} (hr : result? history i = some result) :
    result? history' i = some result := by
  obtain ⟨later, rfl⟩ := h
  unfold result? at hr ⊢
  rw [List.findSome?_append, hr]
  rfl

theorem exists_of_result? {history : History τ} {i : Nat} {result : CallResult}
    (h : result? history i = some result) :
    ∃ e ∈ history, e.index = i ∧ e.result? = some result := by
  obtain ⟨e, he, hr⟩ := List.exists_of_findSome?_eq_some h
  split at hr
  · next hi => exact ⟨e, he, hi, hr⟩
  · cases hr

theorem result?_eq_none_iff {history : History τ} {i : Nat} :
    result? history i = none ↔ ∀ e ∈ history, e.index = i → e.result? = none := by
  simp only [result?, List.findSome?_eq_none_iff, ite_eq_right_iff]

/-- Indices stay below the number of events. -/
theorem fresh_concat {history : History τ} {e : Event τ}
    (h : ∀ e' ∈ history, e'.index < history.length) (he : e.index ≤ history.length) :
    ∀ e' ∈ history ++ [e], e'.index < (history ++ [e]).length := by
  intro e' he'
  rw [List.length_append, List.length_singleton]
  obtain he' | he' := List.mem_append.1 he'
  · exact Nat.lt_succ_of_lt (h e' he')
  · rw [List.mem_singleton.1 he']
    exact Nat.lt_succ_of_le he

/-- Events with the same index are of the same call. -/
theorem same_concat {history : History τ} {e : Event τ}
    (h : ∀ e' ∈ history, ∀ e'' ∈ history, e'.index = e''.index →
      e'.thread = e''.thread ∧ e'.call = e''.call)
    (he : ∀ e' ∈ history, e'.index = e.index → e'.thread = e.thread ∧ e'.call = e.call) :
    ∀ e' ∈ history ++ [e], ∀ e'' ∈ history ++ [e], e'.index = e''.index →
      e'.thread = e''.thread ∧ e'.call = e''.call := by
  intro e' he' e'' he'' hi
  rw [List.mem_append, List.mem_singleton] at he' he''
  obtain he' | rfl := he' <;> obtain he'' | rfl := he''
  · exact h e' he' e'' he'' hi
  · exact he e' he' hi
  · exact (he e'' he'' hi.symm).imp Eq.symm Eq.symm
  · exact ⟨rfl, rfl⟩

end History

/-! ## 2. Histories and calls on their way -/

namespace System

variable {service : KeyService} {S : SignatureScheme} {A : AllocationService}

/-- The history and the calls on their way belong together. -/
structure Consistent (s : System service S A τ) : Prop where
  fresh : ∀ e ∈ s.history, e.index < s.history.length
  same : ∀ e ∈ s.history, ∀ e' ∈ s.history, e.index = e'.index →
    e.thread = e'.thread ∧ e.call = e'.call
  began : ∀ t a, s.running t = some a → ⟨a.index, t, a.call, .began⟩ ∈ s.history
  trace : ∀ t a, s.running t = some a → History.trace s.history a.index = a.trace
  unreturned : ∀ t a, s.running t = some a → History.result? s.history a.index = none
  complete : ∀ e ∈ s.history, ∀ result, History.result? s.history e.index = some result →
    (e.call.program service).Leads (History.trace s.history e.index) (.done result)
  accounted : ∀ e ∈ s.history, (∃ a, s.running e.thread = some a ∧ a.index = e.index) ∨
    ∃ result, History.result? s.history e.index = some result

/-- A call on its way is at one thread only. -/
theorem Consistent.unique {s : System service S A τ} (h : s.Consistent) {t t' : τ}
    {a a' : Activity service} (hrun : s.running t = some a) (hrun' : s.running t' = some a')
    (hi : a.index = a'.index) : t = t' :=
  (h.same _ (h.began t a hrun) _ (h.began t' a' hrun') hi).1

theorem Consistent.index_lt {s : System service S A τ} (h : s.Consistent) {t : τ}
    {a : Activity service} (hrun : s.running t = some a) : a.index < s.history.length :=
  h.fresh _ (h.began t a hrun)

/-- The events of a call on its way are of its thread. -/
theorem Consistent.same_of_running {s : System service S A τ} (h : s.Consistent) {t : τ}
    {a : Activity service} (hrun : s.running t = some a) :
    ∀ e ∈ s.history, e.index = a.index → e.thread = t ∧ e.call = a.call :=
  fun e he hi => h.same e he _ (h.began t a hrun) hi

/-- What a call has done, it has done on the way of its program. -/
theorem Consistent.exists_leads {s : System service S A τ} (h : s.Consistent) {e : Event τ}
    (he : e ∈ s.history) :
    ∃ rest, (e.call.program service).Leads (History.trace s.history e.index) rest := by
  rcases h.accounted e he with ⟨a, hrun, hindex⟩ | ⟨result, hresult⟩
  · have hcall := (h.same _ (h.began _ a hrun) e he hindex).2
    refine ⟨a.rest, ?_⟩
    rw [← hcall, ← hindex, h.trace _ a hrun]
    exact a.leads
  · exact ⟨_, h.complete e he result hresult⟩

theorem consistent_empty (w : World S A τ) :
    ({ world := w } : System service S A τ).Consistent := by
  constructor <;> simp

variable [DecidableEq τ]

/-- A thread that goes on to something else leaves the other calls accounted for. -/
theorem Consistent.accounted_update {s : System service S A τ} (h : s.Consistent) {t : τ}
    {x : Option (Activity service)} {e : Event τ} (he : e ∈ s.history)
    (hother : ∀ a, s.running t = some a → a.index ≠ e.index) :
    (∃ a, Function.update s.running t x e.thread = some a ∧ a.index = e.index) ∨
      ∃ result, History.result? s.history e.index = some result := by
  obtain ⟨a, hrun, hi⟩ | hr := h.accounted e he
  · refine .inl ⟨a, ?_, hi⟩
    rw [Function.update_of_ne, hrun]
    intro ht
    exact hother a (ht ▸ hrun) hi
  · exact .inr hr

theorem Consistent.begin {s : System service S A τ} (h : s.Consistent) {t : τ} (call : Call)
    (hidle : s.running t = none) : (s.begin t call).Consistent := by
  -- The number of events is an index that no event has.
  have hnew : ∀ e ∈ s.history, e.index ≠ s.history.length :=
    fun e he => Nat.ne_of_lt (h.fresh e he)
  have htrace : ∀ i, History.trace (s.begin t call).history i = History.trace s.history i :=
    History.trace_concat_of_silent rfl
  have hresult : ∀ i, History.result? (s.begin t call).history i = History.result? s.history i :=
    History.result?_concat_of_pending rfl
  have hnone : History.result? s.history s.history.length = none :=
    History.result?_eq_none_iff.2 fun e he hi => absurd hi (hnew e he)
  exact {
    fresh := History.fresh_concat h.fresh (Nat.le_refl _)
    same := History.same_concat h.same fun e he hi => absurd hi (hnew e he)
    began := by
      intro t' a hrun
      obtain ⟨rfl, ha⟩ | ⟨-, hrun⟩ := update_eq_some_iff.1 hrun
      · cases ha
        exact List.mem_append_right _ (List.mem_singleton_self _)
      · exact List.mem_append_left _ (h.began t' a hrun)
    trace := by
      intro t' a hrun
      rw [htrace]
      obtain ⟨rfl, ha⟩ | ⟨-, hrun⟩ := update_eq_some_iff.1 hrun
      · cases ha
        exact History.trace_eq_nil hnew
      · exact h.trace t' a hrun
    unreturned := by
      intro t' a hrun
      rw [hresult]
      obtain ⟨rfl, ha⟩ | ⟨-, hrun⟩ := update_eq_some_iff.1 hrun
      · cases ha
        exact hnone
      · exact h.unreturned t' a hrun
    complete := by
      intro e he result hr
      rw [hresult] at hr
      rw [htrace]
      simp only [System.begin, List.mem_append, List.mem_singleton] at he
      obtain he | rfl := he
      · exact h.complete e he result hr
      · rw [hnone] at hr
        cases hr
    accounted := by
      intro e he
      simp only [hresult]
      simp only [System.begin, List.mem_append, List.mem_singleton] at he ⊢
      obtain he | rfl := he
      · refine h.accounted_update he fun a hrun => ?_
        rw [hidle] at hrun
        cases hrun
      · exact .inl ⟨.start s.history.length call, Function.update_self .., rfl⟩ }

theorem Consistent.act {s : System service S A τ} (h : s.Consistent) {t : τ}
    {a : Activity service} {action : Action} {next : action.Answer → Program CallResult}
    (hrun : s.running t = some a) (hrest : a.rest = .step action next) :
    (s.act t a hrest).Consistent := by
  have hbegan := h.began t a hrun
  have hresult : ∀ i, History.result? (s.act t a hrest).history i =
      History.result? s.history i := History.result?_concat_of_pending rfl
  have hsame := h.same_of_running hrun
  exact {
    fresh := History.fresh_concat h.fresh (Nat.le_of_lt (h.index_lt hrun))
    same := History.same_concat h.same hsame
    began := by
      intro t' a' hrun'
      obtain ⟨rfl, ha⟩ | ⟨-, hrun'⟩ := update_eq_some_iff.1 hrun'
      · cases ha
        exact List.mem_append_left _ hbegan
      · exact List.mem_append_left _ (h.began t' a' hrun')
    trace := by
      intro t' a' hrun'
      obtain ⟨rfl, ha⟩ | ⟨ht, hrun'⟩ := update_eq_some_iff.1 hrun'
      · cases ha
        show History.trace (s.history ++ [_]) a.index = _
        rw [History.trace_concat, if_pos rfl, h.trace t' a hrun]
        rfl
      · show History.trace (s.history ++ [_]) a'.index = _
        rw [History.trace_concat_of_ne (fun hi => ht (h.unique hrun hrun' hi).symm)]
        exact h.trace t' a' hrun'
    unreturned := by
      intro t' a' hrun'
      rw [hresult]
      obtain ⟨rfl, ha⟩ | ⟨-, hrun'⟩ := update_eq_some_iff.1 hrun'
      · cases ha
        exact h.unreturned t' a hrun
      · exact h.unreturned t' a' hrun'
    complete := by
      intro e he result hr
      rw [hresult] at hr
      -- A call that acts has not returned, so those that have are other calls.
      have hne : a.index ≠ e.index := by
        intro hi
        rw [← hi, h.unreturned t a hrun] at hr
        cases hr
      simp only [System.act, List.mem_append, List.mem_singleton] at he ⊢
      rw [History.trace_concat_of_ne hne]
      obtain he | rfl := he
      · exact h.complete e he result hr
      · exact absurd rfl hne
    accounted := by
      intro e he
      simp only [hresult]
      have hat : ∀ e : Event τ, e.index = a.index → e.thread = t →
          ∃ a', (s.act t a hrest).running e.thread = some a' ∧ a'.index = e.index := by
        intro e hi ht
        exact ⟨a.answered hrest _, by rw [ht]; exact Function.update_self .., hi.symm⟩
      simp only [System.act, List.mem_append, List.mem_singleton] at he ⊢
      obtain he | rfl := he
      · by_cases hi : e.index = a.index
        · exact .inl (hat e hi (hsame e he hi).1)
        · refine h.accounted_update he fun a' hrun' => ?_
          rw [hrun, Option.some.injEq] at hrun'
          exact hrun' ▸ Ne.symm hi
      · exact .inl (hat _ rfl rfl) }

theorem Consistent.finish {s : System service S A τ} (h : s.Consistent) {t : τ}
    {a : Activity service} {result : CallResult} (hrun : s.running t = some a)
    (hrest : a.rest = .done result) : (s.finish t a result).Consistent := by
  have htrace : ∀ i, History.trace (s.finish t a result).history i = History.trace s.history i :=
    History.trace_concat_of_silent rfl
  have hresult : ∀ i, a.index ≠ i →
      History.result? (s.finish t a result).history i = History.result? s.history i := by
    intro i hi
    rw [System.finish, History.result?_concat, if_neg hi, Option.or_none]
  have hown : History.result? (s.finish t a result).history a.index = some result := by
    rw [System.finish, History.result?_concat, h.unreturned t a hrun, if_pos rfl]
    rfl
  have hsame := h.same_of_running hrun
  have hleft : ∀ t' a', (s.finish t a result).running t' = some a' →
      t' ≠ t ∧ s.running t' = some a' := by
    intro t' a' hrun'
    obtain ⟨-, ha⟩ | hrun' := update_eq_some_iff.1 hrun'
    · cases ha
    · exact hrun'
  exact {
    fresh := History.fresh_concat h.fresh (Nat.le_of_lt (h.index_lt hrun))
    same := History.same_concat h.same hsame
    began := by
      intro t' a' hrun'
      exact List.mem_append_left _ (h.began t' a' (hleft t' a' hrun').2)
    trace := by
      intro t' a' hrun'
      rw [htrace]
      exact h.trace t' a' (hleft t' a' hrun').2
    unreturned := by
      intro t' a' hrun'
      obtain ⟨ht, hrun'⟩ := hleft t' a' hrun'
      rw [hresult _ (fun hi => ht (h.unique hrun hrun' hi).symm)]
      exact h.unreturned t' a' hrun'
    complete := by
      intro e he r hr
      rw [htrace]
      -- the call that returns is at the end of its program
      by_cases hi : a.index = e.index
      · rw [← hi, hown, Option.some.injEq] at hr
        have hcall : e.call = a.call := by
          simp only [System.finish, List.mem_append, List.mem_singleton] at he
          obtain he | rfl := he
          · exact (hsame e he hi.symm).2
          · rfl
        rw [hcall, ← hi, h.trace t a hrun, ← hr, ← hrest]
        exact a.leads
      · rw [hresult _ hi] at hr
        simp only [System.finish, List.mem_append, List.mem_singleton] at he
        obtain he | rfl := he
        · exact h.complete e he r hr
        · exact absurd rfl hi
    accounted := by
      intro e he
      -- the thread is at no call any more, but its call has returned
      by_cases hi : a.index = e.index
      · exact .inr ⟨result, hi ▸ hown⟩
      · rw [hresult _ hi]
        simp only [System.finish, List.mem_append, List.mem_singleton] at he ⊢
        obtain he | rfl := he
        · refine h.accounted_update he fun a' hrun' => ?_
          rw [hrun, Option.some.injEq] at hrun'
          exact hrun' ▸ hi
        · exact absurd rfl hi }

theorem Consistent.transition {s s' : System service S A τ} {m : Move S A τ} (h : s.Consistent)
    (ht : Transition m s s') : s'.Consistent := by
  cases ht with
  | begin hidle => exact h.begin _ hidle
  | act hrun hrest => exact h.act hrun hrest
  | finish hrun hrest => exact h.finish hrun hrest
  | disturb =>
    exact ⟨h.fresh, h.same, h.began, h.trace, h.unreturned, h.complete, h.accounted⟩

theorem consistent_run {s : System service S A τ} (h : s.Consistent) (moves : List (Move S A τ)) :
    (s.run moves).Consistent :=
  run_induction (fun _ => True) (fun _ _ _ _ ht hs => hs.transition ht) h
    fun _ _ => trivial

end System

end ObjectMeta
