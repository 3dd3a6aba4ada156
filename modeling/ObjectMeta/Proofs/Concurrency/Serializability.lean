import Mathlib.Data.List.Permutation
import ObjectMeta.Crypto.Ed25519
import ObjectMeta.Proofs.Concurrency.Replay

/-!
# Serializability

Threads that run guarded calls over a store that does not fail, with clocks and authority that do
not change, do what the same calls do one at a time in some order that respects real time.

A call takes effect at the action after which it is settled: up to there it has learned only what
cannot change under its locks, so it can be moved as a whole to that point of the serial run.  What
it still owes, one open key at most, is under its write lock.  The invariant (`Explained`) keeps a
serial run of the calls that have taken effect, and a world at its end that differs from the shared
one only by the open keys that are owed.
-/

namespace ObjectMeta

variable {service : KeyService} {S : SignatureScheme} {A : AllocationService} {τ : Type}

def indices (order : List (Served τ)) : List Nat := order.map (·.index)

def Event.served? (e : Event τ) : Option (Served τ) :=
  e.result?.map fun result => ⟨e.index, e.thread, e.call, result⟩

/-- The calls that have returned, in the order of their ends. -/
def History.served (history : History τ) : List (Served τ) := history.filterMap Event.served?

/-- One call returned before another began. -/
def Precedes (history : History τ) (i j : Nat) : Prop :=
  ∃ e e' : Event τ, [e, e'].Sublist history ∧ e.index = i ∧ e.result?.isSome = true ∧
    e'.index = j ∧ e'.happening = .began

def Move.Calm : Move S A τ → Prop
  | disturb _ => False
  | _ => True

/-! ## 1. Serial runs and histories -/

/-- A serial run holds calls of the history, each once, those that returned with their results, and
in an order that respects real time. -/
structure Recorded (history : History τ) (order : List (Served τ)) : Prop where
  known : ∀ entry ∈ order, ⟨entry.index, entry.thread, entry.call, .began⟩ ∈ history
  returned : ∀ entry ∈ History.served history, entry ∈ order
  nodup : (indices order).Nodup
  respects : ∀ i j, Precedes history i j → j ∈ indices order → [i, j].Sublist (indices order)

theorem pair_sublist_concat {α : Type} {x y z : α} {l : List α} :
    [x, y].Sublist (l ++ [z]) ↔ [x, y].Sublist l ∨ x ∈ l ∧ y = z := by
  constructor
  · -- turned round, the last element comes first, where sublists can be split
    intro h
    rw [← List.reverse_sublist, List.reverse_append] at h
    obtain h | ⟨r, hr, h⟩ := List.sublist_cons_iff.1 h
    · rw [← List.reverse_sublist]
      exact .inl h
    · obtain ⟨hy, rfl⟩ := List.cons.inj (show y :: [x] = z :: r from hr)
      exact .inr ⟨List.mem_reverse.1 (List.singleton_sublist.1 h), hy⟩
  · rintro (h | ⟨hx, rfl⟩)
    · exact h.trans (List.sublist_append_left ..)
    · exact (List.singleton_sublist.2 hx).append (List.Sublist.refl [y])

theorem History.mem_served_concat {history : History τ} {e : Event τ} {entry : Served τ} :
    entry ∈ served (history ++ [e]) ↔ entry ∈ served history ∨ e.served? = some entry := by
  rw [served, List.filterMap_append, List.mem_append, ← served]
  refine or_congr_right ?_
  rw [List.mem_filterMap]
  simp

theorem mem_indices_concat {order : List (Served τ)} {entry : Served τ} {i : Nat} :
    i ∈ indices (order ++ [entry]) ↔ i ∈ indices order ∨ i = entry.index := by
  rw [indices, List.map_append, List.mem_append, ← indices]
  simp

theorem Recorded.returned_mem {history : History τ} {order : List (Served τ)}
    (h : Recorded history order) {i j : Nat} (hp : Precedes history i j) : i ∈ indices order := by
  obtain ⟨e, e', hsub, rfl, hr, -⟩ := hp
  obtain ⟨result, hresult⟩ := Option.isSome_iff_exists.1 hr
  have hserved : ⟨e.index, e.thread, e.call, result⟩ ∈ History.served history :=
    List.mem_filterMap.2 ⟨e, hsub.subset (List.mem_cons_self ..), by
      rw [Event.served?, hresult]; rfl⟩
  exact List.mem_map.2 ⟨_, h.returned _ hserved, rfl⟩

theorem Recorded.entry_unique {history : History τ} {order : List (Served τ)}
    (h : Recorded history order) {entry entry' : Served τ} (he : entry ∈ order)
    (he' : entry' ∈ order) (hi : entry.index = entry'.index) : entry = entry' :=
  List.inj_on_of_nodup_map h.nodup he he' hi

/-- One more event, which ends a call only if it is listed, and begins one only if it is not. -/
theorem Recorded.concat {history : History τ} {order : List (Served τ)} (h : Recorded history order)
    {event : Event τ} (hserved : ∀ entry, event.served? = some entry → entry ∈ order)
    (hbegins : event.happening = .began → event.index ∉ indices order) :
    Recorded (history ++ [event]) order where
  known entry he := List.mem_append_left _ (h.known entry he)
  returned entry he := (History.mem_served_concat.1 he).elim (h.returned entry) (hserved entry)
  nodup := h.nodup
  respects i j hp hj := by
    obtain ⟨e, e', hsub, hi, hr, hj', hbegan⟩ := hp
    -- a call that begins now is preceded by all that returned, but it is not served yet
    obtain hsub | ⟨-, rfl⟩ := pair_sublist_concat.1 hsub
    · exact h.respects i j ⟨e, e', hsub, hi, hr, hj', hbegan⟩ hj
    · subst hj'
      exact absurd hj (hbegins hbegan)

theorem Recorded.acted {history : History τ} {order : List (Served τ)} (h : Recorded history order)
    {i : Nat} {t : τ} {call : Call} {access : Access} :
    Recorded (history ++ [⟨i, t, call, .acted access⟩]) order :=
  h.concat (fun _ hentry => by cases hentry) fun hbegan => by cases hbegan

theorem Recorded.began {history : History τ} {order : List (Served τ)} (h : Recorded history order)
    {i : Nat} {t : τ} {call : Call} (hi : i ∉ indices order) :
    Recorded (history ++ [⟨i, t, call, .began⟩]) order :=
  h.concat (fun _ hentry => by cases hentry) fun _ => hi

theorem Recorded.finished {history : History τ} {order : List (Served τ)}
    (h : Recorded history order) {i : Nat} {t : τ} {call : Call} {result : CallResult}
    (hi : ⟨i, t, call, result⟩ ∈ order) :
    Recorded (history ++ [⟨i, t, call, .returned result⟩]) order :=
  h.concat (fun _ hentry => Option.some.inj hentry ▸ hi) fun hbegan => by cases hbegan

/-- One more call takes effect, after all others. -/
theorem Recorded.serve {history : History τ} {order : List (Served τ)} (h : Recorded history order)
    {entry : Served τ} (hbegan : ⟨entry.index, entry.thread, entry.call, .began⟩ ∈ history)
    (hnew : entry.index ∉ indices order) : Recorded history (order ++ [entry]) where
  known entry' he := by
    obtain he | he := List.mem_append.1 he
    · exact h.known entry' he
    · cases List.mem_singleton.1 he
      exact hbegan
  returned entry he := List.mem_append_left _ (h.returned entry he)
  nodup := by
    rw [indices, List.map_append]
    refine List.nodup_append.2 ⟨h.nodup, List.pairwise_singleton _ _, fun i hi j hj hij => ?_⟩
    cases List.mem_singleton.1 hj
    subst hij
    exact hnew hi
  respects i j hp hj := by
    rw [indices, List.map_append]
    refine pair_sublist_concat.2 ?_
    -- whatever precedes the new call has returned, so it is served before
    obtain hj | rfl := mem_indices_concat.1 hj
    · exact .inl (h.respects i j hp hj)
    · exact .inr ⟨h.returned_mem hp, rfl⟩

theorem Access.Persists.isHarmless {access : Access} {held : List LockGuard}
    (h : access.Persists held) : access.action.isHarmless = true := by
  obtain ⟨action, answer⟩ := access
  cases action with
  | release | put | delete => exact h.elim
  | _ => rfl

namespace System

/-! ## 2. The shared world and the serial one -/

/-- The call that a thread is at, if any, has taken effect and is still to write this open key. -/
def Owes (w₀ : World S A τ) (taken : List Nat) (at_call : Option (Activity service))
    (key value : Bytes) : Prop :=
  ∃ a, at_call = some a ∧ a.index ∈ taken ∧ a.rest.owes w₀ = some (key, value)

def Owing (w₀ : World S A τ) (s : System service S A τ) (taken : List Nat) (key value : Bytes) :
    Prop :=
  ∃ t, Owes w₀ taken (s.running t) key value

/-- The world of the calls that have taken effect differs from the shared one by the open keys that
they are still to write. -/
structure Matches (w₀ : World S A τ) (s : System service S A τ) (taken : List Nat)
    (σ : World S A τ) : Prop where
  steady : s.world.Steady w₀
  steady' : σ.Steady w₀
  allocator : σ.allocator = s.world.allocator
  owed : ∀ key value, Owing w₀ s taken key value → σ.store.store.get .openKeys key = some value
  clear : ∀ table key, (table = .openKeys → ∀ value, ¬Owing w₀ s taken key value) →
    σ.store.store.get table key = s.world.store.store.get table key

/-- A call that has not taken effect has learned only what lasts. -/
structure Growing (w₀ : World S A τ) (a : Activity service) : Prop where
  gathers : a.rest.Gathers a.trace
  persists : ∀ before access after, a.trace = before ++ access :: after →
    access.Persists (Trace.held before)
  clock : ∀ time, (⟨.now, time⟩ : Access) ∈ a.trace → time = w₀.clock

variable [DecidableEq τ]

/-- A call that has taken effect will return what it returned in the serial run. -/
def Decided (w₀ : World S A τ) (order : List (Served τ)) (t : τ) (a : Activity service) : Prop :=
  (∃ mayPut, a.rest.Settled mayPut) ∧ ⟨a.index, t, a.call, (a.rest.runAlone t w₀).1⟩ ∈ order

variable {w₀ σ : World S A τ} {s s' : System service S A τ} {taken : List Nat} {t : τ}
  {a : Activity service}

omit [DecidableEq τ] in
/-- What matched goes on matching while nothing that it speaks of changes. -/
theorem Matches.congr {taken' : List Nat} (h : Matches w₀ s taken σ)
    (hsteady : s'.world.Steady w₀) (hallocator : s'.world.allocator = s.world.allocator)
    (hstore : s'.world.store.store = s.world.store.store)
    (howing : ∀ key value, Owing w₀ s' taken' key value ↔ Owing w₀ s taken key value) :
    Matches w₀ s' taken' σ where
  steady := hsteady
  steady' := h.steady'
  allocator := h.allocator.trans hallocator.symm
  owed key value ho := h.owed key value ((howing key value).1 ho)
  clear table key hc := by
    rw [hstore]
    exact h.clear table key fun ht value ho => hc ht value ((howing key value).2 ho)

/-- An entry that a thread covers is owed by no other call. -/
theorem not_owing_of_covers (ho : s.Orderly)
    (hsettled : ∀ t a, s.running t = some a → a.index ∈ taken → ∃ mayPut, a.rest.Settled mayPut)
    (hrun : s.running t = some a) (hi : a.index ∉ taken) {mode : LockMode} {key value : Bytes}
    (hc : Covers a.trace.held mode .openKeys key) : ¬Owing w₀ s taken key value := by
  rintro ⟨t', a', hrun', hi', howes⟩
  -- The call that owes the entry still covers it for writing, so it would have to be the same call.
  obtain ⟨mayPut, hset⟩ := hsettled t' a' hrun' hi'
  have hw := hset.covered (ho.disciplined t' a' hrun') howes
  by_cases ht : t' = t
  · subst ht
    rw [hrun, Option.some.injEq] at hrun'
    exact hi (hrun' ▸ hi')
  · rw [← held_of_running hrun'] at hw
    rw [← held_of_running hrun] at hc
    exact ho.tracked.not_covers ht hw hc

/-- A call that has not taken effect sees the same in the serial world, wherever it may look. -/
theorem Matches.get_eq (h : Matches w₀ s taken σ) (ho : s.Orderly)
    (hsettled : ∀ t a, s.running t = some a → a.index ∈ taken → ∃ mayPut, a.rest.Settled mayPut)
    (hrun : s.running t = some a) (hi : a.index ∉ taken) (table : Table) (key : Bytes)
    (hc : table = .openKeys → Covers a.trace.held .read table key) :
    σ.store.store.get table key = s.world.store.store.get table key := by
  refine h.clear table key fun ht value => ?_
  have hcover := hc ht
  rw [ht] at hcover
  exact not_owing_of_covers ho hsettled hrun hi hcover

/-- What a growing call has learned, it would learn again in the serial world. -/
theorem Growing.replays (hg : Growing w₀ a) (h : Matches w₀ s taken σ) (ho : s.Orderly)
    (hsettled : ∀ t a, s.running t = some a → a.index ∈ taken → ∃ mayPut, a.rest.Settled mayPut)
    (hrun : s.running t = some a) (hi : a.index ∉ taken) :
    ∀ access ∈ a.trace, access.Replays σ := by
  have hintact : a.trace.Intact := by
    intro access hmem
    obtain ⟨before, after, htrace⟩ := List.append_of_mem hmem
    exact (hg.persists before access after htrace).isHarmless
  intro access hmem
  obtain ⟨before, after, htrace⟩ := List.append_of_mem hmem
  have hp := hg.persists before access after htrace
  have hs := ho.stable t a hrun hintact before access after htrace hp
  -- Locks are only taken while a call gathers, so the cover of the time of reading is still there.
  have hmono : ∀ g ∈ Trace.held before, g ∈ a.trace.held := by
    have hafter : Trace.Intact (access :: after) := fun x hx =>
      hintact x (htrace ▸ List.mem_append_right _ hx)
    rw [htrace]
    exact hafter.held_mono before
  obtain ⟨action, answer⟩ := access
  cases action with
  | acquire path mode => trivial
  | now => exact (hg.clock answer hmem).trans h.steady'.clock.symm
  | get table key =>
    cases answer with
    | error e => exact hp.elim
    | ok value =>
      have heq := h.get_eq ho hsettled hrun hi table key fun ht => by
        obtain hkeys | hcover := hp
        · rw [hkeys] at ht
          cases ht
        · exact hcover.mono hmono
      show Except.ok value = .ok (σ.store.store.get table key)
      rw [heq]
      exact congrArg Except.ok hs.symm
  | contains table key =>
    cases answer with
    | error e => exact hp.elim
    | ok found =>
      have heq := h.get_eq ho hsettled hrun hi table key fun ht => by
        obtain ⟨hvolumes, -⟩ | hcover := hp
        · rw [hvolumes] at ht
          cases ht
        · exact hcover.mono hmono
      show Except.ok found = .ok (σ.store.store.get table key).isSome
      rw [heq]
      exact congrArg Except.ok hs.symm
  | _ => exact hp.elim

theorem owing_update {x : Option (Activity service)}
    (hrunning : s'.running = Function.update s.running t x)
    (hx : ∀ key value, Owes w₀ taken x key value ↔ Owes w₀ taken (s.running t) key value)
    (key value : Bytes) : Owing w₀ s' taken key value ↔ Owing w₀ s taken key value := by
  refine exists_congr fun t' => ?_
  rw [hrunning]
  by_cases ht : t' = t
  · subst ht
    rw [Function.update_self]
    exact hx key value
  · rw [Function.update_of_ne ht]

/-- A call that has not taken effect owes nothing, before it acts and after. -/
theorem owing_act (hrun : s.running t = some a) (hi : a.index ∉ taken) {action : Action}
    {next : action.Answer → Program CallResult} (hrest : a.rest = .step action next)
    (key value : Bytes) :
    Owing w₀ (s.act t a hrest) taken key value ↔ Owing w₀ s taken key value := by
  refine owing_update rfl (fun key value => ⟨?_, ?_⟩) key value
  · rintro ⟨a', ha, hi', -⟩
    cases ha
    exact absurd hi' hi
  · rintro ⟨a', ha, hi', -⟩
    rw [hrun, Option.some.injEq] at ha
    exact absurd (ha ▸ hi') hi

/-- A call that has not taken effect gets the same answer from both worlds, and they match after. -/
theorem Matches.gather (h : Matches w₀ s taken σ) (ho : s.Orderly)
    (hsettled : ∀ t a, s.running t = some a → a.index ∈ taken → ∃ mayPut, a.rest.Settled mayPut)
    (hrun : s.running t = some a) (hi : a.index ∉ taken) {action : Action}
    {next : action.Answer → Program CallResult} (hrest : a.rest = .step action next)
    (hgather : action.Gathering a.trace.held) :
    (s.world.perform t action).1 = (σ.perform t action).1 ∧
      Matches w₀ (s.act t a hrest) taken (σ.perform t action).2 := by
  have howing : ∀ key value, Owing w₀ (s.act t a hrest) taken key value ↔
      Owing w₀ s taken key value := owing_act hrun hi hrest
  have hget := h.get_eq ho hsettled hrun hi
  -- The answers agree, and where the tables agreed before the action they agree after it.
  have hcases : (s.world.perform t action).1 = (σ.perform t action).1 ∧
      (σ.perform t action).2.allocator = (s.world.perform t action).2.allocator ∧
      (∀ key, (σ.perform t action).2.store.store.get .openKeys key =
        σ.store.store.get .openKeys key) ∧
      ∀ table key, σ.store.store.get table key = s.world.store.store.get table key →
        (σ.perform t action).2.store.store.get table key =
          (s.world.perform t action).2.store.store.get table key := by
    cases action with
    | acquire path mode => exact ⟨rfl, h.allocator, fun _ => rfl, fun _ _ heq => heq⟩
    | now =>
      exact ⟨h.steady.clock.trans h.steady'.clock.symm, h.allocator, fun _ => rfl,
        fun _ _ heq => heq⟩
    | allocate request =>
      have hanswer : (A.allocate request s.world.allocator).1 =
          (A.allocate request σ.allocator).1 := by rw [h.allocator]
      have hallocator : (A.allocate request σ.allocator).2 =
          (A.allocate request s.world.allocator).2 := by rw [h.allocator]
      exact ⟨hanswer, hallocator, fun _ => rfl, fun _ _ heq => heq⟩
    | get table key =>
      rw [World.perform_get h.steady.faults, World.perform_get h.steady'.faults,
        hget table key hgather]
      exact ⟨rfl, h.allocator, fun _ => rfl, fun _ _ heq => heq⟩
    | contains table key =>
      rw [World.perform_contains h.steady.faults, World.perform_contains h.steady'.faults,
        Store.contains, Store.contains, hget table key fun ht => absurd ht hgather]
      exact ⟨rfl, h.allocator, fun _ => rfl, fun _ _ heq => heq⟩
    | put table key value =>
      rw [World.perform_put h.steady.faults, World.perform_put h.steady'.faults]
      refine ⟨rfl, h.allocator, fun key' => ?_, fun table' key' heq => ?_⟩
      · exact (Store.get_put ..).trans (if_neg fun hsame => hgather hsame.1)
      · exact (Store.get_put ..).trans (heq ▸ (Store.get_put ..).symm)
    | _ => exact hgather.elim
  obtain ⟨hanswer, hallocator, hopen, hstore⟩ := hcases
  exact ⟨hanswer, h.steady.perform t action, h.steady'.perform t action, hallocator,
    fun key value howes => (hopen key).trans (h.owed key value ((howing key value).1 howes)),
    fun table key hc => hstore table key
      (h.clear table key fun ht value howes => hc ht value ((howing key value).2 howes))⟩

/-! ## 3. Taking effect -/

omit [DecidableEq τ] in
theorem owing_concat (hc : s.Consistent) (hrun : s.running t = some a) (key value : Bytes) :
    Owing w₀ s (taken ++ [a.index]) key value ↔
      Owing w₀ s taken key value ∨ a.rest.owes w₀ = some (key, value) := by
  constructor
  · rintro ⟨t', a', hrun', hi', howes⟩
    obtain hi' | hi' := List.mem_append.1 hi'
    · exact .inl ⟨t', a', hrun', hi', howes⟩
    · have ht := hc.unique hrun' hrun (List.mem_singleton.1 hi')
      subst ht
      rw [hrun, Option.some.injEq] at hrun'
      exact .inr (hrun' ▸ howes)
  · rintro (⟨t', a', hrun', hi', howes⟩ | howes)
    · exact ⟨t', a', hrun', List.mem_append_left _ hi', howes⟩
    · exact ⟨t, a, hrun, List.mem_append_right _ (List.mem_singleton_self _), howes⟩

/-- When a call is settled, the serial run is continued by all that is left of it. -/
theorem Matches.serve (h : Matches w₀ s taken σ) (ho : s.Orderly) (hc : s.Consistent)
    (hsettled : ∀ t a, s.running t = some a → a.index ∈ taken → ∃ mayPut, a.rest.Settled mayPut)
    (hrun : s.running t = some a) (hi : a.index ∉ taken) {mayPut : Bool}
    (hset : a.rest.Settled mayPut) :
    Matches w₀ s (taken ++ [a.index]) (a.rest.runAlone t σ).2 := by
  have hcontents := hset.contents h.steady' t
  refine ⟨h.steady, Program.runAlone_steady t h.steady' _, (hset.allocator σ t).trans h.allocator,
    fun key value howing => ?_, fun table key hclear => ?_⟩
  · rw [hcontents]
    cases howes : a.rest.owes w₀ with
    | none =>
      rw [owing_concat hc hrun, howes] at howing
      rw [overlay_none]
      exact h.owed key value (howing.resolve_right (by simp))
    | some owed =>
      obtain ⟨key', value'⟩ := owed
      rw [owing_concat hc hrun, howes] at howing
      rw [overlay_some]
      by_cases hkey : key' = key
      · -- no other call owes what this one covers
        subst hkey
        have hcover := hset.covered (ho.disciplined t a hrun) howes
        obtain howing | howing := howing
        · exact absurd howing (not_owing_of_covers ho hsettled hrun hi hcover)
        · cases howing
          exact if_pos ⟨rfl, rfl⟩
      · obtain howing | howing := howing
        · exact (if_neg fun hsame => hkey hsame.2).trans (h.owed key value howing)
        · cases howing
          exact absurd rfl hkey
  · have hbefore := h.clear table key fun ht value howing =>
      hclear ht value ((owing_concat hc hrun key value).2 (.inl howing))
    rw [hcontents]
    cases howes : a.rest.owes w₀ with
    | none => exact hbefore
    | some owed =>
      obtain ⟨key', value'⟩ := owed
      rw [overlay_some]
      refine (if_neg ?_).trans hbefore
      rintro ⟨rfl, rfl⟩
      exact hclear rfl value' ((owing_concat hc hrun _ _).2 (.inr howes))

/-- A serial run explains what the threads have done: it holds the calls that have taken effect, and
the others have learned only what lasts. -/
structure Explained (w₀ : World S A τ) (s : System service S A τ) (order : List (Served τ))
    (σ : World S A τ) : Prop where
  served : w₀.serve service order = (order.map (·.result), σ)
  agrees : Matches w₀ s (indices order) σ
  recorded : Recorded s.history order
  stage : ∀ t a, s.running t = some a →
    Decided w₀ order t a ∨ a.index ∉ indices order ∧ Growing w₀ a

theorem serve_concat {order : List (Served τ)} {entry : Served τ} {σ' : World S A τ}
    (h : w₀.serve service order = (order.map (·.result), σ))
    (hrun : (entry.call.program service).runAlone entry.thread σ = (entry.result, σ')) :
    w₀.serve service (order ++ [entry]) = ((order ++ [entry]).map (·.result), σ') := by
  rw [World.serve_append, h, List.map_append]
  simp only [World.serve, hrun, List.map_cons, List.map_nil]

/-- Every call of the serial run that is still on its way is settled. -/
theorem Decided.of_mem {order : List (Served τ)}
    (h : ∀ t a, s.running t = some a →
      Decided w₀ order t a ∨ a.index ∉ indices order ∧ Growing w₀ a) :
    ∀ t a, s.running t = some a → a.index ∈ indices order → ∃ mayPut, a.rest.Settled mayPut := by
  intro t a hrun hi
  obtain ⟨hset, -⟩ | ⟨hnot, -⟩ := h t a hrun
  · exact hset
  · exact absurd hi hnot

theorem Decided.mono {order : List (Served τ)} (h : Decided w₀ order t a) (entry : Served τ) :
    Decided w₀ (order ++ [entry]) t a :=
  ⟨h.1, List.mem_append_left _ h.2⟩

/-- A call that is settled takes effect at the end of the serial run. -/
theorem Explained.take {order : List (Served τ)} {σ₁ : World S A τ} {mayPut : Bool}
    (hw : w₀.Steady w₀) (ho : s.Orderly) (hc : s.Consistent)
    (hserved : w₀.serve service order = (order.map (·.result), σ))
    (hagrees : Matches w₀ s (indices order) σ₁) (hrecorded : Recorded s.history order)
    (hrun : s.running t = some a) (hi : a.index ∉ indices order)
    (hstage : ∀ t' a', t' ≠ t → s.running t' = some a' →
      Decided w₀ order t' a' ∨ a'.index ∉ indices order ∧ Growing w₀ a')
    (hset : a.rest.Settled mayPut)
    (hlast : (a.call.program service).runAlone t σ = a.rest.runAlone t σ₁) :
    ∃ order' σ', Explained w₀ s order' σ' := by
  have hsettled : ∀ t' a', s.running t' = some a' → a'.index ∈ indices order →
      ∃ mayPut, a'.rest.Settled mayPut := by
    intro t' a' hrun' hi'
    by_cases ht : t' = t
    · subst ht
      rw [hrun, Option.some.injEq] at hrun'
      exact absurd (hrun' ▸ hi') hi
    · obtain ⟨hset', -⟩ | ⟨hnot, -⟩ := hstage t' a' ht hrun'
      · exact hset'
      · exact absurd hi' hnot
  -- What a settled call returns does not depend on when it goes on.
  have hresult := hset.result hagrees.steady' hw t t
  let entry : Served τ := ⟨a.index, t, a.call, (a.rest.runAlone t σ₁).1⟩
  have hindices : indices (order ++ [entry]) = indices order ++ [a.index] := by
    rw [indices, List.map_append]
    rfl
  refine ⟨order ++ [entry], (a.rest.runAlone t σ₁).2, serve_concat hserved hlast, ?_,
    hrecorded.serve (hc.began t a hrun) hi, fun t' a' hrun' => ?_⟩
  · rw [hindices]
    exact hagrees.serve ho hc hsettled hrun hi hset
  · by_cases ht : t' = t
    · subst ht
      rw [hrun, Option.some.injEq] at hrun'
      subst hrun'
      refine .inl ⟨⟨_, hset⟩, List.mem_append_right _ ?_⟩
      rw [← hresult]
      exact List.mem_singleton_self _
    · refine (hstage t' a' ht hrun').imp (fun hd => hd.mono entry) fun ⟨hnot, hg⟩ => ⟨?_, hg⟩
      rw [hindices, List.mem_append, List.mem_singleton]
      rintro (hold | hnew)
      · exact hnot hold
      · exact ht (hc.unique hrun' hrun hnew)

theorem Explained.begin {order : List (Served τ)} (h : Explained w₀ s order σ)
    (hw : w₀.Steady w₀) (ho : s.Orderly) (hc : s.Consistent) {call : Call}
    (hg : Move.Guarded (.begin t call : Move S A τ)) (hidle : s.running t = none) :
    ∃ order' σ', Explained w₀ (s.begin t call) order' σ' := by
  -- A call's index is the length of the history where it begins, so it is new.
  have hnew : s.history.length ∉ indices order := by
    intro hi
    obtain ⟨entry, hentry, hindex⟩ := List.mem_map.1 hi
    exact Nat.ne_of_lt (hc.fresh _ (h.recorded.known entry hentry)) hindex
  have hagrees : Matches w₀ (s.begin t call) (indices order) σ := by
    refine h.agrees.congr h.agrees.steady rfl rfl (owing_update rfl fun key value => ⟨?_, ?_⟩)
    · rintro ⟨a, ha, hi, -⟩
      cases ha
      exact absurd hi hnew
    · rintro ⟨a, ha, -⟩
      rw [hidle] at ha
      cases ha
  have hrecorded : Recorded (s.begin t call).history order := h.recorded.began hnew
  have hstage : ∀ t' a', t' ≠ t → (s.begin t call).running t' = some a' →
      Decided w₀ order t' a' ∨ a'.index ∉ indices order ∧ Growing w₀ a' := by
    intro t' a' ht hrun'
    exact h.stage t' a' ((update_eq_some_iff.1 hrun').resolve_left fun hx => ht hx.1).2
  -- A call that is refused at once takes effect where it begins.
  obtain hset | hgathers := Call.settles service hg.1
  · exact Explained.take hw (ho.begin hg hidle) (hc.begin call hidle) h.served hagrees hrecorded
      (Function.update_self ..) hnew hstage hset rfl
  · refine ⟨order, σ, h.served, hagrees, hrecorded, fun t' a' hrun' => ?_⟩
    obtain ⟨rfl, ha⟩ | ⟨ht, hrun'⟩ := update_eq_some_iff.1 hrun'
    · cases ha
      refine .inr ⟨hnew, hgathers, fun before access after htrace => ?_, fun time hmem => ?_⟩
      · exact absurd htrace (by simp [Activity.start])
      · exact absurd hmem List.not_mem_nil
    · exact h.stage t' a' hrun'

theorem Explained.finish {order : List (Served τ)} (h : Explained w₀ s order σ)
    {result : CallResult} (hrun : s.running t = some a) (hrest : a.rest = .done result) :
    Explained w₀ (s.finish t a result) order σ := by
  have hentry : ⟨a.index, t, a.call, result⟩ ∈ order := by
    -- a call that still gathers has something left to do
    obtain ⟨-, hentry⟩ | ⟨-, hg⟩ := h.stage t a hrun
    · rwa [hrest] at hentry
    · have hgathers := hg.gathers
      rw [hrest] at hgathers
      exact hgathers.elim
  refine ⟨h.served, ?_, h.recorded.finished hentry, fun t' a' hrun' => ?_⟩
  · refine h.agrees.congr h.agrees.steady rfl rfl (owing_update rfl fun key value => ⟨?_, ?_⟩)
    · rintro ⟨a', ha, -⟩
      cases ha
    · rintro ⟨a', ha, -, howes⟩
      rw [hrun, Option.some.injEq] at ha
      rw [← ha, hrest] at howes
      cases howes
  · obtain ⟨-, ha⟩ | ⟨-, hrun'⟩ := update_eq_some_iff.1 hrun'
    · cases ha
    · exact h.stage t' a' hrun'

/-- A settled call goes on; the serial run has done it all already. -/
theorem Explained.actDecided {order : List (Served τ)} (h : Explained w₀ s order σ)
    (hw : w₀.Steady w₀) {action : Action} {next : action.Answer → Program CallResult}
    (hrun : s.running t = some a) (hrest : a.rest = .step action next)
    (hd : Decided w₀ order t a) : Explained w₀ (s.act t a hrest) order σ := by
  -- The serial world has this call's open key already; the shared one gets it now or later.
  obtain ⟨⟨mayPut, hset⟩, hentry⟩ := hd
  rw [hrest] at hset hentry
  have hi : a.index ∈ indices order := List.mem_map.2 ⟨_, hentry, rfl⟩
  have hsteady := h.agrees.steady
  obtain ⟨⟨mayPut', hset'⟩, hallocator, howes, hoverlay⟩ := hset.perform hsteady t
  have howing : ∀ key value, Owing w₀ (s.act t a hrest) (indices order) key value →
      Owing w₀ s (indices order) key value := by
    rintro key value ⟨t', a', hrun', hi', howes'⟩
    obtain ⟨rfl, ha⟩ | ⟨-, hrun'⟩ := update_eq_some_iff.1 hrun'
    · cases ha
      exact ⟨t', a, hrun, hi, by rw [hrest]; exact howes _ howes'⟩
    · exact ⟨t', a', hrun', hi', howes'⟩
  refine ⟨h.served, ⟨hsteady.perform t action, h.agrees.steady',
    h.agrees.allocator.trans hallocator.symm, fun key value ho => h.agrees.owed key value
      (howing key value ho), fun table key hclear => ?_⟩, h.recorded.acted, fun t' a' hrun' => ?_⟩
  · -- what the call owed it has just written, or still owes
    have hpoint := congrFun (congrFun hoverlay table) key
    have hafter : overlay ((next (s.world.perform t action).1).owes w₀)
        (s.world.perform t action).2.store.store.get table key =
          (s.world.perform t action).2.store.store.get table key := by
      cases hn : (next (s.world.perform t action).1).owes w₀ with
      | none => rfl
      | some owed =>
        obtain ⟨key', value'⟩ := owed
        refine if_neg ?_
        rintro ⟨rfl, rfl⟩
        exact hclear rfl value' ⟨t, a.answered hrest _, Function.update_self .., hi, hn⟩
    rw [hafter] at hpoint
    show _ = (s.world.perform t action).2.store.store.get table key
    rw [← hpoint]
    -- Nothing is owed here after the action, so before it only this call can have owed it.
    have hothers : ∀ value, table = .openKeys → Owing w₀ s (indices order) key value →
        (Program.step action next).owes w₀ = some (key, value) := by
      rintro value rfl ⟨t', a', hrun', hi', howes'⟩
      by_cases ht : t' = t
      · subst ht
        rw [hrun, Option.some.injEq] at hrun'
        rwa [← hrun', hrest] at howes'
      · refine absurd ⟨t', a', ?_, hi', howes'⟩ (hclear rfl value)
        exact (Function.update_of_ne ht ..).trans hrun'
    cases ho : (Program.step action next).owes w₀ with
    | none =>
      refine h.agrees.clear table key fun ht value hv => ?_
      rw [hothers value ht hv] at ho
      cases ho
    | some owed =>
      obtain ⟨key', value'⟩ := owed
      rw [overlay_some]
      by_cases hsame : .openKeys = table ∧ key' = key
      · obtain ⟨rfl, rfl⟩ := hsame
        rw [if_pos ⟨rfl, rfl⟩]
        exact h.agrees.owed key' value' ⟨t, a, hrun, hi, by rw [hrest, ho]⟩
      · rw [if_neg hsame]
        refine h.agrees.clear table key fun ht value hv => ?_
        rw [hothers value ht hv] at ho
        cases ho
        exact hsame ⟨ht.symm, rfl⟩
  · obtain ⟨rfl, ha⟩ | ⟨-, hrun'⟩ := update_eq_some_iff.1 hrun'
    · cases ha
      have hbefore : ((Program.step action next).runAlone t' w₀).1 =
          ((Program.step action next).runAlone t' s.world).1 := hset.result hw hsteady t' t'
      have hafter : ((next (s.world.perform t' action).1).runAlone t' w₀).1 =
          ((next (s.world.perform t' action).1).runAlone t' (s.world.perform t' action).2).1 :=
        hset'.result hw (hsteady.perform t' action) t' t'
      refine .inl ⟨⟨mayPut', hset'⟩, ?_⟩
      rw [hbefore] at hentry
      show (⟨a.index, t', a.call, ((next _).runAlone t' w₀).1⟩ : Served τ) ∈ order
      rw [hafter]
      exact hentry
    · exact h.stage t' a' hrun'

/-- A call that has not taken effect goes on: it takes effect now, or has learned one more thing
that lasts. -/
theorem Explained.actGrowing {order : List (Served τ)} (h : Explained w₀ s order σ)
    (hw : w₀.Steady w₀) (ho : s.Orderly) (hc : s.Consistent) {action : Action}
    {next : action.Answer → Program CallResult} (hrun : s.running t = some a)
    (hrest : a.rest = .step action next) (hready : s.world.isReady t action = true)
    (hi : a.index ∉ indices order) (hg : Growing w₀ a) :
    ∃ order' σ', Explained w₀ (s.act t a hrest) order' σ' := by
  have hsettled := Decided.of_mem h.stage
  have hstage : ∀ t' a', t' ≠ t → (s.act t a hrest).running t' = some a' →
      Decided w₀ order t' a' ∨ a'.index ∉ indices order ∧ Growing w₀ a' := by
    intro t' a' ht hrun'
    exact h.stage t' a' ((update_eq_some_iff.1 hrun').resolve_left fun hx => ht hx.1).2
  have hgathers := hg.gathers
  rw [hrest] at hgathers
  obtain ⟨hgather, hnext⟩ := hgathers
  obtain hset | ⟨hpersists, hgathers'⟩ := hnext (s.world.perform t action).1
  · -- the whole call is moved to the end of the serial run
    have hleads := a.leads
    rw [hrest] at hleads
    -- doing again what the call has done changes the locks of the serial world only
    obtain ⟨locks, hreplay⟩ := Program.runAlone_of_leads hleads h.agrees.steady'.faults
      (hg.replays h.agrees ho hsettled hrun hi) t
    have hlocks : Matches w₀ s (indices order) { σ with locks } :=
      ⟨h.agrees.steady, ⟨h.agrees.steady'.faults, h.agrees.steady'.clock,
        h.agrees.steady'.ownTokenClock, h.agrees.steady'.authority⟩, h.agrees.allocator,
        h.agrees.owed, h.agrees.clear⟩
    obtain ⟨hanswer, hagrees⟩ := hlocks.gather ho hsettled hrun hi hrest hgather
    refine Explained.take hw (ho.act hrun hrest hready) (hc.act hrun hrest) h.served hagrees
      h.recorded.acted (Function.update_self ..) hi hstage hset ?_
    show (a.call.program service).runAlone t σ = (next _).runAlone t _
    rw [hreplay, hanswer]
    rfl
  · -- the serial run stays as it is, and what was learned now lasts
    have hharmless : action.isHarmless = true := hpersists.isHarmless
    have hstore : (s.world.perform t action).2.store.store = s.world.store.store := by
      rw [World.perform_store]
      exact Access.applied_of_harmless hharmless _
    -- allocating settles a call, so it is no action of this case
    have hallocator : (s.world.perform t action).2.allocator = s.world.allocator := by
      cases action with
      | allocate request => exact hpersists.elim
      | _ => rfl
    refine ⟨order, σ, h.served, h.agrees.congr (h.agrees.steady.perform t action) hallocator hstore
      (owing_act hrun hi hrest), h.recorded.acted, fun t' a' hrun' => ?_⟩
    obtain ⟨rfl, ha⟩ | ⟨-, hrun'⟩ := update_eq_some_iff.1 hrun'
    · cases ha
      refine .inr ⟨hi, hgathers', fun before access after htrace => ?_, fun time hmem => ?_⟩
      · obtain ⟨after', hbefore⟩ | ⟨rfl, rfl⟩ := Trace.split_concat htrace
        · exact hg.persists before access after' hbefore
        · exact hpersists
      · obtain hmem | hmem := List.mem_append.1 hmem
        · exact hg.clock time hmem
        · cases List.mem_singleton.1 hmem
          exact h.agrees.steady.clock
    · exact h.stage t' a' hrun'

theorem Explained.transition {order : List (Served τ)} {m : Move S A τ}
    (h : Explained w₀ s order σ) (hw : w₀.Steady w₀) (ho : s.Orderly) (hc : s.Consistent)
    (hg : m.Guarded) (hcalm : m.Calm) (ht : Transition m s s') :
    ∃ order' σ', Explained w₀ s' order' σ' := by
  cases ht with
  | begin hidle => exact h.begin hw ho hc hg hidle
  | act hrun hrest hready =>
    obtain hd | ⟨hi, hgrow⟩ := h.stage _ _ hrun
    · exact ⟨order, σ, h.actDecided hw hrun hrest hd⟩
    · exact h.actGrowing hw ho hc hrun hrest hready hi hgrow
  | finish hrun hrest => exact ⟨order, σ, h.finish hrun hrest⟩
  | disturb => exact hcalm.elim

/-! ## 4. Every run -/

/-- The threads did what the calls do one at a time: some serial run from the same world holds the
calls that returned with their results, in an order that respects real time, and, when no call is on
its way, holds no others and ends in the same tables and the same state of the allocation
service. -/
def Serializable (w₀ : World S A τ) (s : System service S A τ) : Prop :=
  ∃ (order : List (Served τ)) (σ : World S A τ),
    w₀.serve service order = (order.map (·.result), σ) ∧ Recorded s.history order ∧
    ((∀ t, s.running t = none) →
      (∀ entry ∈ order, entry ∈ History.served s.history) ∧ σ.allocator = s.world.allocator ∧
      ∀ table key, σ.store.store.get table key = s.world.store.store.get table key)

theorem Explained.serializable {order : List (Served τ)} (h : Explained w₀ s order σ)
    (hc : s.Consistent) : Serializable w₀ s := by
  refine ⟨order, σ, h.served, h.recorded, fun hidle => ⟨fun entry hentry => ?_, h.agrees.allocator,
    fun table key => h.agrees.clear table key ?_⟩⟩
  · -- a call of the serial run is on its way or has returned, and none is on its way
    have hbegan := h.recorded.known entry hentry
    obtain ⟨a, hrun, -⟩ | ⟨result, hresult⟩ := hc.accounted _ hbegan
    · rw [hidle] at hrun
      cases hrun
    · obtain ⟨e, he, hi, hr⟩ := History.exists_of_result? hresult
      have hserved : ⟨e.index, e.thread, e.call, result⟩ ∈ History.served s.history :=
        List.mem_filterMap.2 ⟨e, he, by rw [Event.served?, hr]; rfl⟩
      have hsame := h.recorded.entry_unique (h.recorded.returned _ hserved) hentry hi
      rwa [← hsame]
  · rintro - value ⟨t, a, hrun, -⟩
    rw [hidle] at hrun
    cases hrun

/-- Guarded calls of any number of threads, interleaved in any way, are serializable when every open
record of the store they start from is filed under its own names. -/
theorem run_serializable (hfaults : w₀.store.faults = []) (hlocks : w₀.locks = {})
    (hfiled : w₀.store.store.WellFiled) {moves : List (Move S A τ)}
    (hmoves : ∀ m ∈ moves, m.Guarded ∧ m.Calm) :
    Serializable w₀ (({ world := w₀ } : System service S A τ).run moves) := by
  have hw : w₀.Steady w₀ := ⟨hfaults, rfl, rfl, rfl⟩
  have hstart : Explained w₀ ({ world := w₀ } : System service S A τ) [] w₀ := by
    refine ⟨rfl, ⟨hw, hw, rfl, ?_, fun _ _ _ => rfl⟩, ⟨?_, ?_, List.nodup_nil, ?_⟩, ?_⟩
    · rintro key value ⟨t, a, hrun, -⟩
      cases hrun
    · exact fun entry hentry => absurd hentry List.not_mem_nil
    · exact fun entry hentry => absurd hentry List.not_mem_nil
    · exact fun i j _ hj => absurd hj List.not_mem_nil
    · exact fun t a hrun => absurd hrun (by simp)
  obtain ⟨⟨order, σ, h⟩, -, hc⟩ := run_induction
    (P := fun s => (∃ order σ, Explained w₀ s order σ) ∧ s.Orderly ∧ s.Consistent)
    (fun m => m.Guarded ∧ m.Calm)
    (fun m hm s s' ht hs => by
      obtain ⟨⟨order, σ, h⟩, ho, hc⟩ := hs
      exact ⟨h.transition hw ho hc hm.1 hm.2 ht, ho.transition hm.1 ht, hc.transition ht⟩)
    ⟨⟨[], w₀, hstart⟩, orderly_empty hlocks hfiled, consistent_empty w₀⟩ hmoves
  exact h.serializable hc

theorem run_serializable_createVolumes :
    let w₀ : World ed25519 localAllocation Bool :=
      { store := { store := .memory {} }
        allocator := (⟨1, 1, false⟩ : LocalAllocator)
        clock := 5 }
    let moves : List (Move ed25519 localAllocation Bool) :=
      [.begin true (.createVolume "v" "alice"), .begin false (.createBucket "v" "b"), .act true,
        .act false, .act true, .act true, .act true, .act true, .act false, .act false, .act false]
    (w₀.store.faults = [] ∧ w₀.locks = {} ∧ w₀.store.store.WellFiled ∧
      ∀ m ∈ moves, m.Guarded ∧ m.Calm) ∧
    Serializable w₀ (({ world := w₀ } : System {} ed25519 localAllocation Bool).run moves) := by
  intro w₀ moves
  have hfiled : w₀.store.store.WellFiled := by
    intro table key value hget
    rw [Store.get_empty] at hget
    cases hget
  have hmoves : ∀ m ∈ moves, m.Guarded ∧ m.Calm := by
    simp [moves, Move.Guarded, Move.Calm, Call.isGuarded, Call.request?]
  exact ⟨⟨rfl, rfl, hfiled, hmoves⟩, run_serializable rfl rfl hfiled hmoves⟩

/-! ## 5. A record under another name -/

/-- One thread extends `k` and has read its record when the other extends `x`, which writes the
record of `k` under the lock of `x`. -/
def lostBlock : List (Move ed25519 localAllocation Bool) :=
  .begin true (extend "k") :: (List.replicate 3 (.act true) ++
    .begin false (extend "x") :: (List.replicate 9 (.act false) ++ List.replicate 6 (.act true)))

def lostBlockEntries : List (Served Bool) :=
  [⟨4, false, extend "x", .ok (.location ⟨⟨1, 1⟩, 0, 268435456, none⟩)⟩,
    ⟨0, true, extend "k", .ok (.location ⟨⟨1, 2⟩, 0, 268435456, none⟩)⟩]

def afterLostBlock : System {} ed25519 localAllocation Bool :=
  ({ world := misfiledWorld } : System {} ed25519 localAllocation Bool).run lostBlock

theorem served_afterLostBlock : History.served afterLostBlock.history = lostBlockEntries := by
  decide +kernel

theorem idle_afterLostBlock (t : Bool) : afterLostBlock.running t = none := by
  have hnone : ∀ t, (afterLostBlock.running t).isNone = true := by decide +kernel
  exact Option.isNone_iff_eq_none.1 (hnone t)

/-- Where a record is filed under another key, a block can be lost: no order of the two calls gives
the same results and leaves the same tables. -/
theorem misfiled_not_serializable : misfiledWorld.store.faults = [] ∧ misfiledWorld.locks = {} ∧
    (∀ m ∈ lostBlock, m.Guarded ∧ m.Calm) ∧
    ¬Serializable misfiledWorld afterLostBlock := by
  have hfits : ∀ key ∈ ["k", "x"], ∀ request, (extend key).request? = some request →
      LawfulStored.fits request.path.text := by
    have hk : (Bytes.ofText (ResourcePath.key "v" "b" "k").text).length < 256 ^ 8 := by decide
    have hx : (Bytes.ofText (ResourcePath.key "v" "b" "x").text).length < 256 ^ 8 := by decide
    simp only [List.forall_mem_cons]
    refine ⟨?_, ?_, ?_⟩
    · rintro request ⟨⟩
      exact hk
    · rintro request ⟨⟩
      exact hx
    · simp
  refine ⟨rfl, rfl, ?_, ?_⟩
  · simp only [lostBlock, List.forall_mem_cons, List.forall_mem_append]
    refine ⟨⟨⟨rfl, hfits "k" (by simp)⟩, trivial⟩, ?_, ⟨⟨rfl, hfits "x" (by simp)⟩, trivial⟩,
      ?_, ?_⟩
    · exact fun m hm => List.eq_of_mem_replicate hm ▸ ⟨trivial, trivial⟩
    · exact fun m hm => List.eq_of_mem_replicate hm ▸ ⟨trivial, trivial⟩
    · exact fun m hm => List.eq_of_mem_replicate hm ▸ ⟨trivial, trivial⟩
  · rintro ⟨order, σ, hserve, hrec, hquiet⟩
    obtain ⟨hmem, -, htables⟩ := hquiet idle_afterLostBlock
    have hret := hrec.returned
    rw [served_afterLostBlock] at hmem hret
    have hperm : order.Perm lostBlockEntries :=
      (List.perm_ext_iff_of_nodup (List.Nodup.of_map _ hrec.nodup) (by decide)).2
        fun entry => ⟨hmem entry, hret entry⟩
    obtain rfl | rfl : order = lostBlockEntries ∨ order = lostBlockEntries.reverse := by
      have horder := List.mem_permutations'.2 hperm
      have hboth : lostBlockEntries.permutations' =
          [lostBlockEntries, lostBlockEntries.reverse] := by decide +kernel
      rw [hboth] at horder
      simpa using horder
    · have hlost : (misfiledWorld.serve {} lostBlockEntries).2.store.store.get .openKeys
          (ResourcePath.key "v" "b" "k").tableKey ≠ afterLostBlock.world.store.store.get .openKeys
            (ResourcePath.key "v" "b" "k").tableKey := by decide +kernel
      rw [hserve] at hlost
      exact hlost (htables ..)
    · have hresults : (misfiledWorld.serve {} lostBlockEntries.reverse).1 ≠
          lostBlockEntries.reverse.map (·.result) := by decide +kernel
      rw [hserve] at hresults
      exact hresults rfl

end System

end ObjectMeta
