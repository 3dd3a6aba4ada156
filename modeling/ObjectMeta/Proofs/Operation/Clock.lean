import ObjectMeta.Proofs.Concurrency.HandedOut
import ObjectMeta.Proofs.Operation.Alone

/-!
# Programs that read a clock

A program that reads the clock for every action that needs the time leaves a trace as well, and what
it does to the tables can be told from the trace (`Program.runByClock_spec`).  Its tokens are minted
at readings of the clock, each at one of its own (`World.PlaysByClock.supplied`).
-/

namespace ObjectMeta

variable {S : SignatureScheme} {A : AllocationService} {τ σ α β : Type} [DecidableEq τ]
  {times : Int64 → Prop} {t : τ} {w w' : World S A τ} {trace : Trace}

/-- In some states of its source, which readings lead from one to another, a clock shows one of these
times. -/
def Shows (now : StateM σ Int64) (states : σ → Prop) (times : Int64 → Prop) : Prop :=
  ∀ s, states s → times (now s).1 ∧ states (now s).2

/-- The accesses are what a thread's actions do to a world, one after the other, while its clock
shows these times. -/
def World.PlaysByClock (times : Int64 → Prop) (t : τ) : World S A τ → Trace → World S A τ → Prop
  | w, [], w' => w = w'
  | w, access :: rest, w' => ∃ time, times time ∧
    let ticked := { w with clock := time }
    access.answer = (ticked.perform t access.action).1 ∧
      (ticked.perform t access.action).2.PlaysByClock times t rest w'

theorem Program.runByClock_spec {now : StateM σ Int64} {states : σ → Prop}
    (hnow : Shows now states times) (p : Program α) (hclock : times w.clock) {s : σ}
    (hs : states s) :
    ∃ value w' s' trace, (p.runByClock now t w : StateM σ _) s = ((value, w'), s') ∧ states s' ∧
      p.Leads trace (.done value) ∧ w.PlaysByClock times t trace w' := by
  induction p generalizing w s with
  | done value => exact ⟨value, w, s, [], rfl, hs, rfl, rfl⟩
  | step action next ih =>
    have hstep {time : Int64} {s : σ} (htime : times time) (hs : states s) :
        let ticked := { w with clock := time }
        let run := (next (ticked.perform t action).1).runByClock now t (ticked.perform t action).2
        ∃ value w' s' trace, (run : StateM σ _) s = ((value, w'), s') ∧ states s' ∧
          (step action next).Leads trace (.done value) ∧ w.PlaysByClock times t trace w' := by
      intro ticked
      have hclock' : times (ticked.perform t action).2.clock := by
        rw [ticked.perform_clock]
        exact htime
      obtain ⟨value, w', s', trace, hrun, hs', hleads, hplays⟩ := ih _ hclock' hs
      exact ⟨value, w', s', ⟨action, (ticked.perform t action).1⟩ :: trace, hrun, hs',
        ⟨_, rfl, hleads⟩, time, htime, rfl, hplays⟩
    by_cases hreads : w.readsClock action = true
    · obtain ⟨htime, hs'⟩ := hnow s hs
      simp only [runByClock, if_pos hreads]
      exact hstep htime hs'
    · simp only [runByClock, if_neg hreads]
      exact hstep hclock hs

namespace World.PlaysByClock

theorem through (h : w.PlaysByClock times t trace w') :
    trace.Through w.store.store w'.store.store := by
  induction trace generalizing w with
  | nil => exact congrArg (·.store.store) h
  | cons access rest ih =>
    obtain ⟨time, -, hanswer, hplays⟩ := h
    obtain ⟨hstands, hstore⟩ := ({ w with clock := time } : World S A τ).perform_spec t access.action
    rw [← hanswer] at hstands hstore
    exact ⟨hstands, hstore ▸ ih hplays⟩

/-- Every token is from the authority at a reading of the clock, and what is read was in a store
that is as all stores on the way. -/
theorem supplied {authority : TokenAuthority S} (found : Table → Bytes → Option Bytes → Prop)
    (kept : Store → Prop) (h : w.PlaysByClock times t trace w')
    (hauthority : w.authority = some authority) (hclock : w.ownTokenClock = none)
    (hkept : kept w.store.store)
    (hkeeps : ∀ access ∈ trace, ∀ store, kept store → kept (access.applied store))
    (hfound : ∀ store, kept store → ∀ table key, found table key (store.get table key)) :
    ∀ access ∈ trace, access.Supplied (fun owner block maxLength answer =>
      ∃ time, times time ∧ authority.minting time owner block maxLength answer) found := by
  induction trace generalizing w with
  | nil => exact fun _ haccess => absurd haccess List.not_mem_nil
  | cons access rest ih =>
    rw [List.forall_mem_cons] at hkeeps ⊢
    obtain ⟨time, htime, hanswer, hplays⟩ := h
    let ticked : World S A τ := { w with clock := time }
    have haccess : access = ⟨access.action, (ticked.perform t access.action).1⟩ := by
      rw [← hanswer]
    have hmints (owner : String) (block : BlockId) (maxLength : Int64) :
        authority.minting time owner block maxLength (ticked.mint owner block maxLength) := by
      have hminting := World.mint_of_authority (w := ticked) hauthority owner block maxLength
      rwa [show ticked.tokenClock = time by rw [tokenClock, hclock]; rfl] at hminting
    have hkept' : kept (ticked.perform t access.action).2.store.store := by
      rw [ticked.perform_store, ← haccess]
      exact hkeeps.1 _ hkept
    have hown : (ticked.perform t access.action).2.ownTokenClock = none := by
      rw [← hclock]
      cases access.action <;> rfl
    refine ⟨?_, ih hplays ((ticked.perform_tokens t _).1.trans hauthority) hown hkept' hkeeps.2⟩
    exact World.Answers.supplied ⟨t, access.action, haccess⟩
      (fun owner block maxLength => ⟨time, htime, hmints owner block maxLength⟩) (hfound _ hkept)

end World.PlaysByClock

theorem Program.Leads.bind {p : Program α} {f : α → Program β} {value : α}
    (h : p.Leads trace (.done value)) : (p.bind f).Leads trace (f value) := by
  induction trace generalizing p with
  | nil =>
    rw [leads_nil_iff] at h
    rw [h]
    exact leads_nil _
  | cons access rest ih =>
    cases p with
    | done value => exact h.elim
    | step action next =>
      obtain ⟨answer, haccess, hrest⟩ := h
      exact ⟨answer, haccess, ih hrest⟩

/-- An operation in other terms goes as it does otherwise. -/
theorem Operation.leads_map {f : α → β} {op : Operation α} {result : Except OperationError α}
    (h : op.run.Leads trace (.done result)) :
    (f <$> op).run.Leads trace (.done (result.map f)) := by
  rw [ExceptT.run_map]
  exact h.bind

end ObjectMeta
