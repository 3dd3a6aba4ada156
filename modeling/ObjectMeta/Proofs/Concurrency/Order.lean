import ObjectMeta.Crypto.Ed25519
import ObjectMeta.Proofs.Concurrency.History
import ObjectMeta.Proofs.Operation.Effects
import ObjectMeta.Proofs.Operation.Guarded

/-!
# Order among threads

While threads run guarded calls on a well-filed store, in whatever surroundings, the lock table
counts what they have in hand, their programs stay disciplined, the store stays well filed, and what
a thread has learned under its locks stays so until it writes or gives a lock back (`Orderly`).
-/

namespace ObjectMeta

/-- A move that keeps order: it begins a guarded call with names short enough to be stored, or no
call at all. -/
def Move.Guarded {S : SignatureScheme} {A : AllocationService} {τ : Type} : Move S A τ → Prop
  | begin _ call => call.isGuarded = true ∧
      ∀ request, call.request? = some request → LawfulStored.fits request.path.text
  | _ => True

namespace System

variable {service : KeyService} {S : SignatureScheme} {A : AllocationService} {τ : Type}
  [DecidableEq τ]

/-! ## 1. The order -/

omit [DecidableEq τ] in
def heldAt (at_call : Option (Activity service)) : List LockGuard :=
  at_call.elim [] fun a => Trace.held a.trace

def held (s : System service S A τ) : τ → List LockGuard := heldAt ∘ s.running

structure Orderly (s : System service S A τ) : Prop where
  tracked : s.world.locks.Tracks s.held
  disciplined : ∀ t a, s.running t = some a → a.rest.Disciplined a.trace
  filed : s.world.store.store.WellFiled
  stable : ∀ t a, s.running t = some a → a.trace.Intact →
    ∀ before access after, a.trace = before ++ access :: after →
      access.Persists (Trace.held before) → access.Stands s.world.store.store

omit [DecidableEq τ] in
theorem held_of_running {s : System service S A τ} {t : τ} {a : Activity service}
    (hrun : s.running t = some a) : s.held t = a.trace.held := by
  rw [held, Function.comp, hrun]
  rfl

theorem held_update (s : System service S A τ) (t : τ) (at_call : Option (Activity service)) :
    heldAt ∘ Function.update s.running t at_call = Function.update s.held t (heldAt at_call) :=
  Function.comp_update ..

/-- A call that begins has no locks, as its thread had none before. -/
theorem tracks_begin {s : System service S A τ} (h : s.world.locks.Tracks s.held) {t : τ}
    (hidle : s.running t = none) (call : Call) :
    (s.begin t call).world.locks.Tracks (s.begin t call).held := by
  have hnone : s.held t = heldAt (some (.start s.history.length call : Activity service)) := by
    rw [held, Function.comp, hidle]
    rfl
  have hheld : (s.begin t call).held = s.held := by
    rw [held, System.begin, held_update, ← hnone, Function.update_eq_self]
  rw [hheld]
  exact h

/-- A call that returns has no locks left to give back. -/
theorem tracks_finish {s : System service S A τ} (h : s.world.locks.Tracks s.held) {t : τ}
    {a : Activity service} {result : CallResult} (hrun : s.running t = some a)
    (hdone : a.trace.held = []) :
    (s.finish t a result).world.locks.Tracks (s.finish t a result).held := by
  have hnone : s.held t = heldAt (none : Option (Activity service)) :=
    (held_of_running hrun).trans hdone
  have hheld : (s.finish t a result).held = s.held := by
    rw [held, System.finish, held_update, ← hnone, Function.update_eq_self]
  rw [hheld]
  exact h

theorem tracks_act {s : System service S A τ} (h : s.world.locks.Tracks s.held) {t : τ}
    {a : Activity service} {action : Action} {next : action.Answer → Program CallResult}
    (hrun : s.running t = some a) (hrest : a.rest = .step action next)
    (hready : s.world.isReady t action = true)
    (hrelease : ∀ path mode, action = .release path mode → ⟨path, mode⟩ ∈ a.trace.held) :
    (s.act t a hrest).world.locks.Tracks (s.act t a hrest).held := by
  have hheld : (s.act t a hrest).held =
      Function.update s.held t
        (Access.heldAfter (s.held t) ⟨action, (s.world.perform t action).1⟩) := by
    rw [held, System.act, held_update, held_of_running hrun]
    exact congrArg _ (Trace.held_append _ _)
  rw [← held_of_running hrun] at hrelease
  rw [hheld]
  exact World.perform_tracks h hready hrelease

theorem orderly_empty {w : World S A τ} (hlocks : w.locks = {}) (hf : w.store.store.WellFiled) :
    ({ world := w } : System service S A τ).Orderly where
  tracked := by
    rw [hlocks]
    exact LockTable.Tracks.empty
  disciplined _ _ hrun := by cases hrun
  filed := hf
  stable _ _ hrun := by cases hrun

theorem Orderly.begin {s : System service S A τ} (h : s.Orderly) {t : τ} {call : Call}
    (hg : Move.Guarded (.begin t call : Move S A τ)) (hidle : s.running t = none) :
    (s.begin t call).Orderly where
  tracked := tracks_begin h.tracked hidle call
  disciplined t' a hrun := by
    obtain ⟨rfl, ha⟩ | ⟨-, hrun⟩ := update_eq_some_iff.1 hrun
    · cases ha
      exact Call.disciplined service hg.1 hg.2
    · exact h.disciplined t' a hrun
  filed := h.filed
  stable t' a hrun hi before access after htrace := by
    obtain ⟨rfl, ha⟩ | ⟨-, hrun⟩ := update_eq_some_iff.1 hrun
    · cases ha
      exact absurd htrace (by simp [Activity.start])
    · exact h.stable t' a hrun hi before access after htrace

theorem Orderly.finish {s : System service S A τ} (h : s.Orderly) {t : τ} {a : Activity service}
    {result : CallResult} (hrun : s.running t = some a) (hrest : a.rest = .done result) :
    (s.finish t a result).Orderly where
  tracked := by
    have hdone := h.disciplined t a hrun
    rw [hrest, Program.disciplined_done] at hdone
    exact tracks_finish h.tracked hrun hdone
  disciplined t' a' hrun' := by
    obtain ⟨-, ha⟩ | ⟨-, hrun'⟩ := update_eq_some_iff.1 hrun'
    · cases ha
    · exact h.disciplined t' a' hrun'
  filed := h.filed
  stable t' a' hrun' := by
    obtain ⟨-, ha⟩ | ⟨-, hrun'⟩ := update_eq_some_iff.1 hrun'
    · cases ha
    · exact h.stable t' a' hrun'

theorem Orderly.act {s : System service S A τ} (h : s.Orderly) {t : τ} {a : Activity service}
    {action : Action} {next : action.Answer → Program CallResult} (hrun : s.running t = some a)
    (hrest : a.rest = .step action next) (hready : s.world.isReady t action = true) :
    (s.act t a hrest).Orderly := by
  have hdisc := h.disciplined t a hrun
  rw [hrest, Program.disciplined_step] at hdisc
  obtain ⟨hfair, hnext⟩ := hdisc
  have hstands := s.world.perform_stands t action
  have hstore := s.world.perform_store t action
  exact {
    tracked := by
      refine tracks_act h.tracked hrun hrest hready fun path mode haction => ?_
      subst haction
      exact hfair
    disciplined := by
      intro t' a' hrun'
      obtain ⟨rfl, ha⟩ | ⟨-, hrun'⟩ := update_eq_some_iff.1 hrun'
      · cases ha
        exact hnext _ (Access.credible_of_stands hstands h.filed)
      · exact h.disciplined t' a' hrun'
    filed := by
      show (s.world.perform t action).2.store.store.WellFiled
      rw [hstore]
      exact Access.applied_wellFiled h.filed hfair.files
    stable := by
      intro t' a' hrun' hintact before access after htrace hpersists
      show access.Stands (s.world.perform t action).2.store.store
      rw [hstore]
      obtain ⟨rfl, ha⟩ | ⟨ht, hrun'⟩ := update_eq_some_iff.1 hrun'
      · -- the thread itself has not written, since its trace is intact
        cases ha
        have hharmless : action.isHarmless = true :=
          hintact ⟨action, _⟩ (List.mem_append_right _ (List.mem_singleton_self _))
        rw [Access.applied_of_harmless hharmless]
        obtain ⟨after', hbefore⟩ | ⟨-, rfl⟩ := Trace.split_concat htrace
        · exact h.stable t' a hrun (fun x hx => hintact x (List.mem_append_left _ hx)) before
            access after' hbefore hpersists
        · exact hstands
      · -- another thread can only have written what this one does not cover
        have hstands' := h.stable t' a' hrun' hintact before access after htrace hpersists
        have hafter : Trace.Intact (access :: after) := fun x hx =>
          hintact x (htrace ▸ List.mem_append_right _ hx)
        have hmono := hafter.held_mono before
        rw [← htrace, ← held_of_running hrun'] at hmono
        refine hstands'.applied (hpersists.mono hmono) hfair fun table key hwrite hread => ?_
        rw [← held_of_running hrun] at hwrite
        exact h.tracked.not_covers (Ne.symm ht) hwrite hread }

theorem Orderly.transition {s s' : System service S A τ} {m : Move S A τ} (h : s.Orderly)
    (hm : m.Guarded) (ht : Transition m s s') : s'.Orderly := by
  cases ht with
  | begin hidle => exact h.begin hm hidle
  | act hrun hrest hready => exact h.act hrun hrest hready
  | finish hrun hrest => exact h.finish hrun hrest
  | disturb => exact ⟨h.tracked, h.disciplined, h.filed, h.stable⟩

/-! ## 2. A record under another name -/

def openRecord (key : String) (block : BlockId) : KeyRecord where
  volume := "v"
  bucket := "b"
  key := key
  dataSize := 0
  creationTime := 0
  modificationTime := 0
  replicationType := .standAlone
  replicationFactor := .one
  versions := [{ number := 1, locations := [{ block, offset := 0, length := 1, token := none }] }]

/-- A store with volume `v` and bucket `b`, where the record at the path of key `x` is one of key
`k`. -/
def misfiledStore : Store :=
  [(Table.volumes, ResourcePath.volume "v", []), (.buckets, .bucket "v" "b", []),
    (.openKeys, .key "v" "b" "k", Stored.encode (openRecord "k" ⟨1, 100⟩)),
    (.openKeys, .key "v" "b" "x", Stored.encode (openRecord "k" ⟨1, 200⟩))].foldl
    (fun store (table, path, value) => store.put table path.tableKey value) (.memory {})

def misfiledWorld : World ed25519 localAllocation Bool where
  store.store := misfiledStore
  allocator := (⟨1, 1, false⟩ : LocalAllocator)
  clock := 0

def extend (key : String) : Call := .allocateBlock { volume := "v", bucket := "b", key } 1

end System

end ObjectMeta
