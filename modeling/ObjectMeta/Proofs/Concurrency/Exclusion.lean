import ObjectMeta.Proofs.Concurrency.Atomicity
import ObjectMeta.Proofs.Lock.Outstanding
import ObjectMeta.Proofs.Operation.LockStack

/-!
# Who can be inside the allocation service at once

At every moment of every interleaving the lock table shows what the threads have in hand
(`System.LocksKept`), and each of them has a part of the stack of its call, from the bottom up.  A
thread that is inside the allocation service has the whole stack, so opening a key shuts everybody
else out of the bucket, and extending one shares the bucket but not the key (`System.Exclusive`).
Nothing is assumed of the store, the allocation service or the names in the calls; calls that take
no locks may run along with the others.
-/

namespace ObjectMeta

open Operation Program

variable {service : KeyService} {S : SignatureScheme} {A : AllocationService} {τ : Type}
  [DecidableEq τ]

/-! ## 1. What a call has in hand -/

theorem Call.validate_createBucket {volume bucket : String}
    (h : (Call.createBucket volume bucket).validate = .ok ()) :
    ValidName volume ∧ ValidName bucket := by
  have hboth : (do validateVolumeName volume; validateBucketName bucket) = .ok () := h
  cases hv : validateVolumeName volume with
  | error e => rw [hv] at hboth; cases hboth
  | ok u =>
    rw [hv] at hboth
    exact ⟨validateVolumeName_eq_ok_iff.1 hv, validateBucketName_eq_ok_iff.1 hboth⟩

namespace Activity

variable (a : Activity service)

theorem keepsTo : a.rest.KeepsTo a.call [] a.trace :=
  Always.of_leads (Call.keepsTo service a.call) a.leads fun _ _ => trivial

/-- A call has the lower part of its stack in hand. -/
theorem held_isSuffix : a.trace.held <:+ a.call.lockStack := by
  have hkeeps := a.keepsTo
  cases hrest : a.rest with
  | done result =>
    rw [hrest] at hkeeps
    rw [show a.trace.held = [] from hkeeps]
    exact List.nil_suffix
  | step action next =>
    rw [hrest] at hkeeps
    exact hkeeps.1.isSuffix

variable {a}

/-- A call that has a lock in hand was not refused for its names. -/
theorem validate_of_mem {guard : LockGuard} (h : guard ∈ a.trace.held) :
    a.call.validate = .ok () := by
  cases hvalid : a.call.validate with
  | ok u => rfl
  | error reason =>
    -- a call that is refused is over before its first action
    have hleads := a.leads
    rw [Call.program_of_refused hvalid] at hleads
    cases htrace : a.trace with
    | nil =>
      rw [htrace] at h
      exact absurd h List.not_mem_nil
    | cons access rest =>
      rw [htrace] at hleads
      exact hleads.elim

/-- Of a key and its bucket, who has the key has the bucket too. -/
theorem bucket_mem_of_key_mem {request : KeyRequest} {mode : LockMode} {v b k : String}
    {m : LockMode} (hv : ValidName v) (hb : ValidName b) (hvalid : request.validate = .ok ())
    {held : List LockGuard}
    (hsuffix : held <:+ [⟨request.path, mode⟩, ⟨request.bucketPath, .read⟩])
    (hmem : ⟨.key v b k, m⟩ ∈ held) : ⟨.bucket v b, .read⟩ ∈ held := by
  obtain ⟨hvol, hbucket, -⟩ := request.validate_eq_ok hvalid
  have hnot : (⟨.key v b k, m⟩ : LockGuard) ≠ ⟨request.bucketPath, .read⟩ := by
    intro h
    exact ResourcePath.bucket_ne_key hvol hbucket hv (congrArg LockGuard.path h).symm
  rw [List.suffix_cons_iff] at hsuffix
  rcases hsuffix with rfl | hlower
  · rcases List.mem_cons.1 hmem with heq | hmem
    · have hpath : ResourcePath.key v b k = .key request.volume request.bucket request.key :=
        congrArg LockGuard.path heq
      rw [ResourcePath.key_inj hv hb hvol hbucket] at hpath
      obtain ⟨rfl, rfl, -⟩ := hpath
      exact List.mem_cons_of_mem _ (List.mem_singleton_self _)
    · exact absurd (List.mem_singleton.1 hmem) hnot
  · exact absurd (List.mem_singleton.1 (hlower.subset hmem)) hnot

/-- Of all calls only those that share a bucket lock a key of it. -/
theorem bucket_mem {v b k : String} {m : LockMode} (hv : ValidName v) (hb : ValidName b)
    (h : ⟨.key v b k, m⟩ ∈ a.trace.held) : ⟨.bucket v b, .read⟩ ∈ a.trace.held := by
  have hvalid := validate_of_mem h
  have hsuffix := a.held_isSuffix
  have hmem := hsuffix.subset h
  cases hcall : a.call with
  | allocateBlock request number =>
    rw [hcall] at hvalid hsuffix
    exact bucket_mem_of_key_mem hv hb hvalid hsuffix h
  | lookupKey request =>
    rw [hcall] at hvalid hsuffix
    exact bucket_mem_of_key_mem hv hb hvalid hsuffix h
  -- the other calls take no lock of a key
  | createVolume volume owner =>
    rw [hcall] at hvalid hmem
    have hpath := congrArg LockGuard.path (List.mem_singleton.1 hmem)
    exact absurd hpath.symm (ResourcePath.volume_ne_key (validateVolumeName_eq_ok_iff.1 hvalid))
  | createBucket volume bucket =>
    rw [hcall] at hvalid hmem
    obtain ⟨hvol, hbucket⟩ := Call.validate_createBucket hvalid
    rcases List.mem_cons.1 hmem with hguard | hmem
    · have hpath := congrArg LockGuard.path hguard
      exact absurd hpath.symm (ResourcePath.bucket_ne_key hvol hbucket hv)
    · have hpath := congrArg LockGuard.path (List.mem_singleton.1 hmem)
      exact absurd hpath.symm (ResourcePath.volume_ne_key hvol)
  | openKey request =>
    rw [hcall] at hvalid hmem
    obtain ⟨hvol, hbucket, -⟩ := request.validate_eq_ok hvalid
    have hpath := congrArg LockGuard.path (List.mem_singleton.1 hmem)
    exact absurd hpath.symm (ResourcePath.bucket_ne_key hvol hbucket hv)
  | _ =>
    rw [hcall] at hmem
    exact absurd hmem List.not_mem_nil

end Activity

/-! ## 2. The lock table -/

theorem World.perform_tidy {w : World S A τ} (h : w.locks.Tidy) (t : τ) (action : Action) :
    (w.perform t action).2.locks.Tidy := by
  cases action with
  | acquire path mode => exact h.grant path mode t
  | release path mode => exact h.release path mode t
  | _ => exact h

namespace System

variable {s s' : System service S A τ}

structure LocksKept (s : System service S A τ) : Prop where
  tracked : s.world.locks.Tracks s.held
  tidy : s.world.locks.Tidy

theorem locksKept_empty {w : World S A τ} (hlocks : w.locks = {}) :
    ({ world := w } : System service S A τ).LocksKept := by
  constructor
  · rw [hlocks]
    exact LockTable.Tracks.empty
  · rw [hlocks]
    exact LockTable.Tidy.empty

theorem LocksKept.transition {m : Move S A τ} (h : s.LocksKept) (ht : Transition m s s') :
    s'.LocksKept := by
  cases ht with
  | begin hidle => exact ⟨tracks_begin h.tracked hidle _, h.tidy⟩
  | @act _ t a action next hrun hrest hready =>
    have hkeeps := a.keepsTo
    rw [hrest] at hkeeps
    refine ⟨tracks_act h.tracked hrun hrest hready fun path mode haction => ?_,
      World.perform_tidy h.tidy t action⟩
    subst haction
    obtain ⟨-, rest, hheld⟩ := hkeeps.1
    rw [hheld]
    exact List.mem_cons_self ..
  | @finish _ _ _ a _ hrun hrest =>
    have hkeeps := a.keepsTo
    rw [hrest] at hkeeps
    exact ⟨tracks_finish h.tracked hrun hkeeps, h.tidy⟩
  | disturb => exact ⟨h.tracked, h.tidy⟩

theorem run_locksKept {w : World S A τ} (hlocks : w.locks = {}) (moves : List (Move S A τ)) :
    (({ world := w } : System service S A τ).run moves).LocksKept :=
  run_induction (fun _ => True) (fun _ _ _ _ ht h => h.transition ht) (locksKept_empty hlocks)
    fun _ _ => trivial

omit [DecidableEq τ] in
/-- Whoever has a key in hand shares its bucket. -/
theorem bucket_mem_held {t : τ} {v b k : String} {m : LockMode} (hv : ValidName v)
    (hb : ValidName b) (h : ⟨.key v b k, m⟩ ∈ s.held t) : ⟨.bucket v b, .read⟩ ∈ s.held t := by
  cases hrun : s.running t with
  | none =>
    rw [System.held, Function.comp, hrun] at h
    exact absurd h List.not_mem_nil
  | some a =>
    rw [held_of_running hrun] at h ⊢
    exact Activity.bucket_mem hv hb h

def lockUse (s : System service S A τ) : LockUse τ where
  table := s.world.locks
  held := s.held

theorem LocksKept.exact (h : s.LocksKept) : s.lockUse.Exact :=
  LockUse.exact_of_tracks h.tracked h.tidy

/-- Whoever has one guard for writing, and none for reading, is all that the table shows. -/
theorem LocksKept.state_eq (h : s.LocksKept) {t : τ} {path : ResourcePath}
    (hw : (s.held t).count ⟨path, .write⟩ = 1) (hr : ⟨path, .read⟩ ∉ s.held t) :
    s.world.locks.state path = { writer := some (t, 1) } := by
  have hmem : ⟨path, .write⟩ ∈ s.held t := List.count_pos_iff.1 (by omega)
  have hreaders : (s.world.locks.state path).readers = ∅ := by
    apply Assoc.eq_empty_of_get?
    intro t'
    rw [(h.tracked path).get?_readers_eq_none, List.count_eq_zero]
    by_cases ht : t' = t
    · rwa [ht]
    · exact h.tracked.compatible (Ne.symm ht) hmem
  have hwriter : (s.world.locks.state path).writer = some (t, 1) :=
    (h.exact.writer path t 1).2 ⟨Nat.le_refl 1, hw, fun t' ht =>
      h.tracked.compatible (Ne.symm ht) hmem⟩
  cases hstate : s.world.locks.state path with
  | mk readers writer =>
    rw [hstate] at hreaders hwriter
    dsimp only at hreaders hwriter
    rw [hreaders, hwriter]

/-! ## 3. Inside the allocation service -/

def next? (s : System service S A τ) (t : τ) : Option (Call × Action) :=
  (s.running t).bind fun a => match a.rest with
    | .step action _ => some (a.call, action)
    | .done _ => none

/-- A thread has come to the allocation service with a call, and has no answer yet. -/
def Allocating (s : System service S A τ) (t : τ) (call : Call) : Prop :=
  ∃ request, s.next? t = some (call, .allocate request)

def Reading (s : System service S A τ) (t : τ) (call : Call) : Prop :=
  ∃ table key, s.next? t = some (call, .get table key)

/-- What the locks keep apart at a moment. -/
structure Exclusive (s : System service S A τ) : Prop where
  /-- Only opening and extending a key asks for blocks. -/
  asks : ∀ t call, s.Allocating t call →
    (∃ request, call = .openKey request) ∨ ∃ request number, call = .allocateBlock request number
  /-- Who opens a key has the bucket for writing and nobody has it for reading, no key of the bucket
  is locked, and nobody else has a guard of the bucket or of a key of it. -/
  opening : ∀ t request, s.Allocating t (.openKey request) →
    s.world.locks.state request.bucketPath = { writer := some (t, 1) } ∧
      (∀ key, s.world.locks.isLocked (.key request.volume request.bucket key) = false) ∧
      ∀ t', t' ≠ t → ∀ guard ∈ s.held t', guard.path ≠ request.bucketPath ∧
        ∀ key, guard.path ≠ .key request.volume request.bucket key
  /-- Who extends a key is among the readers of the bucket, has the key for writing, and nobody else
  has a guard of the key. -/
  extending : ∀ t request number, s.Allocating t (.allocateBlock request number) →
    (s.world.locks.state request.bucketPath).readers.get? t = some 1 ∧
      (s.world.locks.state request.bucketPath).writer = none ∧
      s.world.locks.state request.path = { writer := some (t, 1) } ∧
      ∀ t', t' ≠ t → ∀ guard ∈ s.held t', guard.path ≠ request.path
  /-- Two threads inside are in different buckets, or extend different keys. -/
  apart : ∀ t t' call call', t ≠ t' → s.Allocating t call → s.Allocating t' call' →
    ∃ request request', call.request? = some request ∧ call'.request? = some request' ∧
      ((request.volume, request.bucket) ≠ (request'.volume, request'.bucket) ∨
        (∃ number number', call = .allocateBlock request number ∧
          call' = .allocateBlock request' number') ∧ request.key ≠ request'.key)
  /-- No look-up of a key reads a record while the key is locked for writing, as it is while it is
  extended. -/
  unread : ∀ t t' n request, (s.world.locks.state request.path).writer = some (t, n) →
    ¬s.Reading t' (.lookupKey request)

omit [DecidableEq τ] in
theorem exists_of_next? {t : τ} {call : Call} {action : Action}
    (h : s.next? t = some (call, action)) : ∃ (a : Activity service)
      (next : action.Answer → Program CallResult),
      s.running t = some a ∧ a.call = call ∧ a.rest = .step action next := by
  unfold next? at h
  rw [Option.bind_eq_some_iff] at h
  rcases h with ⟨a, hrun, h⟩
  split at h
  · next action' next hrest =>
    cases h
    exact ⟨a, next, hrun, rfl, hrest⟩
  · cases h

omit [DecidableEq τ] in
/-- Who works has its whole stack in hand. -/
theorem held_of_next? {t : τ} {call : Call} {action : Action}
    (h : s.next? t = some (call, action)) (hwork : action.Works true) :
    s.held t = call.lockStack ∧ action.Works call.writesOpenKeys := by
  obtain ⟨a, next, hrun, rfl, hrest⟩ := exists_of_next? h
  have hkeeps := a.keepsTo
  rw [hrest] at hkeeps
  rw [held_of_running hrun]
  cases action with
  | acquire path mode => exact hwork.elim
  | release path mode => exact hwork.elim
  | _ => exact hkeeps.1

variable {t t' : τ} {call call' : Call} {request request' : KeyRequest} {number : UInt64}

omit [DecidableEq τ] in
theorem Allocating.held (h : s.Allocating t call) : s.held t = call.lockStack := by
  obtain ⟨block, hnext⟩ := h
  exact (held_of_next? hnext rfl).1

omit [DecidableEq τ] in
theorem Allocating.validate (h : s.Allocating t call) {guard : LockGuard}
    (hguard : guard ∈ call.lockStack) : call.validate = .ok () := by
  rw [← h.held] at hguard
  obtain ⟨block, hnext⟩ := h
  obtain ⟨a, next, hrun, rfl, -⟩ := exists_of_next? hnext
  rw [held_of_running hrun] at hguard
  exact Activity.validate_of_mem hguard

omit [DecidableEq τ] in
theorem Allocating.opens_or_extends (h : s.Allocating t call) :
    (∃ request, call = .openKey request) ∨
      ∃ request number, call = .allocateBlock request number := by
  obtain ⟨block, hnext⟩ := h
  have hwrites : call.writesOpenKeys = true := (held_of_next? hnext rfl).2
  cases call with
  | openKey request => exact .inl ⟨request, rfl⟩
  | allocateBlock request number => exact .inr ⟨request, number, rfl⟩
  | _ => cases hwrites

omit [DecidableEq τ] in
/-- Whoever is inside has the bucket, for reading or for writing. -/
theorem Allocating.bucket_mem (h : s.Allocating t call) (hr : call.request? = some request) :
    ∃ mode, ⟨request.bucketPath, mode⟩ ∈ s.held t := by
  rw [h.held]
  obtain ⟨request, rfl⟩ | ⟨request, number, rfl⟩ := h.opens_or_extends
  · cases hr
    exact ⟨.write, List.mem_singleton_self _⟩
  · cases hr
    exact ⟨.read, List.mem_cons_of_mem _ (List.mem_singleton_self _)⟩

/-- No key of a bucket is locked while the bucket is locked for writing. -/
theorem LocksKept.isLocked_key (h : s.LocksKept) {v b : String} (hv : ValidName v)
    (hb : ValidName b) (hheld : s.held t = [⟨.bucket v b, .write⟩]) (key : String) :
    s.world.locks.isLocked (.key v b key) = false := by
  rw [Bool.eq_false_iff]
  intro hlocked
  obtain ⟨t', mode, hmem⟩ := (h.exact.isLocked _).1 hlocked
  -- whoever has a key of the bucket shares the bucket, and this thread has it for itself
  have hshared : ⟨.bucket v b, .read⟩ ∈ s.held t' := bucket_mem_held hv hb hmem
  by_cases ht : t' = t
  · rw [ht, hheld, List.mem_singleton] at hshared
    exact nomatch congrArg LockGuard.mode hshared
  · have hwrite : ⟨.bucket v b, .write⟩ ∈ s.held t := by
      rw [hheld]
      exact List.mem_singleton_self _
    exact h.tracked.compatible (Ne.symm ht) hwrite hshared

/-- Where one thread has a guard for writing, no other has a guard of the same path. -/
theorem LocksKept.path_ne (h : s.LocksKept) {path : ResourcePath} {guard : LockGuard}
    (hw : ⟨path, .write⟩ ∈ s.held t) (ht : t' ≠ t) (hguard : guard ∈ s.held t') :
    guard.path ≠ path := by
  rintro rfl
  exact h.tracked.compatible (Ne.symm ht) hw hguard

theorem LocksKept.opening (h : s.LocksKept) (ha : s.Allocating t (.openKey request)) :
    s.world.locks.state request.bucketPath = { writer := some (t, 1) } ∧
      (∀ key, s.world.locks.isLocked (.key request.volume request.bucket key) = false) ∧
      ∀ t', t' ≠ t → ∀ guard ∈ s.held t', guard.path ≠ request.bucketPath ∧
        ∀ key, guard.path ≠ .key request.volume request.bucket key := by
  have hheld : s.held t = [⟨request.bucketPath, .write⟩] := ha.held
  have hvalid : request.validate = .ok () := ha.validate (List.mem_singleton_self _)
  obtain ⟨hvol, hbucket, -⟩ := request.validate_eq_ok hvalid
  have hfree := h.isLocked_key hvol hbucket hheld
  refine ⟨h.state_eq (by simp [hheld]) (by simp [hheld]), hfree, ?_⟩
  intro t' ht guard hguard
  refine ⟨h.path_ne (by simp [hheld]) ht hguard, fun key hpath => ?_⟩
  have hlocked : s.world.locks.isLocked guard.path = true :=
    (h.exact.isLocked _).2 ⟨t', guard.mode, hguard⟩
  rw [hpath, hfree key] at hlocked
  cases hlocked

theorem LocksKept.extending (h : s.LocksKept)
    (ha : s.Allocating t (.allocateBlock request number)) :
    (s.world.locks.state request.bucketPath).readers.get? t = some 1 ∧
      (s.world.locks.state request.bucketPath).writer = none ∧
      s.world.locks.state request.path = { writer := some (t, 1) } ∧
      ∀ t', t' ≠ t → ∀ guard ∈ s.held t', guard.path ≠ request.path := by
  have hheld : s.held t = [⟨request.path, .write⟩, ⟨request.bucketPath, .read⟩] := ha.held
  have hvalid : request.validate = .ok () := ha.validate (List.mem_cons_self ..)
  obtain ⟨hvol, hbucket, -⟩ := request.validate_eq_ok hvalid
  have hne : request.bucketPath ≠ request.path := ResourcePath.bucket_ne_key hvol hbucket hvol
  have hread : ⟨request.bucketPath, .read⟩ ∈ s.held t := by simp [hheld]
  refine ⟨?_, ?_, h.state_eq (by simp [hheld]) (by simp [hheld, hne.symm]), ?_⟩
  · have hcount : (s.held t).count ⟨request.bucketPath, .read⟩ = 1 := by simp [hheld, hne.symm]
    rw [(h.tracked _).get?_readers, hcount]
    rfl
  · rw [(h.tracked _).writer_eq_none]
    intro t'
    rw [List.count_eq_zero]
    intro hwrite
    by_cases ht : t' = t
    · rw [ht, hheld] at hwrite
      simp [hne] at hwrite
    · exact h.tracked.compatible ht hwrite hread
  · exact fun t' ht guard hguard => h.path_ne (by simp [hheld]) ht hguard

/-- While a key is opened nobody else is inside with a key of the same bucket. -/
theorem LocksKept.bucket_ne (h : s.LocksKept) (ht : t ≠ t')
    (ha : s.Allocating t (.openKey request)) (ha' : s.Allocating t' call')
    (hr : call'.request? = some request') :
    (request.volume, request.bucket) ≠ (request'.volume, request'.bucket) := by
  intro heq
  obtain ⟨hvol, hbucket⟩ := Prod.mk.inj heq
  obtain ⟨mode, hmem⟩ := ha'.bucket_mem hr
  have hwrite : ⟨request'.bucketPath, .write⟩ ∈ s.held t := by
    rw [ha.held, KeyRequest.bucketPath, ← hvol, ← hbucket]
    exact List.mem_singleton_self _
  exact h.tracked.compatible ht hwrite hmem

/-- Two keys of one bucket that are extended at once are not the same. -/
theorem LocksKept.key_ne (h : s.LocksKept) (ht : t ≠ t') {number' : UInt64}
    (ha : s.Allocating t (.allocateBlock request number))
    (ha' : s.Allocating t' (.allocateBlock request' number'))
    (hbucket : (request.volume, request.bucket) = (request'.volume, request'.bucket)) :
    request.key ≠ request'.key := by
  intro hkey
  obtain ⟨hvol, hbucket⟩ := Prod.mk.inj hbucket
  have hpath : request.path = request'.path := by
    rw [KeyRequest.path, KeyRequest.path, hvol, hbucket, hkey]
  have hwrite : ⟨request.path, .write⟩ ∈ s.held t := by
    rw [ha.held]
    exact List.mem_cons_self ..
  have hwrite' : ⟨request.path, .write⟩ ∈ s.held t' := by
    rw [ha'.held, hpath]
    exact List.mem_cons_self ..
  exact h.tracked.compatible ht hwrite hwrite'

theorem LocksKept.apart (h : s.LocksKept) (ht : t ≠ t') (ha : s.Allocating t call)
    (ha' : s.Allocating t' call') :
    ∃ request request', call.request? = some request ∧ call'.request? = some request' ∧
      ((request.volume, request.bucket) ≠ (request'.volume, request'.bucket) ∨
        (∃ number number', call = .allocateBlock request number ∧
          call' = .allocateBlock request' number') ∧ request.key ≠ request'.key) := by
  obtain ⟨request, rfl⟩ | ⟨request, number, rfl⟩ := ha.opens_or_extends <;>
    obtain ⟨request', rfl⟩ | ⟨request', number', rfl⟩ := ha'.opens_or_extends <;>
    refine ⟨request, request', rfl, rfl, ?_⟩
  · exact .inl (h.bucket_ne ht ha ha' rfl)
  · exact .inl (h.bucket_ne ht ha ha' rfl)
  · exact .inl (h.bucket_ne ht.symm ha' ha rfl).symm
  · by_cases hbucket : (request.volume, request.bucket) = (request'.volume, request'.bucket)
    · exact .inr ⟨⟨number, number', rfl, rfl⟩, h.key_ne ht ha ha' hbucket⟩
    · exact .inl hbucket

/-- A look-up that reads has the key locked for reading. -/
theorem LocksKept.unread (h : s.LocksKept) {n : Nat}
    (hwriter : (s.world.locks.state request.path).writer = some (t, n)) :
    ¬s.Reading t' (.lookupKey request) := by
  intro hreading
  obtain ⟨table, key, hnext⟩ := hreading
  have hheld : s.held t' = [⟨request.path, .read⟩, ⟨request.bucketPath, .read⟩] :=
    (held_of_next? hnext trivial).1
  obtain ⟨hpos, hcount, -⟩ := (h.exact.writer request.path t n).1 hwriter
  have hcount' : (s.held t).count ⟨request.path, .write⟩ = n := hcount
  have hwrite : ⟨request.path, .write⟩ ∈ s.held t := List.count_pos_iff.1 (by omega)
  by_cases ht : t' = t
  · rw [← ht, hheld] at hwrite
    simp at hwrite
  · exact h.tracked.compatible (Ne.symm ht) hwrite
      (by simp [hheld] : ⟨request.path, .read⟩ ∈ s.held t')

/-- Whatever calls the threads make and however these interleave, opening a key keeps everybody else
out of its bucket while a block is allocated, extending one keeps everybody else from the key, and
no look-up reads a record of a key that is being extended. -/
theorem run_exclusive {w : World S A τ} (hlocks : w.locks = {}) (moves : List (Move S A τ)) :
    (({ world := w } : System service S A τ).run moves).Exclusive := by
  have h : (({ world := w } : System service S A τ).run moves).LocksKept :=
    run_locksKept hlocks moves
  exact {
    asks := fun _ _ ha => ha.opens_or_extends
    opening := fun _ _ ha => h.opening ha
    extending := fun _ _ _ ha => h.extending ha
    apart := fun _ _ _ _ ht ha ha' => h.apart ht ha ha'
    unread := fun _ _ _ _ hwriter => h.unread hwriter }

/-- Two keys of a bucket are extended at once, and a look-up of the first of them has to wait. -/
theorem run_exclusive_twoKeys :
    let w : World ed25519 localAllocation (Fin 3) :=
      { store := { store := .memory {} }
        allocator := (⟨1, 1, false⟩ : LocalAllocator)
        clock := 5 }
    let request : String → KeyRequest := fun key => { volume := "v", bucket := "b", key }
    let acts : Fin 3 → Nat → List (Move ed25519 localAllocation (Fin 3)) :=
      fun t n => List.replicate n (.act t)
    let moves : List (Move ed25519 localAllocation (Fin 3)) :=
      .begin 0 (.createVolume "v" "alice") :: acts 0 5 ++
        .begin 0 (.createBucket "v" "b") :: acts 0 8 ++
        .begin 0 (.openKey (request "k")) :: acts 0 9 ++
        .begin 0 (.openKey (request "l")) :: acts 0 9 ++
        .begin 0 (.allocateBlock (request "k") 1) :: acts 0 3 ++
        .begin 1 (.allocateBlock (request "l") 1) :: acts 1 3 ++
        .begin 2 (.lookupKey (request "k")) :: acts 2 2
    let s := ({ world := w } : System {} ed25519 localAllocation (Fin 3)).run moves
    let asked : AllocationRequest :=
      { size := 268435456, replicationType := .standAlone, replicationFactor := .one
        owner := "om1" }
    w.locks = {} ∧
      (s.next? 0 = some (.allocateBlock (request "k") 1, .allocate asked) ∧
        s.next? 1 = some (.allocateBlock (request "l") 1, .allocate asked) ∧
        s.next? 2 = some (.lookupKey (request "k"), .acquire (request "k").path .read)) ∧
      s.Exclusive := by
  intro w request acts moves s asked
  exact ⟨rfl, by decide +kernel, run_exclusive rfl moves⟩

end System

end ObjectMeta
