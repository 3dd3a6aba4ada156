import Mathlib.Logic.Relation
import ObjectMeta.Proofs.Concurrency.Exclusion
import ObjectMeta.Proofs.Operation.KeyHistory

/-!
# Who waits for whom

A lock is refused only while another call is on its way that conflicts with the one that asks
(`Call.Conflicts`), since the guards of different resources are never taken for one another, however
many separators the names of keys hold.  A thread that waits has coarser locks in hand meanwhile,
and others may wait for these; but whoever keeps a call on a key waiting is at work in the bucket of
that key, and whoever keeps an extension or a look-up waiting does not wait itself.  So look-ups
never wait for each other, nor do extensions of different keys, nor calls on keys of different
buckets, not even by way of other threads (`System.run_waitsOnConflict`).
-/

namespace ObjectMeta

open Operation Program

/-! ## 1. Calls that conflict -/

namespace Call

/-- The bucket that a call creates, or in which it works on a key. -/
def bucket? : Call → Option (String × String)
  | createBucket volume bucket => some (volume, bucket)
  | openKey request | allocateBlock request _ | lookupKey request =>
    some (request.volume, request.bucket)
  | _ => none

/-- The key that a call extends or looks up. -/
def key? : Call → Option KeyName
  | allocateBlock request _ | lookupKey request => some request.name
  | _ => none

def volume? : Call → Option String
  | createVolume volume _ | createBucket volume _ => some volume
  | _ => none

def ownsBucket : Call → Bool
  | createBucket .. | openKey _ => true
  | _ => false

def ownsKey : Call → Bool
  | allocateBlock .. => true
  | _ => false

def ownsVolume : Call → Bool
  | createVolume .. => true
  | _ => false

/-- Two calls meet in a bucket, at a key or in a volume, and one of them keeps it to itself. -/
def Conflicts (call call' : Call) : Prop :=
  (∃ name, call.bucket? = some name ∧ call'.bucket? = some name ∧
    (call.ownsBucket = true ∨ call'.ownsBucket = true)) ∨
  (∃ name, call.key? = some name ∧ call'.key? = some name ∧
    (call.ownsKey = true ∨ call'.ownsKey = true)) ∨
  ∃ name, call.volume? = some name ∧ call'.volume? = some name ∧
    (call.ownsVolume = true ∨ call'.ownsVolume = true)

end Call

/-! ## 2. What the locks of a call stand for -/

inductive Resource where
  | volume (name : String)
  | bucket (volumeName name : String)
  | key (name : KeyName)
  deriving DecidableEq

namespace Resource

def path : Resource → ResourcePath
  | volume v => .volume v
  | bucket v b => .bucket v b
  | key name => name.path

def Valid : Resource → Prop
  | volume v => ValidName v
  | bucket v b => ValidName v ∧ ValidName b
  | key name => name.Valid

/-- Different resources have different locks. -/
theorem path_inj {r r' : Resource} (h : r.Valid) (h' : r'.Valid) : r.path = r'.path ↔ r = r' := by
  refine ⟨fun hpath => ?_, congrArg path⟩
  cases r with
  | volume v =>
    cases r' with
    | volume v' => rw [ResourcePath.volume_inj.1 hpath]
    | bucket v' b' => exact absurd hpath (ResourcePath.volume_ne_bucket h)
    | key name' => exact absurd hpath (ResourcePath.volume_ne_key h)
  | bucket v b =>
    cases r' with
    | volume v' => exact absurd hpath.symm (ResourcePath.volume_ne_bucket h')
    | bucket v' b' =>
      obtain ⟨rfl, rfl⟩ := (ResourcePath.bucket_inj h.1 h'.1).1 hpath
      rfl
    | key name' => exact absurd hpath (ResourcePath.bucket_ne_key h.1 h.2 h'.volume)
  | key name =>
    cases r' with
    | volume v' => exact absurd hpath.symm (ResourcePath.volume_ne_key h')
    | bucket v' b' => exact absurd hpath.symm (ResourcePath.bucket_ne_key h'.1 h'.2 h.volume)
    | key name' =>
      have htable : name.path.tableKey = name'.path.tableKey := ResourcePath.tableKey_inj.2 hpath
      rw [(KeyName.tableKey_inj h h').1 htable]

end Resource

namespace Call

/-- The resources that a call locks, the latest first. -/
def uses : Call → List (Resource × LockMode)
  | createVolume volume _ => [(.volume volume, .write)]
  | createBucket volume bucket => [(.bucket volume bucket, .write), (.volume volume, .read)]
  | openKey request => [(.bucket request.volume request.bucket, .write)]
  | allocateBlock request _ =>
    [(.key request.name, .write), (.bucket request.volume request.bucket, .read)]
  | lookupKey request =>
    [(.key request.name, .read), (.bucket request.volume request.bucket, .read)]
  | _ => []

variable {call call' : Call} {r : Resource} {m m' : LockMode}

theorem bucket?_of_request? {request : KeyRequest} (h : call.request? = some request) :
    call.bucket? = some (request.volume, request.bucket) := by
  cases call with
  | openKey | allocateBlock | lookupKey =>
    cases h
    rfl
  | _ => cases h

theorem validate_of_request? {request : KeyRequest} (h : call.request? = some request) :
    call.validate = request.validate := by
  cases call with
  | openKey | allocateBlock | lookupKey =>
    cases h
    rfl
  | _ => cases h

theorem volume?_of_request? {request : KeyRequest} (h : call.request? = some request) :
    call.volume? = none := by
  cases call with
  | openKey | allocateBlock | lookupKey => rfl
  | _ => cases h

theorem bucket?_of_key? {name : KeyName} (h : call.key? = some name) :
    call.bucket? = some (name.volume, name.bucket) := by
  cases call with
  | allocateBlock | lookupKey =>
    cases h
    rfl
  | _ => cases h

theorem lockStack_eq (call : Call) :
    call.lockStack = call.uses.map fun use => ⟨use.1.path, use.2⟩ := by
  cases call <;> rfl

theorem nodup_uses (call : Call) : call.uses.Nodup := by
  cases call <;> simp [uses]

theorem uses_valid (h : call.validate = .ok ()) : ∀ use ∈ call.uses, use.1.Valid := by
  cases call with
  | createVolume volume owner =>
    rw [uses, List.forall_mem_singleton]
    exact validateVolumeName_eq_ok_iff.1 h
  | createBucket volume bucket =>
    obtain ⟨hvol, hbucket⟩ := validate_createBucket h
    rw [uses, List.forall_mem_cons, List.forall_mem_singleton]
    exact ⟨⟨hvol, hbucket⟩, hvol⟩
  | openKey request =>
    obtain ⟨hvol, hbucket, -⟩ := request.validate_eq_ok h
    rw [uses, List.forall_mem_singleton]
    exact ⟨hvol, hbucket⟩
  | allocateBlock request number | lookupKey request =>
    obtain ⟨hvol, hbucket, -⟩ := request.validate_eq_ok h
    rw [uses, List.forall_mem_cons, List.forall_mem_singleton]
    exact ⟨⟨hvol, hbucket⟩, hvol, hbucket⟩
  | _ => exact List.forall_mem_nil _

theorem nodup_lockStack (h : call.validate = .ok ()) : call.lockStack.Nodup := by
  rw [lockStack_eq]
  refine List.Nodup.map_on (fun use huse use' huse' heq => ?_) call.nodup_uses
  obtain ⟨hpath, hmode⟩ := LockGuard.mk.inj heq
  exact Prod.ext ((Resource.path_inj (uses_valid h _ huse) (uses_valid h _ huse')).1 hpath) hmode

/-- In a call with acceptable names a guard is for one resource only. -/
theorem mem_lockStack_iff (h : call.validate = .ok ()) (hr : r.Valid) :
    ⟨r.path, m⟩ ∈ call.lockStack ↔ (r, m) ∈ call.uses := by
  rw [lockStack_eq, List.mem_map]
  constructor
  · rintro ⟨⟨r', m'⟩, hmem, heq⟩
    obtain ⟨hpath, rfl⟩ := LockGuard.mk.inj heq
    rwa [← (Resource.path_inj (uses_valid h _ hmem) hr).1 hpath]
  · exact fun hmem => ⟨(r, m), hmem, rfl⟩

theorem exists_of_mem_lockStack {guard : LockGuard} (h : guard ∈ call.lockStack) :
    ∃ r, (r, guard.mode) ∈ call.uses ∧ guard.path = r.path := by
  rw [lockStack_eq, List.mem_map] at h
  obtain ⟨⟨r, m⟩, hmem, rfl⟩ := h
  exact ⟨r, hmem, rfl⟩

theorem mem_uses_volume {v : String} : (.volume v, m) ∈ call.uses ↔
    call.volume? = some v ∧ m = if call.ownsVolume then .write else .read := by
  cases call <;> simp [uses, volume?, ownsVolume, eq_comm]

theorem mem_uses_bucket {v b : String} : (.bucket v b, m) ∈ call.uses ↔
    call.bucket? = some (v, b) ∧ m = if call.ownsBucket then .write else .read := by
  cases call <;> simp [uses, bucket?, ownsBucket, eq_comm, and_assoc]

theorem mem_uses_key {name : KeyName} : (.key name, m) ∈ call.uses ↔
    call.key? = some name ∧ m = if call.ownsKey then .write else .read := by
  cases call <;> simp [uses, key?, ownsKey, eq_comm]

/-- Of two holds that do not go together one is for writing. -/
theorem owns_of_conflicts {b b' : Bool} (hm : m = if b then .write else .read)
    (hm' : m' = if b' then .write else .read) (h : m'.conflicts m = true) :
    b = true ∨ b' = true := by
  subst hm hm'
  cases b
  · cases b'
    · cases h
    · exact .inr rfl
  · exact .inl rfl

/-- Calls that cannot have a resource at the same time conflict. -/
theorem Conflicts.of_uses (h : (r, m) ∈ call.uses) (h' : (r, m') ∈ call'.uses)
    (hm : m'.conflicts m = true) : call.Conflicts call' := by
  cases r with
  | volume v =>
    rw [mem_uses_volume] at h h'
    exact .inr (.inr ⟨v, h.1, h'.1, owns_of_conflicts h.2 h'.2 hm⟩)
  | bucket v b =>
    rw [mem_uses_bucket] at h h'
    exact .inl ⟨(v, b), h.1, h'.1, owns_of_conflicts h.2 h'.2 hm⟩
  | key name =>
    rw [mem_uses_key] at h h'
    exact .inr (.inl ⟨name, h.1, h'.1, owns_of_conflicts h.2 h'.2 hm⟩)

/-- A key is the last lock of every call that locks it. -/
theorem head?_uses_key {name : KeyName} (h : (.key name, m) ∈ call.uses) :
    call.uses.head? = some (.key name, m) := by
  cases call <;> simp_all [uses]

/-- A bucket is the last lock of every call that keeps it to itself. -/
theorem head?_uses_bucket {v b : String} (h : (.bucket v b, .write) ∈ call.uses) :
    call.uses.head? = some (.bucket v b, .write) := by
  cases call <;> simp_all [uses]

theorem uses_of_key? {name : KeyName} (h : call.key? = some name) : ∃ mode,
    call.uses = [(.key name, mode), (.bucket name.volume name.bucket, .read)] := by
  cases call with
  | allocateBlock request number | lookupKey request =>
    cases h
    exact ⟨_, rfl⟩
  | _ => cases h

/-- Who keeps an extension or a look-up waiting has the lock in question as its last. -/
theorem head?_uses_of_conflicts {name : KeyName} (hkey : call.key? = some name)
    (h : (r, m) ∈ call.uses) (h' : (r, m') ∈ call'.uses) (hm : m'.conflicts m = true) :
    call'.uses.head? = some (r, m') := by
  obtain ⟨mode, huses⟩ := uses_of_key? hkey
  rw [huses] at h
  rcases List.mem_cons.1 h with heq | htail
  · obtain ⟨rfl, rfl⟩ := Prod.mk.inj heq
    exact head?_uses_key h'
  · obtain ⟨rfl, rfl⟩ := Prod.mk.inj (List.mem_singleton.1 htail)
    cases m' with
    | read => cases hm
    | write => exact head?_uses_bucket h'

end Call

/-! ## 3. Waiting -/

variable {service : KeyService} {S : SignatureScheme} {A : AllocationService} {τ : Type}
  [DecidableEq τ]

/-- A call that has an action left was not refused for its names. -/
theorem Activity.validate_of_rest {a : Activity service} {action : Action}
    {next : action.Answer → Program CallResult} (h : a.rest = .step action next) :
    a.call.validate = .ok () := by
  cases hvalid : a.call.validate with
  | ok u => rfl
  | error reason =>
    have hleads := a.leads
    rw [Call.program_of_refused hvalid, h] at hleads
    cases htrace : a.trace with
    | nil =>
      rw [htrace] at hleads
      cases leads_nil_iff.1 hleads
    | cons access rest =>
      rw [htrace] at hleads
      exact hleads.elim

namespace System

variable {s : System service S A τ} {t t' : τ}

def At (s : System service S A τ) (t : τ) (call : Call) : Prop :=
  ∃ a, s.running t = some a ∧ a.call = call

/-- A thread asks for a lock, and another has a guard in hand that does not go together with it. -/
def WaitsFor (s : System service S A τ) (t t' : τ) : Prop :=
  t' ≠ t ∧ ∃ call path mode m, s.next? t = some (call, .acquire path mode) ∧
    ⟨path, m⟩ ∈ s.held t' ∧ m.conflicts mode = true

structure WaitsOnConflict (s : System service S A τ) : Prop where
  /-- A lock is refused to keep the call apart from one of another thread that is on its way, and
  conflicts with it. -/
  refused : ∀ t call path mode, s.next? t = some (call, .acquire path mode) →
    s.world.isReady t (.acquire path mode) = false →
    ∃ t' call' action, t' ≠ t ∧ s.next? t' = some (call', action) ∧ call.Conflicts call' ∧
      s.WaitsFor t t'
  /-- Look-ups do not wait for each other, not even by way of other threads. -/
  lookUps : ∀ t t' request request', s.At t (.lookupKey request) → s.At t' (.lookupKey request') →
    ¬Relation.TransGen s.WaitsFor t t'
  /-- Nor do extensions of different keys. -/
  extensions : ∀ t t' request request' number number', s.At t (.allocateBlock request number) →
    s.At t' (.allocateBlock request' number') → request.name ≠ request'.name →
    ¬Relation.TransGen s.WaitsFor t t'
  /-- Nor do calls on keys of different buckets. -/
  buckets : ∀ t t' call call' request request', s.At t call → s.At t' call' →
    call.request? = some request → call'.request? = some request' →
    (request.volume, request.bucket) ≠ (request'.volume, request'.bucket) →
    ¬Relation.TransGen s.WaitsFor t t'

structure Waiting (s : System service S A τ) (t t' : τ) (a a' : Activity service) (r : Resource)
    (mode m : LockMode) : Prop where
  running : s.running t = some a
  running' : s.running t' = some a'
  asks : s.next? t = some (a.call, .acquire r.path mode)
  /-- The lock is the next one of the stack. -/
  isSuffix : ⟨r.path, mode⟩ :: a.trace.held <:+ a.call.lockStack
  held : ⟨r.path, m⟩ ∈ a'.trace.held
  valid : a.call.validate = .ok ()
  valid' : a'.call.validate = .ok ()
  uses : (r, mode) ∈ a.call.uses
  uses' : (r, m) ∈ a'.call.uses
  conflicts : m.conflicts mode = true

omit [DecidableEq τ] in
theorem exists_of_mem_held {guard : LockGuard} (h : guard ∈ s.held t) :
    ∃ a, s.running t = some a ∧ guard ∈ a.trace.held := by
  cases hrun : s.running t with
  | none =>
    rw [System.held, Function.comp, hrun] at h
    exact absurd h List.not_mem_nil
  | some a =>
    rw [held_of_running hrun] at h
    exact ⟨a, rfl, h⟩

omit [DecidableEq τ] in
theorem WaitsFor.waiting (h : s.WaitsFor t t') : ∃ a a' r mode m, s.Waiting t t' a a' r mode m := by
  obtain ⟨-, call, path, mode, m, hnext, hmem, hm⟩ := h
  obtain ⟨a, next, hrun, rfl, hrest⟩ := exists_of_next? hnext
  obtain ⟨a', hrun', hheld⟩ := exists_of_mem_held hmem
  have hkeeps := a.keepsTo
  rw [hrest] at hkeeps
  have hsuffix : ⟨path, mode⟩ :: a.trace.held <:+ a.call.lockStack := hkeeps.1
  obtain ⟨r, huses, hpath⟩ :=
    Call.exists_of_mem_lockStack (hsuffix.subset (List.mem_cons_self ..))
  have hvalid := Activity.validate_of_rest hrest
  have hvalid' := Activity.validate_of_mem hheld
  have hpath : path = r.path := hpath
  subst hpath
  exact ⟨a, a', r, mode, m, hrun, hrun', hnext, hsuffix, hheld, hvalid, hvalid', huses,
    (Call.mem_lockStack_iff hvalid' (Call.uses_valid hvalid _ huses)).1
      (a'.held_isSuffix.subset hheld), hm⟩

/-! ## 4. One waits for another -/

omit [DecidableEq τ] in
theorem next?_of_running {a : Activity service} {action : Action}
    {next : action.Answer → Program CallResult} (hrun : s.running t = some a)
    (hrest : a.rest = .step action next) : s.next? t = some (a.call, action) := by
  rw [next?, hrun, Option.bind_some, hrest]

namespace Waiting

variable {a a' : Activity service} {r : Resource} {mode m : LockMode}

omit [DecidableEq τ]

/-- Whoever has a guard in hand has an action left. -/
theorem exists_next? (h : s.Waiting t t' a a' r mode m) :
    ∃ action, s.next? t' = some (a'.call, action) := by
  cases hrest : a'.rest with
  | step action next => exact ⟨action, next?_of_running h.running' hrest⟩
  | done result =>
    have hkeeps := a'.keepsTo
    rw [hrest] at hkeeps
    have hheld := h.held
    rw [show a'.trace.held = [] from hkeeps] at hheld
    exact absurd hheld List.not_mem_nil

/-- Whoever keeps an extension or a look-up waiting has all its locks. -/
theorem held_eq {name : KeyName} (h : s.Waiting t t' a a' r mode m)
    (hkey : a.call.key? = some name) : a'.trace.held = a'.call.lockStack := by
  have hhead := Call.head?_uses_of_conflicts hkey h.uses h.uses' h.conflicts
  obtain ⟨rest, huses⟩ := List.head?_eq_some_iff.1 hhead
  have hstack : a'.call.lockStack = ⟨r.path, m⟩ :: rest.map fun use => ⟨use.1.path, use.2⟩ := by
    rw [Call.lockStack_eq, huses]
    rfl
  have hnodup := Call.nodup_lockStack h.valid'
  have hsuffix := a'.held_isSuffix
  rw [hstack] at hnodup hsuffix ⊢
  rcases List.suffix_cons_iff.1 hsuffix with heq | hlower
  · exact heq
  · exact absurd (hlower.subset h.held) (List.nodup_cons.1 hnodup).1

theorem not_waitsFor {name : KeyName} (h : s.Waiting t t' a a' r mode m)
    (hkey : a.call.key? = some name) (t'' : τ) : ¬s.WaitsFor t' t'' := by
  intro hwaits
  obtain ⟨b, b', r', mode', m', hw⟩ := hwaits.waiting
  cases hw.running.symm.trans h.running'
  -- there is no lock left to ask for
  have hlength := hw.isSuffix.length_le
  rw [h.held_eq hkey, List.length_cons] at hlength
  omega

/-- Whoever keeps a call in a bucket waiting, and not for a volume, has the bucket in hand. -/
theorem bucket_mem {v b : String} (h : s.Waiting t t' a a' r mode m)
    (hbucket : a.call.bucket? = some (v, b)) (hr : ∀ v', r ≠ .volume v') :
    ∃ m, ⟨.bucket v b, m⟩ ∈ s.held t' := by
  rw [held_of_running h.running']
  have huses := h.uses
  have hheld := h.held
  cases r with
  | volume v' => exact absurd rfl (hr v')
  | bucket v' b' =>
    cases hbucket.symm.trans (Call.mem_uses_bucket.1 huses).1
    exact ⟨m, hheld⟩
  | key name =>
    have hvalid : name.Valid := Call.uses_valid h.valid _ huses
    cases hbucket.symm.trans (Call.bucket?_of_key? (Call.mem_uses_key.1 huses).1)
    exact ⟨.read, Activity.bucket_mem hvalid.volume hvalid.bucket hheld⟩

/-- Who has a bucket in hand does not ask for a volume any more. -/
theorem not_volume {guard : LockGuard} (h : s.Waiting t t' a a' r mode m)
    (hheld : guard ∈ a.trace.held) (v' : String) : r ≠ .volume v' := by
  rintro rfl
  have huses := h.uses
  have hsuffix := h.isSuffix
  have hpos := List.length_pos_of_mem hheld
  have hlength := hsuffix.length_le
  cases hcall : a.call with
  | createVolume volume owner =>
    simp only [hcall, Call.lockStack, List.length_cons, List.length_nil] at hlength
    omega
  | createBucket volume bucket =>
    rw [hcall] at hsuffix huses
    rcases List.suffix_cons_iff.1 hsuffix with heq | hlower
    · -- the lock that is asked for last is the bucket's
      cases congrArg LockGuard.mode (List.cons.inj heq).1
      simp [Call.uses] at huses
    · have hlength := hlower.length_le
      simp only [List.length_cons, List.length_nil] at hlength
      omega
  | _ =>
    rw [hcall] at huses
    simp [Call.uses] at huses

end Waiting

variable {call call' : Call} {request request' : KeyRequest} {name : KeyName}

omit [DecidableEq τ]

theorem Waiting.call_eq {a a' : Activity service} {r : Resource} {mode m : LockMode}
    (h : s.Waiting t t' a a' r mode m) (hat : s.At t call) : a.call = call := by
  obtain ⟨b, hrun, rfl⟩ := hat
  cases hrun.symm.trans h.running
  rfl

/-- An extension or a look-up waits only for threads that do not wait. -/
theorem waitsFor_of_transGen (hat : s.At t call) (hkey : call.key? = some name)
    (h : Relation.TransGen s.WaitsFor t t') : s.WaitsFor t t' := by
  induction h with
  | single h => exact h
  | tail _ hlast ih =>
    obtain ⟨a, a', r, mode, m, hw⟩ := ih.waiting
    rw [← hw.call_eq hat] at hkey
    exact absurd hlast (hw.not_waitsFor hkey _)

/-- Whoever waits with a call on a key waits, in the end, for threads that have its bucket. -/
theorem bucket_mem_of_transGen (hat : s.At t call) (hr : call.request? = some request)
    (hvalid : ValidName request.volume ∧ ValidName request.bucket)
    (h : Relation.TransGen s.WaitsFor t t') :
    ∃ m, ⟨.bucket request.volume request.bucket, m⟩ ∈ s.held t' := by
  induction h with
  | single h =>
    obtain ⟨a, a', r, mode, m, hw⟩ := h.waiting
    have hcall := hw.call_eq hat
    refine hw.bucket_mem (hcall ▸ Call.bucket?_of_request? hr) ?_
    rintro v' rfl
    have hvolume := (Call.mem_uses_volume.1 hw.uses).1
    rw [hcall, Call.volume?_of_request? hr] at hvolume
    cases hvolume
  | tail _ hlast ih =>
    obtain ⟨m', hmem⟩ := ih
    obtain ⟨a, a', r, mode, m, hw⟩ := hlast.waiting
    rw [held_of_running hw.running] at hmem
    have huses : (.bucket request.volume request.bucket, m') ∈ a.call.uses :=
      (Call.mem_lockStack_iff hw.valid (r := .bucket ..) hvalid).1
        (a.held_isSuffix.subset hmem)
    exact hw.bucket_mem (Call.mem_uses_bucket.1 huses).1 (hw.not_volume hmem)

/-- Whoever has a bucket in hand is at a call that works in it. -/
theorem bucket?_of_mem_held {v b : String} {m : LockMode} (hat : s.At t call)
    (hvalid : ValidName v ∧ ValidName b) (h : ⟨.bucket v b, m⟩ ∈ s.held t) :
    call.bucket? = some (v, b) := by
  obtain ⟨a, hrun, rfl⟩ := hat
  rw [held_of_running hrun] at h
  have huses : (.bucket v b, m) ∈ a.call.uses :=
    (Call.mem_lockStack_iff (Activity.validate_of_mem h) (r := .bucket ..) hvalid).1
      (a.held_isSuffix.subset h)
  exact (Call.mem_uses_bucket.1 huses).1

/-- The calls of threads that wait for one another conflict. -/
theorem conflicts_of_waitsFor (hat : s.At t call) (hat' : s.At t' call') (h : s.WaitsFor t t') :
    call.Conflicts call' := by
  obtain ⟨a, a', r, mode, m, hw⟩ := h.waiting
  obtain ⟨b, hrun, rfl⟩ := hat'
  cases hrun.symm.trans hw.running'
  exact hw.call_eq hat ▸ .of_uses hw.uses hw.uses' hw.conflicts

theorem LocksKept.exists_waitsFor [DecidableEq τ] (h : s.LocksKept) {path : ResourcePath}
    {mode : LockMode} (hnext : s.next? t = some (call, .acquire path mode))
    (hready : s.world.isReady t (.acquire path mode) = false) : ∃ t', s.WaitsFor t t' := by
  have hwait : ¬s.world.locks.canGrant path mode t = true := Bool.eq_false_iff.1 hready
  rw [h.tracked.canGrant_iff] at hwait
  simp only [not_forall, not_not] at hwait
  obtain ⟨t', ht, m, hm, hmem⟩ := hwait
  exact ⟨t', ht, call, path, mode, m, hnext, hmem, hm⟩

theorem LocksKept.waitsOnConflict [DecidableEq τ] (h : s.LocksKept) : s.WaitsOnConflict where
  refused t call path mode hnext hready := by
    obtain ⟨t', hwaits⟩ := h.exists_waitsFor hnext hready
    obtain ⟨a, a', r, mode', m, hw⟩ := hwaits.waiting
    obtain ⟨action, hnext'⟩ := hw.exists_next?
    have hcall : a.call = call := (Prod.mk.inj (Option.some.inj (hw.asks.symm.trans hnext))).1
    exact ⟨t', a'.call, action, hwaits.1, hnext',
      hcall ▸ .of_uses hw.uses hw.uses' hw.conflicts, hwaits⟩
  lookUps t t' request request' hat hat' hgen := by
    have hconflicts := conflicts_of_waitsFor hat hat' (waitsFor_of_transGen hat rfl hgen)
    -- neither of two look-ups keeps anything to itself
    simp [Call.Conflicts, Call.ownsBucket, Call.ownsKey, Call.volume?] at hconflicts
  extensions t t' request request' number number' hat hat' hne hgen := by
    have hconflicts := conflicts_of_waitsFor hat hat' (waitsFor_of_transGen hat rfl hgen)
    obtain ⟨name, -, -, howns⟩ | ⟨name, hkey, hkey', -⟩ | ⟨name, hvolume, -⟩ := hconflicts
    · rcases howns with h | h <;> cases h
    · exact hne (Option.some.inj (hkey.trans hkey'.symm))
    · cases hvolume
  buckets t t' call call' request request' hat hat' hr hr' hne hgen := by
    obtain ⟨u, hfirst, -⟩ := Relation.TransGen.head'_iff.1 hgen
    obtain ⟨a, a', r, mode, m, hw⟩ := hfirst.waiting
    have hrequest : request.validate = .ok () := by
      rw [← Call.validate_of_request? hr, ← hw.call_eq hat]
      exact hw.valid
    obtain ⟨hvol, hbucket, -⟩ := request.validate_eq_ok hrequest
    obtain ⟨m', hmem⟩ := bucket_mem_of_transGen hat hr ⟨hvol, hbucket⟩ hgen
    have hsame := bucket?_of_mem_held hat' ⟨hvol, hbucket⟩ hmem
    rw [Call.bucket?_of_request? hr'] at hsame
    exact hne (Option.some.inj hsame).symm

/-- Whatever calls the threads make and however these interleave, a lock is refused only while a
call of another thread is on its way that conflicts with the one that asks; look-ups, extensions of
different keys and calls on keys of different buckets never keep each other waiting. -/
theorem run_waitsOnConflict [DecidableEq τ] {w : World S A τ} (hlocks : w.locks = {})
    (moves : List (Move S A τ)) :
    (({ world := w } : System service S A τ).run moves).WaitsOnConflict :=
  (run_locksKept hlocks moves).waitsOnConflict

/-- A key with separators in its name is being extended.  A look-up of the key waits, one of another
key does not. -/
theorem run_waitsOnConflict_separators :
    let w : World ed25519 localAllocation (Fin 3) :=
      { store := { store := .memory {} }
        allocator := (⟨1, 1, false⟩ : LocalAllocator)
        clock := 5 }
    let request : String → KeyRequest := fun key => { volume := "v", bucket := "b", key }
    let acts : Fin 3 → Nat → List (Move ed25519 localAllocation (Fin 3)) :=
      fun t n => List.replicate n (.act t)
    let moves : List (Move ed25519 localAllocation (Fin 3)) :=
      .begin 0 (.createVolume "v" "alice") :: acts 0 5 ++
        .begin 0 (.createBucket "v" "b") :: acts 0 8 ++
        .begin 0 (.openKey (request "b/k")) :: acts 0 9 ++
        .begin 0 (.allocateBlock (request "b/k") 1) :: acts 0 3 ++
        .begin 1 (.lookupKey (request "b/k")) :: acts 1 2 ++
        .begin 2 (.lookupKey (request "b/l")) :: acts 2 1
    let s := ({ world := w } : System {} ed25519 localAllocation (Fin 3)).run moves
    w.locks = {} ∧
      (s.next? 1 = some (.lookupKey (request "b/k"), .acquire (request "b/k").path .read) ∧
        s.world.isReady 1 (.acquire (request "b/k").path .read) = false) ∧
      (s.next? 2 = some (.lookupKey (request "b/l"), .acquire (request "b/l").path .read) ∧
        s.world.isReady 2 (.acquire (request "b/l").path .read) = true) ∧
      s.WaitsOnConflict := by
  intro w request acts moves s
  exact ⟨rfl, by decide +kernel, by decide +kernel, run_waitsOnConflict rfl moves⟩

end System

end ObjectMeta
