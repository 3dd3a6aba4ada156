import Mathlib.Data.List.Basic
import ObjectMeta.Proofs.Concurrency.Order
import ObjectMeta.Proofs.Operation.Conduct

/-!
# Sessions of open keys

A call that opens or extends a key has its turn on the key when it takes the lock under which it
writes.  The turns and what their calls returned say which blocks are in the key's session: those of
the last opening and of every extension since (`History.session`).  Whatever other threads, the
store, the clocks, the allocations and the token authority do meanwhile, the stored record of a key
that nobody is working on holds exactly these blocks (`System.run_keepsSessions`).

What a call returns is known only when it is done, so the proof follows what the calls have written
so far (`History.pending`).  A call in its turn excludes others from the key, so the turns of a key
come in the order of the writes (`System.Turns`).
-/

namespace ObjectMeta

variable {τ : Type}

/-! ## 1. Turns and sessions -/

/-- The lock that lets a call write the open key at a path, if it is such a call. -/
def Call.turnLock? (path : ResourcePath) : Call → Option ResourcePath
  | openKey request => if request.path = path then some request.bucketPath else none
  | allocateBlock request _ => if request.path = path then some request.path else none
  | _ => none

def Event.isTurn (path : ResourcePath) (e : Event τ) : Bool :=
  match e.happening with
  | .acted ⟨.acquire lock .write, _⟩ => e.call.turnLock? path = some lock
  | _ => false

/-- The blocks of a key after one more turn on it, given what the call returned. -/
def continueSession (session : Option (List BlockId)) : Option CallResult → Option (List BlockId)
  | some (.ok (.record record)) => some record.blocks
  | some (.ok (.location location)) => session.map (· ++ [location.block])
  | _ => session

def Trace.continueSession (call : Call) (trace : Trace) (session : Option (List BlockId)) :
    Option (List BlockId) :=
  -- what was allocated counts once it is written
  if trace.puts = [] then session
  else match call with
    | .openKey _ => some trace.blocks
    | _ => session.map (· ++ trace.blocks)

namespace History

def turns (history : History τ) (path : ResourcePath) : List (Event τ) :=
  history.filter (Event.isTurn path)

/-- The blocks of the session of a key, if it was opened: those of the last opening, then one for
each extension since, in the order of their turns. -/
def session (history : History τ) (path : ResourcePath) : Option (List BlockId) :=
  (turns history path).foldl
    (fun session e => continueSession session (result? history e.index)) none

/-- The blocks of the session of a key as far as they are written. -/
def pending (history : History τ) (path : ResourcePath) : Option (List BlockId) :=
  (turns history path).foldl
    (fun session e => (trace history e.index).continueSession e.call session) none

theorem turns_concat (history : History τ) (e : Event τ) (path : ResourcePath) :
    turns (history ++ [e]) path =
      turns history path ++ if e.isTurn path then [e] else [] := by
  rw [turns, List.filter_append, List.filter_cons, List.filter_nil]
  rfl

/-- A turn on a key is a lock taken by a call that may write the key under it. -/
theorem mem_turns {history : History τ} {path : ResourcePath} {e : Event τ}
    (h : e ∈ turns history path) : e ∈ history ∧ ∃ lock, e.call.turnLock? path = some lock ∧
      ⟨.acquire lock .write, ()⟩ ∈ trace history e.index := by
  obtain ⟨he, hturn⟩ := List.mem_filter.1 h
  refine ⟨he, ?_⟩
  rw [Event.isTurn] at hturn
  split at hturn
  · next lock _ hacted =>
    refine ⟨lock, of_decide_eq_true hturn, mem_trace.2 ⟨e, he, rfl, ?_⟩⟩
    rw [Event.access?, hacted]
  · cases hturn

/-- Sessions depend on what the calls with a turn have done. -/
theorem pending_congr {history history' : History τ} {path : ResourcePath}
    (hturns : turns history' path = turns history path)
    (h : ∀ e ∈ turns history path, ∀ session,
      (trace history' e.index).continueSession e.call session =
        (trace history e.index).continueSession e.call session) :
    pending history' path = pending history path := by
  rw [pending, pending, hturns]
  exact List.foldl_ext _ _ _ fun session e he => h e he session

theorem turns_concat_of_not {e : Event τ} {path : ResourcePath} (h : e.isTurn path = false)
    (history : History τ) : turns (history ++ [e]) path = turns history path := by
  rw [turns_concat, h]
  exact List.append_nil _

/-- An event that is no access changes no session. -/
theorem pending_concat_of_silent {e : Event τ} (h : e.access? = none) (history : History τ)
    (path : ResourcePath) : turns (history ++ [e]) path = turns history path ∧
      pending (history ++ [e]) path = pending history path := by
  have hturn : e.isTurn path = false := by
    obtain ⟨_, _, _, happening⟩ := e
    cases happening with
    | acted => cases h
    | _ => rfl
  have hturns := turns_concat_of_not hturn history
  refine ⟨hturns, pending_congr hturns fun e' _ session => ?_⟩
  rw [trace_concat_of_silent h]

end History

/-! ## 2. Texts and tokens that can be stored -/

def Short (text : String) : Prop := (Bytes.ofText text).length < 2 ^ 63

def Access.Storable : Access → Prop
  | ⟨.mint owner _ _, .ok token⟩ => Short owner → LawfulStored.fits token
  | _ => True

theorem TokenIdentifier.length_encode (id : TokenIdentifier) : id.encode.length =
    69 + (Bytes.ofText id.kind).length + (Bytes.ofText id.owner).length := by
  simp [encode, textField, intField, field]
  omega

theorem TokenAuthority.mint_fits {S : SignatureScheme} {authority : TokenAuthority S} {now : Int64}
    {owner : String} {block : BlockId} {maxLength : Int64} {token : BlockToken}
    (h : authority.mint now owner block maxLength = .ok token) (hs : Short owner) :
    LawfulStored.fits token := by
  rw [mint] at h
  cases hk : authority.key with
  | error e =>
    rw [hk] at h
    cases h
  | ok key =>
    rw [hk] at h
    cases h
    have howner : (Bytes.ofText owner).length < 2 ^ 63 := hs
    have hkind : (Bytes.ofText TokenIdentifier.blockTokenKind).length = 16 := by decide
    have hid := (authority.claims now owner block maxLength).length_encode
    simp only [claims, hkind] at hid
    -- the owner is all that a caller can make long
    refine ⟨⟨?_, fun _ _ => trivial⟩, ⟨?_, fun _ _ => trivial⟩⟩
    · show ((authority.claims now owner block maxLength).encode).length < 256 ^ 8
      rw [claims, hid]
      omega
    · show (S.sign key _).bytes.length < 256 ^ 8
      rw [(S.sign key _).length_bytes]
      decide

theorem World.perform_storable {S : SignatureScheme} {A : AllocationService} [DecidableEq τ]
    (w : World S A τ) (t : τ) (action : Action) :
    (Access.mk action (w.perform t action).1).Storable := by
  cases action with
  | mint owner block maxLength =>
    show (Access.mk (.mint owner block maxLength) (w.mint owner block maxLength)).Storable
    rw [World.mint]
    cases w.authority with
    | none => exact fun _ _ h => by cases h
    | some authority =>
      simp only []
      cases hm : authority.mint w.tokenClock owner block maxLength with
      | error e => trivial
      | ok token =>
        rintro hs _ ⟨⟩
        exact TokenAuthority.mint_fits hm hs
  | _ => trivial

def Move.Brief (service : KeyService) {S : SignatureScheme} {A : AllocationService} :
    Move S A τ → Prop
  | begin _ call => ∀ request, call.request? = some request → Short (service.tokenOwner request)
  | _ => True

namespace System

variable {service : KeyService} {S : SignatureScheme} {A : AllocationService}

/-! ## 3. What the history holds -/

/-- All calls are guarded with short texts, and all that they learned can be believed. -/
structure Sound (s : System service S A τ) : Prop where
  guarded : ∀ e ∈ s.history, e.call.isGuarded = true
  fits : ∀ e ∈ s.history, ∀ request, e.call.request? = some request →
    LawfulStored.fits request.path.text ∧ Short (service.tokenOwner request)
  credible : ∀ e ∈ s.history, ∀ access, e.access? = some access →
    access.Credible ∧ access.Storable

theorem sound_empty (w : World S A τ) : ({ world := w } : System service S A τ).Sound := by
  constructor <;> simp

/-- One more event. -/
theorem Sound.concat {s s' : System service S A τ} (h : s.Sound) {e : Event τ}
    (hs' : s'.history = s.history ++ [e]) (hguarded : e.call.isGuarded = true)
    (hfits : ∀ request, e.call.request? = some request →
      LawfulStored.fits request.path.text ∧ Short (service.tokenOwner request))
    (hcredible : ∀ access, e.access? = some access → access.Credible ∧ access.Storable) :
    s'.Sound := by
  have hmem : ∀ e' ∈ s'.history, e' ∈ s.history ∨ e' = e := by
    intro e' he'
    rw [hs', List.mem_append, List.mem_singleton] at he'
    exact he'
  refine ⟨fun e' he' => ?_, fun e' he' => ?_, fun e' he' => ?_⟩
  · obtain he' | rfl := hmem e' he'
    · exact h.guarded e' he'
    · exact hguarded
  · obtain he' | rfl := hmem e' he'
    · exact h.fits e' he'
    · exact hfits
  · obtain he' | rfl := hmem e' he'
    · exact h.credible e' he'
    · exact hcredible

theorem Sound.call_of_running {s : System service S A τ} (h : s.Sound) (hc : s.Consistent) {t : τ}
    {a : Activity service} (hrun : s.running t = some a) :
    a.call.isGuarded = true ∧ ∀ request, a.call.request? = some request →
      LawfulStored.fits request.path.text ∧ Short (service.tokenOwner request) :=
  ⟨h.guarded _ (hc.began t a hrun), h.fits _ (hc.began t a hrun)⟩

variable [DecidableEq τ]

theorem Sound.transition {s s' : System service S A τ} {m : Move S A τ} (h : s.Sound)
    (ho : s.Orderly) (hc : s.Consistent) (hm : m.Guarded) (hb : m.Brief service)
    (ht : Transition m s s') : s'.Sound := by
  cases ht with
  | begin hidle =>
    exact h.concat rfl hm.1 (fun request hr => ⟨hm.2 request hr, hb request hr⟩)
      fun _ ha => by cases ha
  | @act _ t a action next hrun hrest hready =>
    obtain ⟨hguarded, hfits⟩ := h.call_of_running hc hrun
    refine h.concat rfl hguarded hfits fun access ha => ?_
    cases ha
    exact ⟨Access.credible_of_stands (s.world.perform_stands t action) ho.filed,
      s.world.perform_storable t action⟩
  | @finish _ _ t a result hrun hrest =>
    obtain ⟨hguarded, hfits⟩ := h.call_of_running hc hrun
    exact h.concat rfl hguarded hfits fun _ ha => by cases ha
  | disturb => exact ⟨h.guarded, h.fits, h.credible⟩

omit [DecidableEq τ] in
theorem Sound.credible_of_running {s : System service S A τ} (h : s.Sound) (hc : s.Consistent)
    {t : τ} {a : Activity service} (hrun : s.running t = some a) :
    ∀ access ∈ a.trace, access.Credible ∧ access.Storable := by
  intro access ha
  rw [← hc.trace t a hrun, History.mem_trace] at ha
  obtain ⟨e, he, -, ha⟩ := ha
  exact h.credible e he access ha

omit [DecidableEq τ] in
theorem Sound.conducts {s : System service S A τ} (h : s.Sound) (hc : s.Consistent) {t : τ}
    {a : Activity service} (hrun : s.running t = some a) (hw : a.call.writesOpenKeys = true) :
    a.rest.Always Access.Credible (a.call.Conducts service) (a.call.Ends service) a.trace :=
  (Call.conducts service hw).of_leads a.leads
    fun access ha => (h.credible_of_running hc hrun access ha).1

omit [DecidableEq τ] in
theorem Sound.spares {s : System service S A τ} (h : s.Sound) (hc : s.Consistent) {t : τ}
    {a : Activity service} (hrun : s.running t = some a) (hw : a.call.writesOpenKeys = false) :
    a.rest.Always Access.Credible (fun _ => Action.SparesOpenKeys) (fun _ _ => True) a.trace :=
  (Call.spares_openKeys service (h.guarded _ (hc.began t a hrun)) hw).of_leads a.leads
    fun access ha => (h.credible_of_running hc hrun access ha).1

omit [DecidableEq τ] in
theorem Sound.ends {s : System service S A τ} (h : s.Sound) (hc : s.Consistent) {e : Event τ}
    (he : e ∈ s.history) {result : CallResult}
    (hr : History.result? s.history e.index = some result) (hw : e.call.writesOpenKeys = true) :
    e.call.Ends service (History.trace s.history e.index) result := by
  refine (Call.conducts service hw).of_leads (hc.complete e he result hr) fun access ha => ?_
  obtain ⟨e', he', -, ha⟩ := History.mem_trace.1 ha
  exact (h.credible e' he' access ha).1

end System

/-! ## 4. Taking a turn -/

section Acquires

variable {call : Call} {trace : Trace} {lock path : ResourcePath} {request : KeyRequest}

theorem Call.exists_request_of_turnLock? (h : (call.turnLock? path).isSome = true) :
    call.writesOpenKeys = true ∧ ∃ request, call.request? = some request ∧ request.path = path := by
  cases call with
  | openKey request | allocateBlock request _ =>
    refine ⟨rfl, request, rfl, ?_⟩
    rw [turnLock?] at h
    split at h
    · assumption
    · cases h
  | _ => cases h

theorem Call.turnLock?_of_request (hw : call.writesOpenKeys = true)
    (hr : call.request? = some request) : (call.turnLock? request.path).isSome = true := by
  cases call with
  | openKey | allocateBlock =>
    cases hr
    simp [turnLock?]
  | _ => cases hw

theorem Call.Acquires.turnLock? (h : call.Acquires trace lock .write)
    (hr : call.request? = some request) : call.turnLock? request.path = some lock := by
  cases call with
  | openKey =>
    cases hr
    rw [Call.turnLock?, if_pos rfl, h.2.1]
  | allocateBlock =>
    cases hr
    obtain ⟨-, -, hmode⟩ | ⟨-, hlock, -⟩ := h
    · cases hmode
    · rw [Call.turnLock?, if_pos rfl, hlock]
  | _ => exact h.elim

/-- A call takes no lock twice. -/
theorem Call.Acquires.not_mem (h : call.Acquires trace lock .write) :
    ⟨.acquire lock .write, ()⟩ ∉ trace := by
  cases call with
  | openKey =>
    rw [h.1]
    exact List.not_mem_nil
  | allocateBlock =>
    obtain ⟨-, -, hmode⟩ | ⟨rfl, -, -⟩ := h
    · cases hmode
    · simp
  | _ => exact h.elim

/-- Whoever takes a turn covers the key for writing. -/
theorem Call.Acquires.covers (h : call.Acquires trace lock .write)
    (hr : call.request? = some request) (hv : request.validate = .ok ()) :
    Covers (⟨lock, .write⟩ :: trace.held) .write .openKeys request.path.tableKey := by
  obtain ⟨hvol, hbucket, -⟩ := request.validate_eq_ok hv
  cases call with
  | openKey =>
    cases hr
    -- the lock on the bucket covers all keys in it
    obtain ⟨-, rfl, -⟩ := h
    exact .keysOfBucket hvol hbucket (.inl (List.mem_cons_self ..)) rfl
  | allocateBlock =>
    cases hr
    obtain ⟨-, -, hmode⟩ | ⟨rfl, rfl, -⟩ := h
    · cases hmode
    · exact .openKey hvol hbucket (.inr ⟨rfl, List.mem_cons_of_mem _ (List.mem_singleton_self _)⟩)
        (.inl (List.mem_cons_self ..)) rfl
  | _ => exact h.elim

/-- Whoever takes a lock but no turn covers nothing for writing yet. -/
theorem Call.Acquires.not_covers {key : Bytes} (h : call.Acquires trace lock .read) :
    ¬Covers (⟨lock, .read⟩ :: trace.held) .write .openKeys key := by
  cases call with
  | openKey => cases h.2.2
  | allocateBlock =>
    obtain ⟨rfl, rfl, -⟩ | ⟨-, -, hmode⟩ := h
    · intro hc
      -- a cover for writing needs a write lock, and there are only read locks
      cases hc with
      | keysOfBucket _ _ hold => exact absurd hold.of_write (by simp)
      | openKey _ _ _ hold => exact absurd hold.of_write (by simp)
    · cases hmode
  | _ => exact h.elim

theorem Call.Acquires.puts {mode : LockMode} (h : call.Acquires trace lock mode) :
    trace.puts = [] := by
  cases call with
  | openKey => rw [h.1]; rfl
  | allocateBlock => obtain ⟨rfl, -⟩ | ⟨rfl, -⟩ := h <;> rfl
  | _ => exact h.elim

end Acquires

theorem Event.isTurn_of_call {e : Event τ} {path : ResourcePath}
    (h : (e.call.turnLock? path).isSome = false) : e.isTurn path = false := by
  rw [isTurn]
  split
  · next lock _ _ =>
    refine decide_eq_false fun hlock => ?_
    rw [hlock] at h
    cases h
  · rfl

/-- Only taking a lock adds to the locks in hand. -/
theorem Access.heldAfter_subset {access : Access} {held : List LockGuard}
    (h : ∀ path mode, access.action ≠ .acquire path mode) :
    ∀ g ∈ access.heldAfter held, g ∈ held := by
  obtain ⟨action, answer⟩ := access
  cases action with
  | acquire path mode => exact absurd rfl (h path mode)
  | release path mode => exact fun g hg => List.mem_of_mem_erase hg
  | _ => exact fun g hg => hg

theorem Call.Conducts.trace_eq_nil {service : KeyService} {call : Call} {trace : Trace}
    {action : Action} (h : call.Conducts service trace action) (hheld : trace.held = []) :
    trace = [] := by
  cases action with
  | acquire lock mode =>
    cases call with
    | openKey => exact h.1.1
    | allocateBlock =>
      obtain ⟨hnil, -⟩ | ⟨rfl, -⟩ := h.1
      · exact hnil
      · cases hheld
    | _ => exact h.1.elim
  | put =>
    obtain ⟨_, _, hwrites, -⟩ := h
    exact absurd hheld hwrites.held_ne_nil
  | allocate => exact absurd hheld h.1
  | _ => exact absurd hheld h

theorem Trace.continueSession_of_puts {call : Call} {trace : Trace} (h : trace.puts = [])
    (session : Option (List BlockId)) : trace.continueSession call session = session :=
  if_pos h

/-- An access that writes nothing, and allocates nothing after a write, does not continue a
session. -/
theorem Trace.continueSession_concat {call : Call} {trace : Trace} {access : Access}
    (hput : access.put? = none) (hblock : access.block? = none ∨ trace.puts = [])
    (session : Option (List BlockId)) :
    Trace.continueSession call (trace ++ [access]) session =
      trace.continueSession call session := by
  have hputs : puts (trace ++ [access]) = trace.puts := by
    rw [puts_append]
    simp [puts, hput]
  obtain hblock | hnone := hblock
  · have hblocks : blocks (trace ++ [access]) = trace.blocks := by
      rw [blocks_append]
      simp [blocks, hblock]
    simp only [continueSession, hputs, hblocks]
  · rw [continueSession_of_puts hnone, continueSession_of_puts (hputs.trans hnone)]

/-- How a call ends says what it has done. -/
theorem Call.Ends.continueSession {service : KeyService} {call : Call} {trace : Trace}
    {result : CallResult} (h : call.Ends service trace result) (session : Option (List BlockId)) :
    ObjectMeta.continueSession session (some result) = trace.continueSession call session := by
  cases result with
  | error e => exact (Trace.continueSession_of_puts h session).symm
  | ok outcome =>
    obtain ⟨before, record, after, hwrites, rfl, -, hblocks⟩ := h
    -- The call has written, and it allocated nothing afterwards.
    have hputs : Trace.puts (before ++ ⟨record.putOpen, .ok ()⟩ :: after) ≠ [] := by
      rw [Trace.puts_append, hwrites.puts]
      exact List.cons_ne_nil _ _
    have hsame : Trace.blocks (before ++ ⟨record.putOpen, .ok ()⟩ :: after) = before.blocks := by
      rw [Trace.blocks_append]
      exact (congrArg _ hblocks).trans (List.append_nil _)
    unfold Trace.continueSession
    rw [if_neg hputs, hsame]
    cases hwrites <;> rfl

/-! ## 5. Turns keep sessions -/

def Store.Keeps (store : Store) (path : ResourcePath) (blocks : List BlockId) : Prop :=
  ∃ (record : KeyRecord) (version : LocationVersion),
    store.get .openKeys path.tableKey = some (Stored.encode record) ∧
      LawfulStored.fits record ∧ record.path = path ∧ record.versions = [version] ∧
      version.locations.map (·.block) = blocks

/-- A call that writes what it made of the stored record keeps the session in the store. -/
theorem Call.Writes.keeps {service : KeyService} {call : Call} {trace : Trace} {record : KeyRecord}
    {outcome : Outcome} {request : KeyRequest} {store : Store} {session : Option (List BlockId)}
    {blocks : List BlockId} (h : call.Writes service trace record outcome)
    (hr : call.request? = some request) (hfits : LawfulStored.fits request.path.text)
    (howner : Short (service.tokenOwner request))
    (hstorable : ∀ access ∈ trace, access.Storable)
    (hread : ∀ bytes, ⟨.get .openKeys request.path.tableKey, .ok bytes⟩ ∈ trace →
      store.get .openKeys request.path.tableKey = bytes)
    (hkept : ∀ blocks, session = some blocks → blocks.length < 256 ^ 8 →
      store.Keeps request.path blocks)
    (hblocks : Trace.continueSession call (trace ++ [⟨record.putOpen, .ok ()⟩]) session =
      some blocks) (hlength : blocks.length < 256 ^ 8) :
    (store.put .openKeys record.path.tableKey (Stored.encode record)).Keeps request.path
      blocks := by
  have hpath := h.path hr
  have hput : (store.put .openKeys record.path.tableKey (Stored.encode record)).get .openKeys
      request.path.tableKey = some (Stored.encode record) := by
    rw [Store.get_put, if_pos ⟨rfl, hpath ▸ rfl⟩]
  rw [← hpath] at hfits
  cases h with
  | @first _ _ _ block token =>
    cases hr
    cases hblocks
    have htoken : LawfulStored.fits token :=
      hstorable ⟨.mint (service.tokenOwner request) block (service.firstBlockSize request),
        .ok token⟩ (by simp [KeyService.opening]) howner
    -- an opening writes one version with one block, whatever was stored before
    refine ⟨_, _, hput, KeyRecord.fits_of_single hfits rfl (by decide : 1 < 256 ^ 8)
      fun location hl => ?_, hpath, rfl, rfl⟩
    rw [List.mem_singleton.1 hl]
    exact htoken
  | @next _ number bytes found block token time hdecode hfound hversion =>
    cases hr
    have htoken : LawfulStored.fits token :=
      hstorable ⟨.mint (service.tokenOwner request) block service.blockSize, .ok token⟩
        (by simp [KeyService.extending]) howner
    obtain ⟨before, rfl, rfl⟩ := Option.map_eq_some_iff.1 hblocks
    have hone : before.length < 256 ^ 8 := by
      rw [List.length_append] at hlength
      omega
    -- What the call has read is the record that holds the session so far.
    obtain ⟨old, version, hget, hold, -, hversions, rfl⟩ := hkept before rfl hone
    have hbytes := hread (some bytes) (by simp [KeyService.extending])
    rw [hget, Option.some.injEq] at hbytes
    rw [← hbytes, Stored.decode_encode hold] at hdecode
    cases hdecode
    have hnew := KeyService.extendedRecord_versions hversions hversion
      (KeyService.locationOf block service.blockSize token) time
    refine ⟨_, _, hput, KeyRecord.fits_of_single hfits hnew ?_ fun location hl => ?_, hpath, hnew,
      List.map_append⟩
    · rw [List.length_append, List.length_map] at hlength
      rw [LocationVersion.append, List.length_append]
      exact hlength
    · obtain hl | hl := List.mem_append.1 hl
      · exact (hold.2.2.2.2 version (by simp [hversions])).2 location hl
      · rw [List.mem_singleton.1 hl]
        exact htoken

theorem Call.Writes.intact {service : KeyService} {call : Call} {trace : Trace} {record : KeyRecord}
    {outcome : Outcome} (h : call.Writes service trace record outcome) : trace.Intact := by
  cases h <;> simp [Trace.Intact, KeyService.opening, KeyService.extending, Action.isHarmless]

/-- What a call has read of the key that it is about to write, it has read under its cover. -/
theorem Call.Writes.read_covered {service : KeyService} {call : Call} {trace : Trace}
    {record : KeyRecord} {outcome : Outcome} {key : Bytes} {answer : Option Bytes}
    (h : call.Writes service trace record outcome)
    (hread : ⟨.get .openKeys key, .ok answer⟩ ∈ trace) :
    ∃ before after, trace = before ++ ⟨.get .openKeys key, .ok answer⟩ :: after ∧
      Trace.held before = trace.held := by
  cases h with
  | first => simp [KeyService.opening] at hread
  | @next request _ bytes =>
    simp only [KeyService.extending, List.mem_cons, Access.mk.injEq, reduceCtorEq, false_and,
      Action.get.injEq, true_and, false_or, List.not_mem_nil, or_false] at hread
    obtain ⟨rfl, hanswer⟩ := hread
    cases hanswer
    exact ⟨[_, _], _, rfl, rfl⟩

namespace System

variable {service : KeyService} {S : SignatureScheme} {A : AllocationService}

/-- Every call has at most one turn on a key, a call in its turn is the last to have had one, and
the session as far as it is written is in the store. -/
structure Turns (s : System service S A τ) (path : ResourcePath) : Prop where
  once : ((History.turns s.history path).map (·.index)).Nodup
  last : ∀ t a, s.running t = some a → (a.call.turnLock? path).isSome = true →
    Covers a.trace.held .write .openKeys path.tableKey →
      ∃ before e, History.turns s.history path = before ++ [e] ∧ e.index = a.index
  kept : ∀ blocks, History.pending s.history path = some blocks → blocks.length < 256 ^ 8 →
    s.world.store.store.Keeps path blocks

theorem turns_empty (w : World S A τ) (path : ResourcePath) :
    ({ world := w } : System service S A τ).Turns path where
  once := List.nodup_nil
  last _ _ hrun := by cases hrun
  kept _ hp := by cases hp

variable {s s' : System service S A τ} {path : ResourcePath} {t : τ} {a : Activity service}
  {action : Action} {next : action.Answer → Program CallResult}

/-- Turns stay as they are while nobody takes one or writes. -/
theorem Turns.same (h : s.Turns path)
    (hturns : History.turns s'.history path = History.turns s.history path)
    (hpending : History.pending s'.history path = History.pending s.history path)
    (hstore : s'.world.store.store.get .openKeys path.tableKey =
      s.world.store.store.get .openKeys path.tableKey)
    (hlast : ∀ t a', s'.running t = some a' → (a'.call.turnLock? path).isSome = true →
      Covers a'.trace.held .write .openKeys path.tableKey →
        ∃ a, s.running t = some a ∧ a.index = a'.index ∧ a.call = a'.call ∧
          Covers a.trace.held .write .openKeys path.tableKey) : s'.Turns path where
  once := hturns ▸ h.once
  last t a' hrun hcall hcover := by
    obtain ⟨a, hrun, hindex, heq, hcover⟩ := hlast t a' hrun hcall hcover
    rw [hturns, ← hindex]
    exact h.last t a hrun (heq ▸ hcall) hcover
  kept blocks hp hlength := by
    obtain ⟨record, version, hget, hrest⟩ := h.kept blocks (hpending ▸ hp) hlength
    exact ⟨record, version, hstore.trans hget, hrest⟩

variable [DecidableEq τ]

theorem Turns.begin (h : s.Turns path) (call : Call) : (s.begin t call).Turns path := by
  obtain ⟨hturns, hpending⟩ := History.pending_concat_of_silent
    (e := ⟨s.history.length, t, call, .began⟩) rfl s.history path
  refine h.same hturns hpending rfl fun t' a' hrun _ hcover => ?_
  obtain ⟨rfl, ha⟩ | ⟨-, hrun⟩ := update_eq_some_iff.1 hrun
  · cases ha
    -- a call that has just begun has no locks
    cases hcover with
    | keysOfBucket _ _ hold => cases hold.of_write
    | openKey _ _ _ hold => cases hold.of_write
  · exact ⟨a', hrun, rfl, rfl, hcover⟩

theorem Turns.finish (h : s.Turns path) (result : CallResult) :
    (s.finish t a result).Turns path := by
  obtain ⟨hturns, hpending⟩ := History.pending_concat_of_silent
    (e := ⟨a.index, t, a.call, .returned result⟩) rfl s.history path
  refine h.same hturns hpending rfl fun t' a' hrun _ hcover => ?_
  obtain ⟨-, ha⟩ | ⟨-, hrun⟩ := update_eq_some_iff.1 hrun
  · cases ha
  · exact ⟨a', hrun, rfl, rfl, hcover⟩

omit [DecidableEq τ] in
theorem call_of_turn (hc : s.Consistent) (hrun : s.running t = some a) {e : Event τ}
    (he : e ∈ History.turns s.history path) (hi : e.index = a.index) : e.call = a.call :=
  (hc.same e (History.mem_turns he).1 _ (hc.began t a hrun) hi).2

/-- Whatever is not written over is still there. -/
theorem act_get (ho : s.Orderly) (hrun : s.running t = some a) (hrest : a.rest = .step action next)
    {key : Bytes} (hput : ∀ value, (Access.mk action (s.world.perform t action).1).put? ≠
      some (.openKeys, key, value)) :
    (s.act t a hrest).world.store.store.get .openKeys key =
      s.world.store.store.get .openKeys key := by
  have hd := ho.disciplined t a hrun
  rw [hrest, Program.disciplined_step] at hd
  have hfair := hd.1
  show (s.world.perform t action).2.store.store.get .openKeys key = _
  rw [s.world.perform_store]
  refine Access.spares_of hput (fun hdelete : action = _ => ?_) _
  rw [hdelete] at hfair
  exact hfair

omit [DecidableEq τ] in
/-- Only a call on the key writes the key. -/
theorem put?_ne_some (hc : s.Consistent) (hx : s.Sound) (hrun : s.running t = some a)
    (hrest : a.rest = .step action next) (hcall : (a.call.turnLock? path).isSome = false)
    (answer : action.Answer) (value : Bytes) :
    (Access.mk action answer).put? ≠ some (.openKeys, path.tableKey, value) := by
  intro hput
  have haction := Access.action_of_put? hput
  subst haction
  cases hw : a.call.writesOpenKeys with
  | false =>
    have hspares := hx.spares hc hrun hw
    rw [hrest] at hspares
    exact hspares.1 rfl
  | true =>
    have hconducts := hx.conducts hc hrun hw
    rw [hrest] at hconducts
    obtain ⟨record, outcome, hwrites, heq⟩ := hconducts.1
    -- What a call writes is a record of the key it was asked for.
    obtain ⟨request, hr⟩ := Call.exists_request hw
    have hpath : path = request.path :=
      (ResourcePath.tableKey_inj.1 (Action.put.inj heq).2.1).trans (hwrites.path hr)
    rw [hpath, Call.turnLock?_of_request hw hr] at hcall
    cases hcall

/-- An action of a call that may not write the key. -/
theorem Turns.act_other (h : s.Turns path) (ho : s.Orderly) (hc : s.Consistent) (hx : s.Sound)
    (hrun : s.running t = some a) (hrest : a.rest = .step action next)
    (hcall : (a.call.turnLock? path).isSome = false) : (s.act t a hrest).Turns path := by
  have hturn := Event.isTurn_of_call
    (e := ⟨a.index, t, a.call, .acted ⟨action, (s.world.perform t action).1⟩⟩) hcall
  have hturns := History.turns_concat_of_not hturn s.history
  refine h.same hturns (History.pending_congr hturns fun e he session => ?_)
    (act_get ho hrun hrest (put?_ne_some hc hx hrun hrest hcall _))
    fun t' a' hrun' hcall' hcover => ?_
  · -- the turns on this key belong to other calls, whose traces stay as they are
    have hindex : a.index ≠ e.index := by
      intro hi
      obtain ⟨-, lock, hlock, -⟩ := History.mem_turns he
      rw [call_of_turn hc hrun he hi.symm] at hlock
      rw [hlock] at hcall
      cases hcall
    show (History.trace (s.history ++ [_]) e.index).continueSession e.call session = _
    rw [History.trace_concat_of_ne hindex]
  · obtain ⟨-, ha⟩ | ⟨-, hrun'⟩ := update_eq_some_iff.1 hrun'
    · cases ha
      rw [Activity.answered, hcall] at hcall'
      cases hcall'
    · exact ⟨a', hrun', rfl, rfl, hcover⟩

theorem trace_act (hc : s.Consistent) (hrun : s.running t = some a)
    (hrest : a.rest = .step action next) : History.trace (s.act t a hrest).history a.index =
      a.trace ++ [⟨action, (s.world.perform t action).1⟩] := by
  show History.trace (s.history ++ [_]) a.index = _
  rw [History.trace_concat, if_pos rfl, hc.trace t a hrun]
  rfl

theorem trace_act_of_ne (hrest : a.rest = .step action next) {i : Nat} (hi : a.index ≠ i) :
    History.trace (s.act t a hrest).history i = History.trace s.history i :=
  History.trace_concat_of_ne hi

/-- An action that neither is a turn nor writes, nor allocates after a write. -/
theorem Turns.act_aside (h : s.Turns path) (ho : s.Orderly) (hc : s.Consistent)
    (hrun : s.running t = some a) (hrest : a.rest = .step action next)
    (hturn : ∀ access,
      (⟨a.index, t, a.call, .acted ⟨action, access⟩⟩ : Event τ).isTurn path = false)
    (hput : (Access.mk action (s.world.perform t action).1).put? = none)
    (hblock : (Access.mk action (s.world.perform t action).1).block? = none ∨ a.trace.puts = [])
    (hcovers : Covers (Access.heldAfter a.trace.held ⟨action, (s.world.perform t action).1⟩) .write
      .openKeys path.tableKey → Covers a.trace.held .write .openKeys path.tableKey) :
    (s.act t a hrest).Turns path := by
  have hturns := History.turns_concat_of_not (hturn (s.world.perform t action).1) s.history
  refine h.same hturns (History.pending_congr hturns fun e he session => ?_)
    (act_get ho hrun hrest fun value hsome => ?_) fun t' a' hrun' hcall' hcover => ?_
  · by_cases hi : a.index = e.index
    · show (History.trace (s.act t a hrest).history e.index).continueSession e.call session = _
      rw [← hi, trace_act hc hrun hrest, Trace.continueSession_concat hput hblock,
        hc.trace t a hrun]
    · show (History.trace (s.act t a hrest).history e.index).continueSession e.call session = _
      rw [trace_act_of_ne hrest hi]
  · rw [hput] at hsome
    cases hsome
  · obtain ⟨rfl, ha⟩ | ⟨-, hrun'⟩ := update_eq_some_iff.1 hrun'
    · cases ha
      refine ⟨a, hrun, rfl, rfl, hcovers ?_⟩
      rwa [Activity.answered, Trace.held_append] at hcover
    · exact ⟨a', hrun', rfl, rfl, hcover⟩

/-- A call takes its turn. -/
theorem Turns.act_turn {lock : ResourcePath} {request : KeyRequest}
    {next : Unit → Program CallResult} (h : s.Turns request.path)
    (ho : s.Orderly) (hc : s.Consistent) (hrun : s.running t = some a)
    (hrest : a.rest = .step (.acquire lock .write) next)
    (hready : s.world.isReady t (.acquire lock .write) = true)
    (hr : a.call.request? = some request) (hv : request.validate = .ok ())
    (hacquires : a.call.Acquires a.trace lock .write) : (s.act t a hrest).Turns request.path := by
  have hlock := hacquires.turnLock? hr
  have hturns : History.turns (s.act t a hrest).history request.path =
      History.turns s.history request.path ++
        [⟨a.index, t, a.call, .acted ⟨.acquire lock .write, ()⟩⟩] := by
    show History.turns (s.history ++ [_]) request.path = _
    have hturn : Event.isTurn request.path
        (⟨a.index, t, a.call, .acted ⟨.acquire lock .write, ()⟩⟩ : Event τ) = true :=
      decide_eq_true hlock
    rw [History.turns_concat]
    exact congrArg _ (if_pos hturn)
  -- No call takes a lock twice, so this is its only turn.
  have hfirst : ∀ e ∈ History.turns s.history request.path, a.index ≠ e.index := by
    intro e he hi
    obtain ⟨-, lock', hlock', hmem⟩ := History.mem_turns he
    rw [call_of_turn hc hrun he hi.symm, hlock, Option.some.injEq] at hlock'
    rw [← hi, hc.trace t a hrun, ← hlock'] at hmem
    exact hacquires.not_mem hmem
  have hcovers : Covers (held (s.act t a hrest) t) .write .openKeys request.path.tableKey := by
    rw [held_of_running (Function.update_self ..), Activity.answered, Trace.held_append]
    exact hacquires.covers hr hv
  constructor
  · rw [hturns, List.map_append, List.nodup_append]
    refine ⟨h.once, List.pairwise_singleton _ _, ?_⟩
    rintro i hi j hj
    obtain ⟨e, he, rfl⟩ := List.mem_map.1 hi
    rw [List.map_singleton, List.mem_singleton] at hj
    exact hj ▸ (hfirst e he).symm
  · intro t' a' hrun' _ hcover
    rw [hturns]
    by_cases ht : t' = t
    · subst ht
      cases (Function.update_self ..).symm.trans hrun'
      exact ⟨_, _, rfl, rfl⟩
    · -- the lock that was just taken keeps all others off the key
      rw [← held_of_running hrun'] at hcover
      exact absurd hcover
        ((ho.act hrun hrest hready).tracked.not_covers (Ne.symm ht) hcovers)
  · have hpending : History.pending (s.act t a hrest).history request.path =
        History.pending s.history request.path := by
      have hputs : Trace.puts (a.trace ++ [⟨.acquire lock .write, ()⟩]) = [] := by
        rw [Trace.puts_append, hacquires.puts]
        rfl
      have hown : History.trace (s.act t a hrest).history a.index =
          a.trace ++ [⟨.acquire lock .write, ()⟩] := trace_act hc hrun hrest
      rw [History.pending, hturns, List.foldl_append, List.foldl_cons, List.foldl_nil, hown,
        Trace.continueSession_of_puts hputs]
      exact List.foldl_ext _ _ _ fun session e he => by rw [trace_act_of_ne hrest (hfirst e he)]
    have hget : (s.act t a hrest).world.store.store.get .openKeys request.path.tableKey =
        s.world.store.store.get .openKeys request.path.tableKey :=
      act_get ho hrun hrest nofun
    -- the turn adds nothing to what is written, and taking a lock leaves the store alone
    intro blocks hp hlength
    obtain ⟨record, version, hstored, hrecord⟩ := h.kept blocks (hpending ▸ hp) hlength
    exact ⟨record, version, hget.trans hstored, hrecord⟩

/-- A call writes the key in its turn. -/
theorem Turns.act_put {record : KeyRecord} {outcome : Outcome} {request : KeyRequest}
    {next : Except StoreError Unit → Program CallResult} (h : s.Turns request.path)
    (ho : s.Orderly) (hc : s.Consistent) (hx : s.Sound) (hrun : s.running t = some a)
    (hrest : a.rest = .step record.putOpen next) (hr : a.call.request? = some request)
    (hw : a.call.writesOpenKeys = true)
    (hput : (s.world.perform t record.putOpen).1 = .ok ())
    (hwrites : a.call.Writes service a.trace record outcome) :
    (s.act t a hrest).Turns request.path := by
  have hpath := hwrites.path hr
  have hfair := ho.disciplined t a hrun
  rw [hrest, Program.disciplined_step] at hfair
  have hcover : Covers a.trace.held .write .openKeys request.path.tableKey := hpath ▸ hfair.1.1
  -- The call that writes had the last turn, so its blocks come last.
  obtain ⟨before, e, hlast, hi⟩ := h.last t a hrun (Call.turnLock?_of_request hw hr) hcover
  have hcall : e.call = a.call :=
    call_of_turn hc hrun (hlast ▸ List.mem_append_right _ (List.mem_singleton_self _)) hi
  have hothers : ∀ e' ∈ before, a.index ≠ e'.index := by
    have honce := h.once
    rw [hlast, List.map_append, List.nodup_append] at honce
    intro e' he' hi'
    exact honce.2.2 _ (List.mem_map_of_mem he') _ (List.mem_singleton_self _) (hi.trans hi').symm
  have hturns : History.turns (s.act t a hrest).history request.path = before ++ [e] :=
    (History.turns_concat_of_not rfl s.history).trans hlast
  have hpending : History.pending (s.act t a hrest).history request.path =
      Trace.continueSession a.call (a.trace ++ [⟨record.putOpen, .ok ()⟩])
        (History.pending s.history request.path) := by
    have hown : History.trace (s.act t a hrest).history e.index =
        a.trace ++ [⟨record.putOpen, .ok ()⟩] := by
      rw [hi, trace_act hc hrun hrest, hput]
    have hbefore : History.pending s.history request.path = before.foldl
        (fun session e => (History.trace s.history e.index).continueSession e.call session)
          none := by
      rw [History.pending, hlast, List.foldl_append, List.foldl_cons, List.foldl_nil, hi,
        hc.trace t a hrun, Trace.continueSession_of_puts hwrites.puts]
    rw [hbefore, History.pending, hturns, List.foldl_append, List.foldl_cons, List.foldl_nil, hown,
      hcall]
    exact congrArg _ (List.foldl_ext _ _ _ fun session e' he' => by
      rw [trace_act_of_ne hrest (hothers e' he')])
  have hstore : (s.act t a hrest).world.store.store =
      s.world.store.store.put .openKeys record.path.tableKey (Stored.encode record) := by
    show (s.world.perform t record.putOpen).2.store.store = _
    rw [s.world.perform_store, hput]
    rfl
  obtain ⟨hfits, howner⟩ := (hx.call_of_running hc hrun).2 request hr
  refine ⟨?_, fun t' a' hrun' hcall' hcover' => ?_, fun blocks hp hlength => ?_⟩
  · rw [hturns, ← hlast]
    exact h.once
  · rw [hturns]
    obtain ⟨rfl, ha⟩ | ⟨-, hrun'⟩ := update_eq_some_iff.1 hrun'
    · cases ha
      exact ⟨before, e, rfl, hi⟩
    · rw [← hlast]
      exact h.last t' a' hrun' hcall' hcover'
  · rw [hstore]
    refine hwrites.keeps hr hfits howner
      (fun access ha => (hx.credible_of_running hc hrun access ha).2) (fun bytes hread => ?_)
      h.kept (hpending ▸ hp) hlength
    -- it read under the cover that it writes under, so what it read still stands
    obtain ⟨before', after', htrace, hheld⟩ := hwrites.read_covered hread
    exact ho.stable t a hrun hwrites.intact before' _ after' htrace
      (.inr (hheld ▸ hcover.to_read))

theorem Turns.act (h : s.Turns path) (ho : s.Orderly) (hc : s.Consistent) (hx : s.Sound)
    (hrun : s.running t = some a) (hrest : a.rest = .step action next)
    (hready : s.world.isReady t action = true) : (s.act t a hrest).Turns path := by
  cases hcall : (a.call.turnLock? path).isSome with
  | false => exact h.act_other ho hc hx hrun hrest hcall
  | true =>
    obtain ⟨hw, request, hr, rfl⟩ := Call.exists_request_of_turnLock? hcall
    have hconducts := hx.conducts hc hrun hw
    rw [hrest] at hconducts
    have haside : ∀ answer, (∀ path mode, action ≠ .acquire path mode) →
        Covers (Access.heldAfter a.trace.held ⟨action, answer⟩) .write .openKeys
          request.path.tableKey → Covers a.trace.held .write .openKeys request.path.tableKey :=
      fun _ haction hcover => hcover.mono (Access.heldAfter_subset haction)
    cases action with
    | acquire lock mode =>
      obtain ⟨hacquires, hv⟩ := hconducts.1
      cases mode with
      | read =>
        exact h.act_aside ho hc hrun hrest (fun _ => rfl) rfl (.inl rfl)
          fun hcover => absurd hcover hacquires.not_covers
      | write => exact h.act_turn ho hc hrun hrest hready hr (hv request hr) hacquires
    | put table key value =>
      obtain ⟨record, outcome, hwrites, heq⟩ := hconducts.1
      obtain ⟨rfl, rfl, rfl⟩ := Action.put.inj heq
      cases hput : (s.world.perform t record.putOpen).1 with
      | error e =>
        refine h.act_aside ho hc hrun hrest (fun _ => rfl) ?_ (.inl rfl) (haside _ nofun)
        rw [hput]
        rfl
      | ok u => exact h.act_put ho hc hx hrun hrest hr hw hput hwrites
    | allocate =>
      exact h.act_aside ho hc hrun hrest (fun _ => rfl) rfl (.inr hconducts.1.2) (haside _ nofun)
    | _ => exact h.act_aside ho hc hrun hrest (fun _ => rfl) rfl (.inl rfl) (haside _ nofun)

theorem Turns.transition {m : Move S A τ} (h : s.Turns path) (ho : s.Orderly) (hc : s.Consistent)
    (hx : s.Sound) (ht : Transition m s s') : s'.Turns path := by
  cases ht with
  | begin => exact h.begin _
  | act hrun hrest hready => exact h.act ho hc hx hrun hrest hready
  | finish => exact h.finish _
  | disturb => exact h.same rfl rfl rfl fun t a hrun _ hcover => ⟨a, hrun, rfl, rfl, hcover⟩

/-! ## 6. What every run keeps -/

/-- No call that may write the key at a path has a lock in hand. -/
def Quiet (s : System service S A τ) (path : ResourcePath) : Prop :=
  ∀ t a, s.running t = some a → (a.call.turnLock? path).isSome = true → a.trace.held = []

/-- The stored record of every key that was opened, and that nobody is working on, holds exactly the
blocks of its session. -/
def KeepsSessions (s : System service S A τ) : Prop :=
  ∀ path blocks, s.Quiet path → History.session s.history path = some blocks →
    blocks.length < 2 ^ 64 → ∃ value record,
      s.world.store.store.get .openKeys path.tableKey = some value ∧
      Stored.decode KeyRecord value = .ok record ∧ record.path = path ∧ record.blocks = blocks

/-- A call has allocated one block, gives it out, and has written once: a record of its key with the
block. -/
def History.Delivers (history : History τ) (e : Event τ) (outcome : Outcome) : Prop :=
  ∃ (request : KeyRequest) (block : BlockId) (record : KeyRecord), e.call.request? = some request ∧
    (History.trace history e.index).blocks = [block] ∧ outcome.blocks = [block] ∧
    (History.trace history e.index).puts =
      [(.openKeys, request.path.tableKey, Stored.encode record)] ∧ block ∈ record.blocks

structure Ordered (s : System service S A τ) : Prop where
  orderly : s.Orderly
  consistent : s.Consistent
  sound : s.Sound
  turns : ∀ path, s.Turns path

theorem ordered_run {w₀ : World S A τ} (hlocks : w₀.locks = {})
    (hfiled : w₀.store.store.WellFiled) {moves : List (Move S A τ)}
    (hmoves : ∀ m ∈ moves, m.Guarded ∧ m.Brief service) :
    (({ world := w₀ } : System service S A τ).run moves).Ordered :=
  run_induction (fun m => m.Guarded ∧ m.Brief service)
    (fun _ hm _ _ ht h =>
      ⟨h.orderly.transition hm.1 ht, h.consistent.transition ht,
        h.sound.transition h.orderly h.consistent hm.1 hm.2 ht,
        fun path => (h.turns path).transition h.orderly h.consistent h.sound ht⟩)
    ⟨orderly_empty hlocks hfiled, consistent_empty w₀, sound_empty w₀, turns_empty w₀⟩ hmoves

theorem Ordered.delivers (h : s.Ordered) {e : Event τ} (he : e ∈ s.history)
    (hw : e.call.writesOpenKeys = true) {outcome : Outcome}
    (hr : History.result? s.history e.index = some (.ok outcome)) :
    History.Delivers s.history e outcome := by
  obtain ⟨before, record, after, hwrites, htrace, hputs, hblocks⟩ :=
    h.sound.ends h.consistent he hr hw
  obtain ⟨request, hrequest⟩ := Call.exists_request hw
  obtain ⟨block, hallocated, hout⟩ := hwrites.blocks
  refine ⟨request, block, record, hrequest, ?_, hout, ?_, hwrites.mem_blocks block ?_⟩
  · rw [htrace, Trace.blocks_append, hallocated]
    exact congrArg (block :: ·) hblocks
  · rw [htrace, Trace.puts_append, hwrites.puts, ← hwrites.path hrequest]
    exact congrArg (_ :: ·) hputs
  · rw [hout]
    exact List.mem_singleton_self _

/-- A call in its turn holds a lock until it returns. -/
theorem Ordered.returned (h : s.Ordered) (hb : s.Busy) (hq : s.Quiet path) {e : Event τ}
    (he : e ∈ History.turns s.history path) :
    ∃ result, History.result? s.history e.index = some result := by
  obtain ⟨hmem, lock, hlock, hacquired⟩ := History.mem_turns he
  obtain ⟨a, hrun, hi⟩ | hresult := h.consistent.accounted e hmem
  · have hcall : e.call = a.call :=
      (h.consistent.same e hmem _ (h.consistent.began _ a hrun) hi.symm).2
    have hturn : (a.call.turnLock? path).isSome = true := by rw [← hcall, hlock]; rfl
    rw [← hi, h.consistent.trace _ a hrun] at hacquired
    have hconducts := h.sound.conducts h.consistent hrun (Call.exists_request_of_turnLock? hturn).1
    cases hrest : a.rest with
    | done result => exact absurd hrest (hb _ a result hrun)
    | step action next =>
      -- with no lock in hand it can only be at its start, before any turn
      rw [hrest] at hconducts
      rw [hconducts.1.trace_eq_nil (hq _ a hrun hturn)] at hacquired
      cases hacquired
  · exact hresult

theorem Ordered.session_eq_pending (h : s.Ordered) (hb : s.Busy) (hq : s.Quiet path) :
    History.session s.history path = History.pending s.history path := by
  refine List.foldl_ext _ _ _ fun session e he => ?_
  obtain ⟨result, hr⟩ := h.returned hb hq he
  obtain ⟨hmem, lock, hlock, -⟩ := History.mem_turns he
  have hturn : (e.call.turnLock? path).isSome = true := by rw [hlock]; rfl
  have hends := h.sound.ends h.consistent hmem hr (Call.exists_request_of_turnLock? hturn).1
  rw [hr]
  exact hends.continueSession session

/-- Whatever threads, store, clocks, allocations and tokens do: stored records hold exactly the
blocks of their sessions, a call has at most one turn on a key, and a call that returns without an
error has allocated just the block that it gives out and has stored. -/
theorem run_keepsSessions {w₀ : World S A τ} (hlocks : w₀.locks = {})
    (hfiled : w₀.store.store.WellFiled) {moves : List (Move S A τ)}
    (hmoves : ∀ m ∈ moves, m.Guarded ∧ m.Brief service) {s : System service S A τ}
    (hs : ({ world := w₀ } : System service S A τ).run moves = s) :
    s.KeepsSessions ∧ (∀ path, ((History.turns s.history path).map (·.index)).Nodup) ∧
      ∀ e ∈ s.history, e.call.writesOpenKeys = true → ∀ outcome,
        History.result? s.history e.index = some (.ok outcome) →
          History.Delivers s.history e outcome := by
  subst hs
  have h := ordered_run hlocks hfiled hmoves
  have hb : (({ world := w₀ } : System service S A τ).run moves).Busy :=
    busy_run (fun _ _ _ hrun => by cases hrun) moves
  refine ⟨fun path blocks hq hsession hlength => ?_, fun path => (h.turns path).once,
    fun e he hw outcome hr => h.delivers he hw hr⟩
  -- all turns on a quiet key are over, so what was returned is what was written
  rw [h.session_eq_pending hb hq] at hsession
  obtain ⟨record, version, hget, hfits, hpath, hversions, rfl⟩ :=
    (h.turns path).kept blocks hsession hlength
  refine ⟨_, record, hget, Stored.decode_encode hfits, hpath, ?_⟩
  rw [KeyRecord.blocks, hversions]
  exact List.append_nil _

/-! ## 7. Two runs -/

def acts (t : Bool) (n : Nat) : List (Move ed25519 localAllocation Bool) :=
  List.replicate n (.act t)

def around (faults : List StoreFault) (localId : Int64) :
    Surroundings ed25519 localAllocation where
  faults := faults
  allocator := (⟨1, localId, false⟩ : LocalAllocator)
  clock := 5
  ownTokenClock := none
  authority := none

def emptyWorld : World ed25519 localAllocation Bool where
  store.store := .memory {}
  allocator := (⟨1, 1, false⟩ : LocalAllocator)
  clock := 5

def requestFor (key : String) : KeyRequest where
  volume := "v"
  bucket := "b"
  key := key

/-- A key is opened and then extended by two threads at once, of which the first cannot write. -/
def interruptedExtension : List (Move ed25519 localAllocation Bool) :=
  .begin true (.createVolume "v" "alice") :: acts true 5 ++
    .begin true (.createBucket "v" "b") :: acts true 8 ++
    .begin true (.openKey (requestFor "k")) :: acts true 9 ++
    .begin true (.allocateBlock (requestFor "k") 1) :: acts true 6 ++
    .begin false (.allocateBlock (requestFor "k") 1) :: acts false 2 ++
    .disturb (around [⟨.put, .openKeys, "full", 0⟩] 3) :: acts true 3 ++
    .disturb (around [] 3) :: acts false 8

def afterInterruption : System {} ed25519 localAllocation Bool :=
  ({ world := emptyWorld } : System {} ed25519 localAllocation Bool).run interruptedExtension

/-- Key `k` is opened, and then key `x` is extended where its record is one of `k`. -/
def misfiledExtension : List (Move ed25519 localAllocation Bool) :=
  .begin true (.openKey (requestFor "k")) :: acts true 9 ++
    .begin true (.allocateBlock (requestFor "x") 1) :: acts true 9

def afterMisfiled : System {} ed25519 localAllocation Bool :=
  ({ world := misfiledWorld } : System {} ed25519 localAllocation Bool).run misfiledExtension

theorem acts_allowed (t : Bool) (n : Nat) :
    ∀ m ∈ acts t n, m.Guarded ∧ m.Brief ({} : KeyService) :=
  fun _ hm => List.eq_of_mem_replicate hm ▸ ⟨trivial, trivial⟩

theorem begin_allowed (t : Bool) (call : Call) (hg : call.isGuarded = true)
    (hrequest : ∀ request, call.request? = some request →
      request = requestFor "k" ∨ request = requestFor "x") :
    (Move.begin t call : Move ed25519 localAllocation Bool).Guarded ∧
      (Move.begin t call : Move ed25519 localAllocation Bool).Brief {} := by
  have hk : (Bytes.ofText (requestFor "k").path.text).length < 256 ^ 8 := by decide
  have hx : (Bytes.ofText (requestFor "x").path.text).length < 256 ^ 8 := by decide
  have hk' : Short (({} : KeyService).tokenOwner (requestFor "k")) :=
    (by decide : (Bytes.ofText "om1").length < 2 ^ 63)
  have hx' : Short (({} : KeyService).tokenOwner (requestFor "x")) :=
    (by decide : (Bytes.ofText "om1").length < 2 ^ 63)
  refine ⟨⟨hg, fun request hr => ?_⟩, fun request hr => ?_⟩
  · obtain rfl | rfl := hrequest request hr
    · exact hk
    · exact hx
  · obtain rfl | rfl := hrequest request hr
    · exact hk'
    · exact hx'

theorem run_keepsSessions_interrupted :
    (emptyWorld.locks = {} ∧ emptyWorld.store.store.WellFiled ∧
      ∀ m ∈ interruptedExtension, m.Guarded ∧ m.Brief ({} : KeyService)) ∧
    (afterInterruption.Quiet (requestFor "k").path ∧
      History.session afterInterruption.history (requestFor "k").path =
        some [⟨1, 1⟩, ⟨1, 3⟩]) ∧
    afterInterruption.KeepsSessions := by
  have hfiled : emptyWorld.store.store.WellFiled := by
    intro table key value hget
    rw [emptyWorld, Store.get_empty] at hget
    cases hget
  have hmoves : ∀ m ∈ interruptedExtension, m.Guarded ∧ m.Brief ({} : KeyService) := by
    have hopen := fun t => begin_allowed t (.openKey (requestFor "k")) rfl
      fun _ h => .inl (Option.some.inj h).symm
    have hextend := fun t => begin_allowed t (.allocateBlock (requestFor "k") 1) rfl
      fun _ h => .inl (Option.some.inj h).symm
    simp only [interruptedExtension, List.forall_mem_append, List.forall_mem_cons]
    exact ⟨⟨⟨⟨⟨⟨⟨begin_allowed _ _ rfl nofun, acts_allowed _ _⟩, begin_allowed _ _ rfl nofun,
      acts_allowed _ _⟩, hopen _, acts_allowed _ _⟩, hextend _, acts_allowed _ _⟩, hextend _,
      acts_allowed _ _⟩, ⟨trivial, trivial⟩, acts_allowed _ _⟩, ⟨trivial, trivial⟩,
      acts_allowed _ _⟩
  have hidle : ∀ t, (afterInterruption.running t).isNone = true := by decide +kernel
  have hsession : History.session afterInterruption.history (requestFor "k").path =
      some [⟨1, 1⟩, ⟨1, 3⟩] := by decide +kernel
  refine ⟨⟨rfl, hfiled, hmoves⟩, ⟨fun t a hrun => ?_, hsession⟩,
    (run_keepsSessions rfl hfiled hmoves rfl).1⟩
  rw [Option.isNone_iff_eq_none.1 (hidle t)] at hrun
  cases hrun

/-- Where a record is filed under another key, a session is lost. -/
theorem misfiled_loses_session : misfiledWorld.locks = {} ∧
    (∀ m ∈ misfiledExtension, m.Guarded ∧ m.Brief ({} : KeyService)) ∧
    ¬afterMisfiled.KeepsSessions := by
  have hidle : ∀ t, (afterMisfiled.running t).isNone = true := by decide +kernel
  have hsession : History.session afterMisfiled.history (requestFor "k").path =
      some [⟨1, 1⟩] := by decide +kernel
  have hfits : LawfulStored.fits (KeyService.extendedRecord (openRecord "k" ⟨1, 200⟩) 1
      (KeyService.locationOf ⟨1, 2⟩ 268435456 none) 0) := by
    refine KeyRecord.fits_of_single ((by decide : (Bytes.ofText (requestFor "k").path.text).length <
      256 ^ 8)) rfl (by decide : 2 < 256 ^ 8) fun location hl => ?_
    have htokens : ∀ location ∈ [BlockLocation.mk ⟨1, 200⟩ 0 1 none, ⟨⟨1, 2⟩, 0, 268435456, none⟩],
        location.token = none := by decide
    show LawfulStored.fits location.token
    rw [htokens location hl]
    exact fun _ h => by cases h
  -- Key `k` now has the blocks of the record that was filed under `x`.
  have hstored : afterMisfiled.world.store.store.get .openKeys (requestFor "k").path.tableKey =
      some (Stored.encode (KeyService.extendedRecord (openRecord "k" ⟨1, 200⟩) 1
        (KeyService.locationOf ⟨1, 2⟩ 268435456 none) 0)) := by decide +kernel
  refine ⟨rfl, ?_, fun h => ?_⟩
  · simp only [misfiledExtension, List.forall_mem_append, List.forall_mem_cons]
    exact ⟨⟨begin_allowed _ _ rfl fun _ h => .inl (Option.some.inj h).symm, acts_allowed _ _⟩,
      begin_allowed _ _ rfl fun _ h => .inr (Option.some.inj h).symm, acts_allowed _ _⟩
  · have hquiet : afterMisfiled.Quiet (requestFor "k").path := by
      intro t a hrun
      rw [Option.isNone_iff_eq_none.1 (hidle t)] at hrun
      cases hrun
    obtain ⟨value, record, hget, hdecode, -, hblocks⟩ := h _ _ hquiet hsession (by decide)
    rw [hstored, Option.some.injEq] at hget
    rw [← hget, Stored.decode_encode hfits, Except.ok.injEq] at hdecode
    rw [← hdecode] at hblocks
    revert hblocks
    decide

end System

end ObjectMeta
