import ObjectMeta.Command.Task
import ObjectMeta.Proofs.Operation.Clock
import ObjectMeta.Proofs.Operation.Fencing

/-!
# What tasks do to a store, and the tokens they tell

No task commits a key, so a store that only tasks have changed has nothing but open keys, each with
one version (`Store.Uncommitted`).  Readers see every block of such a key, hence each block that a
task tells carries a token that was minted for its user at a reading of the clock
(`Task.perform_spec`).
-/

namespace ObjectMeta

section Calls

variable {S : SignatureScheme} {A : AllocationService} {τ : Type} [DecidableEq τ]
  {times : Int64 → Prop} {service : KeyService} {w w' : World S A τ} {t : τ} {call : Call}
  {request : KeyRequest} {trace : Trace} {result : Except OperationError Outcome}
  {outcome : Outcome} {minting : Minting} {store store' : Store}

/-! ## 1. A call by itself -/

def Outcome.locations : Outcome → List BlockLocation
  | .record found => found.versions.flatMap (·.locations)
  | .location added => [added]
  | _ => []

/-- A call on a key hands out what the authority mints at readings of the clock, and what the store
holds. -/
theorem Call.hands_of_plays {authority : TokenAuthority S} (hcall : call.request? = some request)
    (hleads : (call.program service).Leads trace (.done (.ok outcome)))
    (hplays : w.PlaysByClock times t trace w') (hauthority : w.authority = some authority)
    (hclock : w.ownTokenClock = none) :
    call.Hands service (fun owner block maxLength answer =>
        ∃ time, times time ∧ authority.minting time owner block maxLength answer)
      (fun table key answer => w.store.store.get table key = answer) outcome := by
  -- what is read matters for look-ups alone, and they leave the store as it is
  have hsupplied := hplays.supplied
    (fun table key answer => call.writesOpenKeys = false → w.store.store.get table key = answer)
    (fun store => call.writesOpenKeys = false → store = w.store.store) hauthority hclock
    (fun _ => rfl) ?_ ?_
  · have hhands := (Call.hands service hcall).of_leads hleads hsupplied outcome rfl
    cases hhands with
    | opened versions minted => exact .opened versions minted
    | extended minted => exact .extended minted
    | lookedUp read place decoded renewed =>
      refine .lookedUp (read rfl) ?_ decoded renewed
      rcases place with hkeys | ⟨hopen, hfallback, hnone⟩
      · exact .inl hkeys
      · exact .inr ⟨hopen, hfallback, hnone rfl⟩
  · intro access haccess store hstore hlookup
    cases call with
    | lookupKey request => rw [Call.lookupKey_applied hleads access haccess, hstore hlookup]
    | openKey | allocateBlock => cases hlookup
    | _ => cases hcall
  · intro store hstore table key hlookup
    rw [hstore hlookup]

/-- Registering volumes and buckets hands out no block. -/
theorem Call.locations_eq_nil (hg : call.isGuarded = true) (hcall : call.request? = none)
    (hleads : (call.program service).Leads trace (.done (.ok outcome))) : outcome.locations = [] := by
  have hyields : (call.operation service).Yields (fun _ => True)
      fun outcome => outcome.locations = [] := by
    cases call with
    | createVolume | createBucket =>
      exact Operation.Yields.map ((Operation.yields_any _).mono fun _ _ => rfl)
    | openKey | allocateBlock | lookupKey => cases hcall
    | _ => cases hg
  exact hyields.of_leads hleads (fun _ _ => trivial) outcome rfl

/-- No access turns a durable store into another kind. -/
theorem Trace.Through.durable (h : trace.Through store store')
    (hdurable : ∃ durable, store = .durable durable) : ∃ durable, store' = .durable durable := by
  refine h.keeps (fun store => ∃ durable, store = .durable durable) hdurable ?_
  rintro access - _ ⟨durable, rfl⟩
  unfold Access.applied
  split <;> exact ⟨_, rfl⟩

/-! ## 2. Stores without committed keys -/

/-- Records are filed under their paths, no key is committed, and open keys have one version. -/
structure Store.Uncommitted (store : Store) : Prop where
  filed : store.WellFiled
  fenced (path : ResourcePath) : store.Fenced path 0

theorem Store.uncommitted_empty : (Store.durable (.ofJournal [])).Uncommitted := by
  have hget : ∀ table key, (Store.durable (.ofJournal [])).get table key = none := by
    intro table key
    cases table <;> exact Std.ExtTreeMap.getElem?_empty
  constructor
  · intro table key bytes hbytes
    rw [hget] at hbytes
    cases hbytes
  · exact fun path => .of_empty (hget ..) (hget ..)

/-- Calls that take locks commit nothing. -/
theorem Store.Uncommitted.of_leads (h : store.Uncommitted) (hg : call.isGuarded = true)
    (hfits : ∀ request, call.request? = some request → LawfulStored.fits request.path.text)
    (hleads : (call.program service).Leads trace (.done result))
    (hthrough : trace.Through store store') : store'.Uncommitted := by
  obtain ⟨hruns, hfiled, hkeys⟩ := Call.runsBy hg hfits hleads hthrough h.filed
  exact ⟨hfiled, fun path => (h.fenced path).of_runsBy (by decide) hg hfits hruns hkeys⟩

/-- Where no key is committed and a token is minted for every block, each block that is handed out
has its own. -/
theorem Store.Uncommitted.minted (h : store.Uncommitted)
    (hminting : ∀ block maxLength answer, minting (service.tokenOwner request) block maxLength answer →
      ∃ token, answer = .ok (some token))
    (hcall : call.request? = some request)
    (hhands : call.Hands service minting (fun table key answer => store.get table key = answer)
      outcome) :
    ∀ location ∈ outcome.locations, location.Minted minting (service.tokenOwner request) := by
  cases hhands with
  | @opened _ record number added versions minted =>
    cases hcall
    have hlocations : (Outcome.record record).locations = [added] := by
      simp [Outcome.locations, versions]
    rw [hlocations, List.forall_mem_singleton]
    exact minted
  | extended minted =>
    cases hcall
    exact List.forall_mem_singleton.2 minted
  | @lookedUp _ table bytes stored locations read place decoded renewed =>
    cases hcall
    -- the key is open, so readers see its only version
    have hopen : table = .openKeys := by
      rcases place with rfl | ⟨hopen, _⟩
      · rw [(h.fenced request.path).uncommitted rfl] at read
        cases read
      · exact hopen
    subst hopen
    rcases (h.fenced request.path).read read decoded with ⟨version, hversions, _⟩
    have hlocations : (Outcome.record (stored.withLatestLocations locations)).locations =
        locations := by
      simp [Outcome.locations, KeyRecord.withLatestLocations, KeyRecord.latest?, hversions]
    rw [hlocations]
    exact BlockLocation.minted_of_renewed hminting renewed

end Calls

/-! ## 3. Tasks -/

namespace Command

def Report.outcome : Report → Outcome
  | volume info => .volume info
  | bucket info => .bucket info
  | record found => .record found
  | location added => .location added
  | accepted _ | rejected _ => .absent

def Report.locations (report : Report) : List BlockLocation := report.outcome.locations

namespace Task

def key? : Task → Option KeyArguments
  | openKey key .. | allocateBlock key _ | lookupKey key => some key
  | _ => none

def call? : Task → Option Call
  | createVolume volume owner => some (.createVolume volume owner)
  | createBucket volume bucket => some (.createBucket volume bucket)
  | openKey key size name factor =>
    match replication name factor with
    | .error _ => none
    | .ok (replicationType, replicationFactor) => some (.openKey
      { key.request with dataSize := size, replicationType, replicationFactor })
  | allocateBlock key version => some (.allocateBlock key.request version)
  | lookupKey key => some (.lookupKey key.request)
  | verifyToken _ => none

/-- The path of the task's key, if it has one, is short enough to be stored. -/
def Fits (task : Task) : Prop :=
  ∀ key, task.key? = some key → LawfulStored.fits key.request.path.text

variable {S : SignatureScheme} {around : Surroundings S} {task : Task} {call : Call}
  {key : KeyArguments} {store : Store} {report : Report}

/-- A key is opened with the replication that the task names, if it names one. -/
theorem call?_openKey_eq_some {size : Option Int64} {name : String} {factor : UInt8}
    (hcall : (openKey key size name factor).call? = some call) :
    ∃ found, replication name factor = .ok found ∧ call = .openKey { key.request with
      dataSize := size, replicationType := found.1, replicationFactor := found.2 } := by
  cases hreplication : replication name factor with
  | error failure => simp [call?, hreplication] at hcall
  | ok found =>
    simp only [call?, hreplication] at hcall
    exact ⟨found, rfl, (Option.some.inj hcall).symm⟩

theorem isGuarded_of_call? (hcall : task.call? = some call) : call.isGuarded = true := by
  cases task with
  | openKey =>
    obtain ⟨_, -, rfl⟩ := call?_openKey_eq_some hcall
    rfl
  | verifyToken text => cases hcall
  | _ =>
    cases hcall
    rfl

/-- The request of a call that a task makes is on the task's key, for its user. -/
theorem key_of_call? {request : KeyRequest} (hcall : task.call? = some call)
    (hrequest : call.request? = some request) :
    ∃ key, task.key? = some key ∧ request.path = key.request.path ∧ request.user = key.user := by
  cases task with
  | openKey key =>
    obtain ⟨_, -, rfl⟩ := call?_openKey_eq_some hcall
    cases hrequest
    exact ⟨key, rfl, rfl, rfl⟩
  | allocateBlock key version | lookupKey key =>
    cases hcall
    cases hrequest
    exact ⟨key, rfl, rfl, rfl⟩
  | verifyToken text => cases hcall
  | _ =>
    cases hcall
    cases hrequest

/-- The call can have this result on a store, by a clock that shows these times, and leave another
one. -/
def Makes (around : Surroundings S) (times : Int64 → Prop) (call : Call) (store : Store)
    (result : Except OperationError Outcome) (store' : Store) : Prop :=
  ∃ trace world, (call.program around.config.service.keys).Leads trace (.done result) ∧
    (around.world store).PlaysByClock times () trace world ∧ world.store.store = store'

section Clock

variable {σ : Type} {now : StateM σ Int64} {states : σ → Prop} {times : Int64 → Prop}
  (hnow : Shows now states times) (hstart : times around.start) {s : σ} (hs : states s)
include hnow hs

section Call

include hstart

theorem operate_spec {α : Type} {tell : α → Report} {wrap : α → Outcome} {op : Operation α}
    (hcall : call.operation around.config.service.keys = wrap <$> op)
    (htell : ∀ a, (tell a).outcome = wrap a) (store : Store) :
    ∃ told result store' s', around.operate now tell op store s = ((told, store'), s') ∧
      states s' ∧ Makes around times call store result store' ∧
      told.map Report.outcome = result.mapError .operation := by
  have hclock : times (around.world store).clock := hstart
  obtain ⟨value, world, s', trace, hrun, hs', hleads, hplays⟩ :=
    op.run.runByClock_spec (t := ()) hnow hclock hs
  refine ⟨(value.map tell).mapError .operation, value.map wrap, world.store.store, s', ?_, hs',
    ⟨trace, world, ?_, hplays, rfl⟩, ?_⟩
  · show (fun p : (Except OperationError α × World S localAllocation Unit) × σ =>
      ((((p.1.1.map tell).mapError .operation, p.1.2.store.store) : Except Failure Report × Store),
        p.2)) _ = _
    rw [hrun]
  · rw [Call.program, hcall]
    exact Operation.leads_map hleads
  · cases value with
    | error e => rfl
    | ok a => exact congrArg Except.ok (htell a)

/-- A task that makes a call tells the outcome of the call and leaves its store. -/
theorem perform_of_call (hcall : task.call? = some call) (store : Store) :
    ∃ told result store' s', task.perform now around store s = ((told, store'), s') ∧
      states s' ∧ Makes around times call store result store' ∧
      told.map Report.outcome = result.mapError .operation := by
  cases task with
  | openKey =>
    obtain ⟨found, hreplication, rfl⟩ := call?_openKey_eq_some hcall
    simp only [perform, hreplication]
    exact operate_spec hnow hstart hs rfl (fun _ => rfl) store
  | verifyToken text => cases hcall
  | _ =>
    cases hcall
    exact operate_spec hnow hstart hs rfl (fun _ => rfl) store

end Call

/-- A task that makes no call leaves the store alone and tells of no block. -/
theorem perform_of_no_call (hcall : task.call? = none) (store : Store) :
    ∃ told s', task.perform now around store s = ((told, store), s') ∧ states s' ∧
      ∀ report, told = .ok report → report.locations = [] := by
  cases task with
  | openKey key size name factor =>
    cases hreplication : replication name factor with
    | error failure =>
      simp only [perform, hreplication]
      exact ⟨_, s, rfl, hs, nofun⟩
    | ok found => simp [call?, hreplication] at hcall
  | verifyToken text =>
    simp only [perform, Surroundings.verify]
    cases around.readToken text with
    | error failure => exact ⟨_, s, rfl, hs, nofun⟩
    | ok read =>
      have hread : (Report.verdict (read.2.verify (now s).1 read.1)).locations = [] := by
        cases read.2.verify (now s).1 read.1 <;> rfl
      refine ⟨_, (now s).2, rfl, (hnow s hs).2, fun report hreport => ?_⟩
      rw [← Except.ok.inj hreport]
      exact hread
  | _ => cases hcall

end Clock

/-- Where no key is committed and tokens are issued, every block in the outcome of a task's call
carries a token for the task's user, or for the service, that was issued at a reading of the
clock. -/
theorem Makes.issued {times : Int64 → Prop} {store' : Store} {outcome : Outcome}
    {authority : TokenAuthority S} {signingKey : S.SigningKey} {location : BlockLocation}
    (h : Makes around times call store (.ok outcome) store') (hcall : task.call? = some call)
    (huncommitted : store.Uncommitted) (hminter : around.minter = some authority)
    (hstarted : authority.signingKey = some signingKey) (hlocation : location ∈ outcome.locations) :
    ∃ key time, task.key? = some key ∧ times time ∧
      location.token = some (TokenAuthority.issue S signingKey (authority.claims time
        (key.user.getD around.config.service.keys.serviceId) location.block location.length)) := by
  rcases h with ⟨trace, world, hleads, hplays, -⟩
  cases hrequest : call.request? with
  | none =>
    rw [Call.locations_eq_nil (isGuarded_of_call? hcall) hrequest hleads] at hlocation
    cases hlocation
  | some request =>
    rcases key_of_call? hcall hrequest with ⟨key, hkey, -, huser⟩
    have hminted := huncommitted.minted ?_ hrequest
      (Call.hands_of_plays hrequest hleads hplays hminter rfl) location hlocation
    · rcases hminted with ⟨time, htime, hminted⟩
      have htoken := TokenAuthority.minting_of_started hstarted hminted
      refine ⟨key, time, hkey, htime, ?_⟩
      rw [← huser]
      exact Except.ok.inj htoken
    · rintro block maxLength answer ⟨time, -, hanswer⟩
      exact ⟨_, TokenAuthority.minting_of_started hstarted hanswer⟩

theorem Makes.uncommitted {times : Int64 → Prop} {store' : Store} {durable : DurableStore}
    {result : Except OperationError Outcome}
    (h : Makes around times call (.durable durable) result store') (hcall : task.call? = some call)
    (hfits : task.Fits) (huncommitted : (Store.durable durable).Uncommitted) :
    ∃ durable', store' = .durable durable' ∧ store'.Uncommitted := by
  rcases h with ⟨trace, world, hleads, hplays, rfl⟩
  have hstored : ∀ request, call.request? = some request →
      LawfulStored.fits request.path.text := by
    intro request hrequest
    rcases key_of_call? hcall hrequest with ⟨key, hkey, hpath, -⟩
    rw [hpath]
    exact hfits key hkey
  rcases hplays.through.durable ⟨durable, rfl⟩ with ⟨durable', hdurable⟩
  exact ⟨durable', hdurable,
    huncommitted.of_leads (isGuarded_of_call? hcall) hstored hleads hplays.through⟩

/-- What a task does to a durable store without committed keys, and what it tells: it commits
nothing, and the blocks that it tells carry tokens that were issued at readings of the clock. -/
structure Performed (task : Task) (around : Surroundings S) (times : Int64 → Prop)
    (told : Except Failure Report) (store' : DurableStore) : Prop where
  uncommitted : (Store.durable store').Uncommitted
  issued {authority : TokenAuthority S} {signingKey : S.SigningKey} {report : Report}
    {location : BlockLocation} (hminter : around.minter = some authority)
    (hstarted : authority.signingKey = some signingKey) (hreport : told = .ok report)
    (hlocation : location ∈ report.locations) :
    ∃ key time, task.key? = some key ∧ times time ∧
      location.token = some (TokenAuthority.issue S signingKey (authority.claims time
        (key.user.getD around.config.service.keys.serviceId) location.block location.length))

variable (around) in
theorem perform_spec {σ : Type} {now : StateM σ Int64} {states : σ → Prop}
    {times : Int64 → Prop} (hnow : Shows now states times) (hstart : times around.start) {s : σ}
    (hs : states s) (hfits : task.Fits) {durable : DurableStore}
    (h : (Store.durable durable).Uncommitted) :
    ∃ told durable' s', task.perform now around (.durable durable) s =
      ((told, .durable durable'), s') ∧ states s' ∧ task.Performed around times told durable' := by
  cases hcall : task.call? with
  | none =>
    rcases perform_of_no_call hnow hs hcall (.durable durable) with
      ⟨told, s', hperform, hs', hnone⟩
    refine ⟨told, durable, s', hperform, hs', h, fun _ _ hreport hlocation => ?_⟩
    rw [hnone _ hreport] at hlocation
    cases hlocation
  | some call =>
    rcases perform_of_call hnow hstart hs hcall (.durable durable) with
      ⟨told, result, store', s', hperform, hs', hmakes, htold⟩
    rcases hmakes.uncommitted hcall hfits h with ⟨durable', rfl, huncommitted⟩
    refine ⟨told, durable', s', hperform, hs', huncommitted, ?_⟩
    intro authority signingKey report location hminter hstarted hreport hlocation
    subst hreport
    cases result with
    | error e => cases htold
    | ok outcome =>
      cases htold
      exact hmakes.issued hcall h hminter hstarted hlocation

end Task

end Command

end ObjectMeta
