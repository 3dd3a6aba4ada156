import ObjectMeta.Proofs.Command.Host
import ObjectMeta.Proofs.Command.Printed
import ObjectMeta.Proofs.Text.Hex
import ObjectMeta.Proofs.Token.Wire

/-!
# Printed tokens can be verified

Calls are made one after the other on a machine with a database that is empty at first and a
signing key.  Every block that one of them reports is printed with a token, and whatever is printed
with a token is a block.  The token, given back as printed, is found valid until it expires and
expired from then on, and it claims the block and its length for the user of the call
(`MemoryHost.printed_verifies`).
-/

namespace ObjectMeta

namespace Command

/-! ## 1. Tokens as text -/

open FileTree

/-- What is printed of a token with these claims that is verified at a reading of the clock. -/
def printedVerdict (claims : TokenIdentifier) (now : Int64) : Output :=
  if now < claims.expiryTime then
    .members [
      ("identifier", .members [
        ("containerId", .integer claims.block.container.toInt),
        ("expiryTime", .integer claims.expiryTime.toInt),
        ("issueTime", .integer claims.issueTime.toInt),
        ("kind", .text claims.kind),
        ("localId", .integer claims.block.localId.toInt),
        ("maxLength", .integer claims.maxLength.toInt),
        ("owner", .text claims.owner)]),
      ("valid", .boolean true)]
  else
    .members [
      ("error", .text ("block token expired at " ++ toString claims.expiryTime.toInt ++
        " (now " ++ toString now.toInt ++ ")")),
      ("valid", .boolean false)]

theorem output_verdict (claims : TokenIdentifier) (now : Int64) :
    (Report.verdict (claims.answerAt now)).output = printedVerdict claims now := by
  unfold TokenIdentifier.answerAt printedVerdict
  by_cases hearly : now < claims.expiryTime
  · rw [if_pos hearly, if_pos hearly]
    exact Report.output_accepted claims
  · rw [if_neg hearly, if_neg hearly]
    exact Report.output_rejected _

/-- The text of a token that was issued under the key of an authority is found valid until it
expires, with white space around it or without, if the scheme accepts its signature. -/
theorem verify_tokenText {S : SignatureScheme} (around : Surroundings S)
    {authority : TokenAuthority S} {key : S.SigningKey} {claims : TokenIdentifier}
    {before after : String} {σ : Type} (now : StateM σ Int64) (s : σ)
    (hauthority : around.authority = some authority)
    (hstarted : authority.signingKey = some key) (hfits : claims.Fits)
    (hkind : claims.kind = TokenIdentifier.blockTokenKind)
    (haccepts : S.accepts (S.verifyingKey key) claims.encode (S.sign key claims.encode) = true)
    (hbefore : Text.IsBlank before) (hafter : Text.IsBlank after) :
    around.verify now (before ++ tokenText (TokenAuthority.issue S key claims) ++ after) s =
      (.ok (.verdict (claims.answerAt (now s).1)), (now s).2) := by
  have hbytes := Hex.decode_trim hbefore hafter (TokenAuthority.issue S key claims).toWire
  have htoken : BlockToken.ofWire (TokenAuthority.issue S key claims).toWire =
      .ok (TokenAuthority.issue S key claims) :=
    BlockToken.ofWire_toWire (S.sign key claims.encode).length_bytes (List.cons_ne_nil _ _)
  have hread : around.readToken
      (before ++ tokenText (TokenAuthority.issue S key claims) ++ after) =
        .ok (TokenAuthority.issue S key claims, authority) := by
    unfold Surroundings.readToken tokenText
    rw [hbytes]
    simp only [bind, Except.bind, Except.mapError, htoken, hauthority]
    rfl
  have hverify : authority.verify (now s).1 (TokenAuthority.issue S key claims) =
      claims.answerAt (now s).1 := by
    rw [TokenAuthority.verify_of_started hstarted]
    exact TokenAuthority.verifyToken_issue hfits hkind haccepts (now s).1
  unfold Surroundings.verify
  rw [hread, ← hverify]
  rfl

/-- Tokens that were issued for other claims are spelled in another way. -/
theorem tokenText_issue_inj {S : SignatureScheme} {key : S.SigningKey}
    {claims claims' : TokenIdentifier} (hfits : claims.Fits) (hfits' : claims'.Fits)
    (h : tokenText (TokenAuthority.issue S key claims) =
      tokenText (TokenAuthority.issue S key claims')) : claims = claims' := by
  have hread (claims : TokenIdentifier) : (Hex.decode (Text.trim ("" ++
      tokenText (TokenAuthority.issue S key claims) ++ ""))).toOption.map BlockToken.ofWire =
        some (.ok (TokenAuthority.issue S key claims)) := by
    unfold tokenText
    rw [Hex.decode_trim (by decide) (by decide)]
    exact congrArg some
      (BlockToken.ofWire_toWire (S.sign key claims.encode).length_bytes (List.cons_ne_nil _ _))
  have hsame := hread claims
  rw [h, hread claims'] at hsame
  have htoken : TokenAuthority.issue S key claims' = TokenAuthority.issue S key claims :=
    Except.ok.inj (Option.some.inj hsame)
  exact (TokenAuthority.issue_claims hfits).unique (htoken ▸ TokenAuthority.issue_claims hfits')

/-! ## 2. Calls on a machine -/

structure Launch where
  /-- What the clock says at each reading. -/
  clock : Nat → Int64
  /-- What the environment says about the database. -/
  database : Option String := none
  words : List String

def Launch.Spells (call : Launch) (invocation : Invocation) : Prop :=
  Invocation.ofWords call.database call.words = .ok invocation

namespace MemoryHost

/-- The machine with another clock, which was not read yet. -/
def withClock (s : MemoryHost) (clock : Nat → Int64) : MemoryHost := { s with clock, readings := 0 }

def launch (s : MemoryHost) (call : Launch) : Ending × MemoryHost :=
  (runWords host call.database call.words : StateM MemoryHost Ending).run (s.withClock call.clock)

def launchAll (s : MemoryHost) : List Launch → List (Launch × Ending) × MemoryHost
  | [] => ([], s)
  | call :: rest =>
    let (ending, s) := s.launch call
    let (endings, s) := s.launchAll rest
    ((call, ending) :: endings, s)

structure Addresses (s : MemoryHost) (database keyFile : String) (settings : GeneralSettings) :
    Prop where
  database : (s.configFor settings).service.databasePath = database
  keyFile : signingKeyFile (s.configFor settings) = keyFile

def ownerFor (s : MemoryHost) (settings : GeneralSettings) (key : KeyArguments) : String :=
  key.user.getD (s.configFor settings).service.keys.serviceId

/-- A call uses a database and a signing key, with tokens for blocks.  The path of its key and the
name of its user are no longer than 64 and 32 bits can count. -/
structure Serves (s : MemoryHost) (database keyFile : String) (call : Launch) : Prop where
  addresses {invocation : Invocation} (h : call.Spells invocation) :
    s.Addresses database keyFile invocation.settings
  enabled {invocation : Invocation} (h : call.Spells invocation) :
    (s.configFor invocation.settings).blockTokensEnabled = true
  fits {invocation : Invocation} (h : call.Spells invocation) : invocation.task.Fits
  owner {invocation : Invocation} (h : call.Spells invocation) {key : KeyArguments}
    (hkey : invocation.task.key? = some key) :
    (Bytes.ofText (s.ownerFor invocation.settings key)).length < 2 ^ 32

variable {s t : MemoryHost} {database keyFile : String} {seed : Ed25519.Seed}

theorem Serves.of_spells {call : Launch} {invocation : Invocation} (h : call.Spells invocation)
    (haddresses : s.Addresses database keyFile invocation.settings)
    (henabled : (s.configFor invocation.settings).blockTokensEnabled = true)
    (hfits : invocation.task.Fits)
    (howner : ∀ key, invocation.task.key? = some key →
      (Bytes.ofText (s.ownerFor invocation.settings key)).length < 2 ^ 32) :
    s.Serves database keyFile call := by
  have hsame {other : Invocation} (hother : call.Spells other) : invocation = other :=
    Except.ok.inj (h.symm.trans hother)
  exact ⟨fun h => hsame h ▸ haddresses, fun h => hsame h ▸ henabled, fun h => hsame h ▸ hfits,
    fun h => hsame h ▸ howner _⟩

theorem launch_of_spells {call : Launch} {invocation : Invocation} (h : call.Spells invocation) :
    s.launch call =
      let run := (s.withClock call.clock).exec
        (invocation.task.run host (s.configFor invocation.settings))
      (.completed ⟨(s.root.configIn invocation.settings.configPath).2, run.1⟩, run.2) := by
  unfold launch runWords
  rw [h]
  exact run_bind (run_invocation _ invocation)

theorem launch_of_not_spells {call : Launch} (h : ∀ invocation, ¬call.Spells invocation) :
    (s.launch call).1.locations = [] ∧ (s.launch call).2.root = s.root := by
  unfold launch runWords
  cases hwords : Invocation.ofWords call.database call.words with
  | error e => cases e <;> exact ⟨rfl, rfl⟩
  | ok invocation => exact absurd hwords (h invocation)

theorem completed_of_mem {calls : List Launch} {call : Launch} {ending : Ending}
    {invocation : Invocation} (hmem : (call, ending) ∈ (s.launchAll calls).1)
    (h : call.Spells invocation) : ∃ completion, ending = .completed completion := by
  induction calls generalizing s with
  | nil => exact absurd hmem List.not_mem_nil
  | cons first rest ih =>
    have hcons : (call, ending) ∈
        (first, (s.launch first).1) :: ((s.launch first).2.launchAll rest).1 := hmem
    rcases List.mem_cons.1 hcons with hfirst | hrest
    · rw [Prod.mk.injEq] at hfirst
      rw [hfirst.2, ← hfirst.1, launch_of_spells h]
      exact ⟨_, rfl⟩
    · exact ih hrest

/-! ## 3. What calls leave and print -/

/-- Since a first machine no file but the database has changed, and no key is committed there. -/
structure Serving (first : MemoryHost) (database : String) (s : MemoryHost) : Prop where
  grows : Grows (Place.ofPath database) first.root s.root
  uncommitted : s.root.HoldsUncommitted database

/-- The block has a token that makes these claims about it for the user of a call, and was issued
while the call was made. -/
structure Issued (s : MemoryHost) (seed : Ed25519.Seed) (call : Launch) (location : BlockLocation)
    (claims : TokenIdentifier) : Prop where
  owner {invocation : Invocation} (h : call.Spells invocation) :
    ∃ key, invocation.task.key? = some key ∧ claims.owner = s.ownerFor invocation.settings key
  issueTime : ∃ n, claims.issueTime = call.clock n
  kind : claims.kind = TokenIdentifier.blockTokenKind
  block : claims.block = location.block
  maxLength : claims.maxLength = location.length
  fits : claims.Fits
  token : location.token = some (TokenAuthority.issue ed25519 seed claims)

section Steps

variable {first : MemoryHost} (hkey : first.root.HoldsKey keyFile seed)
  (hfirst : first.root.HoldsUncommitted database)
include hkey hfirst

theorem Serving.key (h : Serving first database s) : s.root.HoldsKey keyFile seed := by
  have hplace := hfirst.key_ne hkey
  rcases hkey with ⟨bytes, text, hread, htext, hseed⟩
  exact ⟨bytes, text, h.grows.read hread hplace, htext, hseed⟩

omit hkey in
/-- A call with tokens finds the configuration that it would have found at first. -/
theorem Serving.configFor (h : Serving first database s) {settings : GeneralSettings}
    (henabled : (first.configFor settings).blockTokensEnabled = true) :
    s.configFor settings = first.configFor settings := by
  have henabled' : (first.root.configIn settings.configPath).1.blockTokensEnabled = true := henabled
  unfold MemoryHost.configFor
  rw [h.grows.configIn henabled' (hfirst.config_ne henabled')]

omit hkey hfirst in
/-- A task with tokens tells of blocks with tokens if no key is committed. -/
theorem issued_of_performed {call : Launch} {invocation : Invocation} {durable : DurableStore}
    {report : Report} (hcall : s.Serves database keyFile call) (hspells : call.Spells invocation)
    (hperformed : invocation.task.Performed
      (surroundings (t.withClock call.clock) (s.configFor invocation.settings) seed)
      (fun time => ∃ n, time = call.clock n) (.ok report) durable) :
    ∀ location ∈ report.locations, ∃ claims, s.Issued seed call location claims := by
  intro location hlocation
  have hminter :
      (surroundings (t.withClock call.clock) (s.configFor invocation.settings) seed).minter =
        some (issuer (s.configFor invocation.settings) seed) := if_pos (hcall.enabled hspells)
  rcases hperformed.issued hminter rfl rfl hlocation with ⟨key, time, hkey, htime, htoken⟩
  refine ⟨_, fun {other} hother => ?_, htime, rfl, rfl, rfl,
    TokenAuthority.claims_fits (hcall.owner hspells hkey), htoken⟩
  cases Except.ok.inj (hspells.symm.trans hother)
  exact ⟨key, hkey, rfl⟩

/-- A call keeps the machine serving, and the blocks that it prints have tokens.  The database can
be opened from the first block on that is printed. -/
theorem Serving.launch (h : Serving first database s) {call : Launch}
    (hcall : first.Serves database keyFile call) :
    Serving first database (s.launch call).2 ∧
      ((∃ journal, s.root.HoldsJournal database journal) ∨ (s.launch call).1.locations ≠ [] →
        ∃ journal, (s.launch call).2.root.HoldsJournal database journal) ∧
      ∀ location ∈ (s.launch call).1.locations, ∃ claims, first.Issued seed call location claims := by
  by_cases hspells : ∃ invocation, call.Spells invocation
  · rcases hspells with ⟨invocation, hspells⟩
    have henabled := hcall.enabled hspells
    rcases hcall.addresses hspells with ⟨hdatabase, hkeyFile⟩
    rw [launch_of_spells hspells, h.configFor hfirst henabled]
    have hloads : s.root.HoldsKey keyFile seed := h.key hkey hfirst
    subst hdatabase hkeyFile
    rcases exec_task (s.withClock call.clock) hloads (by simp [henabled]) (hcall.fits hspells)
      h.uncommitted with
      ⟨result, s', hexec, hgrows, huncommitted, hopened, hreport⟩
    simp only [hexec]
    refine ⟨⟨h.grows.trans hgrows, huncommitted⟩, fun hprinted => hopened ?_, ?_⟩
    · rcases hprinted with hholds | hprinted
      · exact .inl hholds
      · cases result with
        | error e => exact absurd rfl hprinted
        | ok report => exact .inr ⟨report, rfl⟩
    · cases result with
      | error e => exact fun _ hlocation => absurd hlocation List.not_mem_nil
      | ok report =>
        rcases hreport report rfl with ⟨durable, hperformed⟩
        exact issued_of_performed hcall hspells hperformed
  · -- a call that spells nothing prints no block and touches no file
    have hnone : ∀ invocation, ¬call.Spells invocation := fun i hi => hspells ⟨i, hi⟩
    have hlaunch : (s.launch call).1.locations = [] ∧ (s.launch call).2.root = s.root :=
      launch_of_not_spells hnone
    rw [hlaunch.1]
    refine ⟨⟨?_, ?_⟩, ?_, fun _ hlocation => absurd hlocation List.not_mem_nil⟩
    · rw [hlaunch.2]
      exact h.grows
    · rw [hlaunch.2]
      exact h.uncommitted
    · rintro (hholds | hprinted)
      · rw [hlaunch.2]
        exact hholds
      · exact absurd rfl hprinted

theorem Serving.launchAll (h : Serving first database s) {calls : List Launch}
    (hcalls : ∀ call ∈ calls, first.Serves database keyFile call) :
    Serving first database (s.launchAll calls).2 ∧
      ((∃ journal, s.root.HoldsJournal database journal) →
        ∃ journal, (s.launchAll calls).2.root.HoldsJournal database journal) ∧
      ∀ printed ∈ (s.launchAll calls).1, ∀ location ∈ printed.2.locations,
        (∃ claims, first.Issued seed printed.1 location claims) ∧
          ∃ journal, (s.launchAll calls).2.root.HoldsJournal database journal := by
  -- what the first machine has stays, so each call meets the key and the configuration again
  induction calls generalizing s with
  | nil => exact ⟨h, id, fun _ hprinted => absurd hprinted List.not_mem_nil⟩
  | cons call rest ih =>
    rw [List.forall_mem_cons] at hcalls
    rcases h.launch hkey hfirst hcalls.1 with ⟨hserving, hopened, hissued⟩
    rcases ih hserving hcalls.2 with ⟨hserving', hopened', hissued'⟩
    refine ⟨hserving', fun hholds => hopened' (hopened (.inl hholds)), ?_⟩
    show ∀ printed ∈ (call, (s.launch call).1) :: ((s.launch call).2.launchAll rest).1, _
    rw [List.forall_mem_cons]
    refine ⟨fun location hlocation => ⟨hissued location hlocation, ?_⟩, hissued'⟩
    exact hopened' (hopened (.inr (List.ne_nil_of_mem hlocation)))

end Steps

/-- A token that was issued with the signing key is judged when the clock is read for the second
time, whatever else the call is told, unless another database is named that cannot be opened. -/
theorem launch_verify {call : Launch} {settings : GeneralSettings} {claims : TokenIdentifier}
    {before after : String} (hkey : s.root.HoldsKey (signingKeyFile (s.configFor settings)) seed)
    (hholds : ∃ journal, s.root.HoldsJournal database journal) (hfits : claims.Fits)
    (hkind : claims.kind = TokenIdentifier.blockTokenKind)
    (haccepts : ed25519.accepts (ed25519.verifyingKey seed) claims.encode
      (ed25519.sign seed claims.encode) = true)
    (hbefore : Text.IsBlank before) (hafter : Text.IsBlank after)
    (hspells : call.Spells ⟨settings, .verifyToken
      (before ++ tokenText (TokenAuthority.issue ed25519 seed claims) ++ after)⟩) :
    (s.launch call).1.out = (printedVerdict claims (call.clock 1)).pretty ++ "\n" ∨
      (s.configFor settings).service.databasePath ≠ database ∧
        ∃ warning error, (s.launch call).1 = .completed ⟨warning, .error (.openingDatabase
          (s.configFor settings).service.databasePath error)⟩ := by
  have hverify (t t' : MemoryHost) :=
    verify_tokenText (surroundings t (s.configFor settings) seed) host.now t' rfl rfl
      hfits hkind haccepts hbefore hafter
  generalize before ++ tokenText (TokenAuthority.issue ed25519 seed claims) ++ after = text
    at hspells hverify
  rcases openDatabase_spec (s.withClock call.clock) (s.configFor settings).service.databasePath with
    ⟨opened, root, hopen, hprepares, hopened⟩
  rw [launch_of_spells hspells]
  cases opened with
  | error e =>
    have hexec : (s.withClock call.clock).exec
        ((Task.verifyToken text).run host (s.configFor settings)) =
          (.error (.openingDatabase (s.configFor settings).service.databasePath e), _) :=
      exec_bind_error (exec_attempt (Failure.openingDatabase _) hopen)
    simp only [hexec]
    refine .inr ⟨fun hdatabase => ?_, _, e, rfl⟩
    -- the database that the calls have used can be opened
    rcases hholds with ⟨journal, hholds⟩
    have hopen' : (s.withClock call.clock).exec (openDatabase host database) =
      (.ok journal, s.withClock call.clock) := openDatabase_of_holds hholds
    rw [hdatabase, hopen'] at hopen
    cases hopen
  | ok journal =>
    let t := (s.withClock call.clock).withRoot root
    have hperform : (Task.verifyToken text).perform host.now
        (surroundings t (s.configFor settings) seed) (.durable (.ofJournal journal)) (t.after 1) =
          ((.ok (.verdict (claims.answerAt (call.clock 1))), .durable (.ofJournal journal)),
            t.after 2) :=
      run_bind (hverify t (t.after 1))
    rcases run_task hopen (hprepares.holdsKey hkey) (Bool.or_true _) hperform
      (hopened journal rfl) with ⟨root', hexec, _⟩
    simp only [hexec]
    refine .inl ?_
    rw [← output_verdict]
    rfl

/-- There is no database at a path, or an empty one. -/
def Vacant (s : MemoryHost) (path : String) : Prop :=
  ∀ bytes, s.root.node? (Place.ofPath path) = some (.file bytes) →
    bytes = [] ∨ bytes = Journal.encode []

theorem Vacant.serving (h : s.Vacant database) : Serving s database s where
  grows := .refl ..
  uncommitted := by
    intro bytes hfile hne
    rcases h bytes hfile with hnil | hbegun
    · exact absurd hnil hne
    · exact ⟨[], hbegun ▸ Journal.decode_encode [], Store.uncommitted_empty⟩

/-- Whatever calls are made on a machine with an empty database and a signing key, as long as they
use both and issue tokens: each block that one of them reports is printed with a token, and whatever
one of them prints with a token is a block.  Given back as printed after all calls, with white space
around it or without, the token is found valid until it expires and expired from then on, and it
claims the block with its length for the call's user or the service, if the signature of the key
over the claims is one that Ed25519 accepts.  No more is asked of the call that verifies it than
that it uses the signing key, and can open the database if that is another one; it judges the token
when it reads the clock for the second time. -/
theorem printed_verifies (hkey : s.root.HoldsKey keyFile seed) (hvacant : s.Vacant database)
    {calls : List Launch} (hcalls : ∀ call ∈ calls, s.Serves database keyFile call) :
    ∀ call ending, (call, ending) ∈ (s.launchAll calls).1 →
      ∀ invocation, call.Spells invocation →
        (∀ location ∈ ending.locations, ∃ text,
          ending.Prints (printedBlock location.block location.offset location.length text)) ∧
        ∀ value text, ending.Prints value → value.Has "token" (.text text) →
          ∃ claims offset key,
            value = printedBlock claims.block offset claims.maxLength text ∧
            text = tokenText (TokenAuthority.issue ed25519 seed claims) ∧
            claims.kind = "HDDS_BLOCK_TOKEN" ∧
            invocation.task.key? = some key ∧
            claims.owner = s.ownerFor invocation.settings key ∧
            (∃ n, claims.issueTime = call.clock n) ∧
            (ed25519.accepts (ed25519.verifyingKey seed) claims.encode
                (ed25519.sign seed claims.encode) = true →
              let last := (s.launchAll calls).2
              ∀ (check : Launch) (settings : GeneralSettings) (before after : String),
                Text.IsBlank before → Text.IsBlank after →
                check.Spells ⟨settings, .verifyToken (before ++ text ++ after)⟩ →
                signingKeyFile (last.configFor settings) = keyFile →
                (last.launch check).1.out =
                    (printedVerdict claims (check.clock 1)).pretty ++ "\n" ∨
                  (last.configFor settings).service.databasePath ≠ database ∧
                    ∃ warning error, (last.launch check).1 = .completed ⟨warning, .error
                      (.openingDatabase (last.configFor settings).service.databasePath error)⟩) := by
  have hfirst := hvacant.serving.uncommitted
  rcases hvacant.serving.launchAll hkey hfirst hcalls with ⟨hlast, _, hprinted⟩
  intro call ending hmem invocation hspells
  constructor
  · intro location hlocation
    rcases hprinted (call, ending) hmem location hlocation with ⟨⟨claims, hissued⟩, -⟩
    exact ⟨_, Report.locationOutput_eq hissued.token ▸ Ending.prints_location hlocation⟩
  · intro value text hprints hhas
    rcases completed_of_mem hmem hspells with ⟨completion, rfl⟩
    rcases Ending.exists_location hprints hhas with ⟨location, hlocation, rfl, htext⟩
    rcases hprinted _ hmem location hlocation with ⟨⟨claims, hissued⟩, hholds⟩
    rcases hissued.owner hspells with ⟨key, hkeyOf, howner⟩
    rw [hissued.token] at htext
    have htext : tokenText (TokenAuthority.issue ed25519 seed claims) = text :=
      Option.some.inj htext
    subst htext
    refine ⟨claims, location.offset, key, ?_, rfl, hissued.kind, hkeyOf, howner,
      hissued.issueTime, ?_⟩
    · rw [Report.locationOutput_eq hissued.token, hissued.block, hissued.maxLength]
    · intro haccepts last check settings before after hbefore hafter hcheck hkeyFile
      have hlastKey : last.root.HoldsKey keyFile seed := hlast.key hkey hfirst
      rw [← hkeyFile] at hlastKey
      exact launch_verify hlastKey hholds hissued.fits hissued.kind haccepts hbefore hafter hcheck

/-! ## 4. The token of a key that is opened -/

def keyText : String := "0707070707070707070707070707070707070707070707070707070707070707\n"

def keySeed : Ed25519.Seed := ⟨List.replicate 32 7, rfl⟩

def issuingMachine : MemoryHost where
  root := .directory ⟨[("om", .directory ⟨[
    ("om.key", .file (Bytes.ofText keyText)),
    ("om.toml", .file (Bytes.ofText
      "[security]\nenabled = true\nblock_token_enabled = true\n"))]⟩)]⟩

def issuingSettings : GeneralSettings where
  configPath := "/om/om.toml"
  databasePath := some "/om/om.redb"

/-- A call with the settings, whose clock starts at a time and ticks with every reading. -/
def issuingCall (time : Int64) (words : List String) : Launch where
  clock n := time + .ofNat n
  words := ["--config", "/om/om.toml", "--db-path", "/om/om.redb"] ++ words

def openingCalls : List Launch := [
  issuingCall 1000 ["create-volume", "v"],
  issuingCall 2000 ["create-bucket", "v", "b"],
  issuingCall 3000 ["open-key", "v", "b", "k", "--user", "alice"]]

/-- What the token of the opened key claims: its block is numbered by the first reading of the clock,
and the token is issued at the second one. -/
def openingClaims : TokenIdentifier where
  kind := "HDDS_BLOCK_TOKEN"
  owner := "alice"
  block := ⟨1, 3000000⟩
  issueTime := 3001
  expiryTime := 86403001
  maxLength := 268435456

theorem issuingMachine_holdsKey : issuingMachine.root.HoldsKey "/om/om.key" keySeed :=
  ⟨Bytes.ofText keyText, keyText, by decide +kernel, by decide +kernel, by decide +kernel⟩

theorem issuingMachine_vacant : issuingMachine.Vacant "/om/om.redb" := by
  have hnone : issuingMachine.root.node? (Place.ofPath "/om/om.redb") = none := by decide +kernel
  intro bytes hfile
  rw [hnone] at hfile
  cases hfile

theorem issuingMachine_addresses :
    issuingMachine.Addresses "/om/om.redb" "/om/om.key" issuingSettings :=
  ⟨by decide +kernel, by decide +kernel⟩

theorem issuingMachine_enabled :
    (issuingMachine.configFor issuingSettings).blockTokensEnabled = true := by
  decide +kernel

def openingInvocation : Invocation where
  settings := issuingSettings
  task := .openKey ⟨"v", "b", "k", some "alice"⟩ none "STAND_ALONE" 1

theorem openingInvocation_spelled :
    (issuingCall 3000 ["open-key", "v", "b", "k", "--user", "alice"]).Spells openingInvocation := by
  unfold Launch.Spells
  decide +kernel

theorem verifying_spelled (time : Int64) (text : String) :
    (issuingCall time ["verify-token", "--", " " ++ text ++ "\n"]).Spells
      ⟨issuingSettings, .verifyToken (" " ++ text ++ "\n")⟩ := rfl

theorem issuingMachine_serves :
    ∀ call ∈ openingCalls, issuingMachine.Serves "/om/om.redb" "/om/om.key" call := by
  have hserves {call : Launch} (task : Task) (h : call.Spells ⟨issuingSettings, task⟩)
      (hfits : task.Fits) (howner : ∀ key, task.key? = some key →
        (Bytes.ofText (issuingMachine.ownerFor issuingSettings key)).length < 2 ^ 32) :
      issuingMachine.Serves "/om/om.redb" "/om/om.key" call :=
    .of_spells h issuingMachine_addresses issuingMachine_enabled hfits howner
  unfold openingCalls
  simp only [List.forall_mem_cons]
  refine ⟨?_, ?_, ?_, fun _ hcall => absurd hcall List.not_mem_nil⟩
  · exact hserves (.createVolume "v" "admin") (by unfold Launch.Spells; decide +kernel) nofun nofun
  · exact hserves (.createBucket "v" "b") (by unfold Launch.Spells; decide +kernel) nofun nofun
  · refine hserves _ openingInvocation_spelled ?_ ?_
    · rintro _ ⟨⟩
      show (Bytes.ofText _).length < 256 ^ 8
      decide +kernel
    · rintro _ ⟨⟩
      decide +kernel

/-- The key accepts its signature of the claims. -/
theorem accepts_openingClaims : ed25519.accepts (ed25519.verifyingKey keySeed)
    openingClaims.encode (ed25519.sign keySeed openingClaims.encode) = true := by
  -- Evaluation spends nearly all of its time on digests, so each of the three is evaluated once.
  have hseed : Sha512.hash keySeed.bytes =
      [47, 173, 57, 254, 253, 127, 163, 226, 0, 169, 198, 38, 238, 245, 153, 230,
        26, 45, 5, 92, 72, 168, 40, 138, 78, 126, 76, 75, 202, 57, 40, 248,
        156, 125, 109, 179, 80, 109, 101, 219, 172, 124, 5, 42, 174, 228, 133, 116,
        37, 33, 12, 155, 197, 64, 48, 200, 38, 229, 64, 85, 152, 52, 82, 165] := by
    decide +kernel
  have hnonce : Ed25519.scalarOfHash (keySeed.nonceKey ++ openingClaims.encode) =
      2430826244075672496932582872480805256649223039939326866277935014341863348156 := by
    rw [Ed25519.Seed.nonceKey, hseed]
    decide +kernel
  have hchallenge : Ed25519.scalarOfHash ((Ed25519.Point.base.scale
        2430826244075672496932582872480805256649223039939326866277935014341863348156).encode ++
        keySeed.publicKey.bytes ++ openingClaims.encode) =
      660500825447450790897913117562380651593371704440243524072520246970689712490 := by
    rw [Ed25519.Seed.publicKey, Ed25519.Seed.scalar, hseed]
    decide +kernel
  unfold ed25519
  dsimp only
  rw [Ed25519.accepts_sign keySeed _ hnonce hchallenge, Ed25519.Seed.publicKey,
    Ed25519.Seed.scalar, hseed]
  decide +kernel

/-- The token that is printed when the key is opened is found valid a millisecond before it expires,
and expired a millisecond later. -/
theorem printed_verifies_openKey :
    let last := (issuingMachine.launchAll openingCalls).2
    ∃ call ending text, (call, ending) ∈ (issuingMachine.launchAll openingCalls).1 ∧
      ending.Prints (printedBlock ⟨1, 3000000⟩ 0 268435456 text) ∧
      let words := ["verify-token", "--", " " ++ text ++ "\n"]
      (last.launch (issuingCall 86402999 words)).1.out =
        "\x7b\n  \"identifier\": \x7b\n    \"containerId\": 1,\n    \"expiryTime\": 86403001,\n" ++
        "    \"issueTime\": 3001,\n    \"kind\": \"HDDS_BLOCK_TOKEN\",\n" ++
        "    \"localId\": 3000000,\n    \"maxLength\": 268435456,\n    \"owner\": \"alice\"\n" ++
        "  \x7d,\n  \"valid\": true\n\x7d\n" ∧
      (last.launch (issuingCall 86403000 words)).1.out =
        "\x7b\n  \"error\": \"block token expired at 86403001 (now 86403001)\",\n" ++
        "  \"valid\": false\n\x7d\n" := by
  intro last
  have hprinted : ((issuingMachine.launchAll openingCalls).1.flatMap fun printed =>
      printed.2.locations.map fun location =>
        ((printed.1.database, printed.1.words), location.offset,
          location.token.map (·.identifier))) =
      [((none, ["--config", "/om/om.toml", "--db-path", "/om/om.redb", "open-key", "v", "b", "k",
        "--user", "alice"]), 0, some openingClaims.encode)] := by
    decide +kernel
  rcases List.mem_flatMap.1 (hprinted.symm ▸ List.mem_singleton_self _) with
    ⟨⟨call, ending⟩, hmem, hlocations⟩
  rcases List.mem_map.1 hlocations with ⟨location, hlocation, hsame⟩
  rw [Prod.mk.injEq, Prod.mk.injEq, Prod.mk.injEq] at hsame
  obtain ⟨⟨hdatabase, hwords⟩, hoffset, hidentifier⟩ := hsame
  have hspells : call.Spells openingInvocation := by
    unfold Launch.Spells
    rw [show call.database = none from hdatabase, show call.words = _ from hwords]
    exact openingInvocation_spelled
  -- the token is the one of the claims
  have hfirst := issuingMachine_vacant.serving.uncommitted
  rcases issuingMachine_vacant.serving.launchAll issuingMachine_holdsKey hfirst
    issuingMachine_serves with ⟨hlast, -, hissued⟩
  rcases hissued (call, ending) hmem location hlocation with ⟨⟨claims, hissued⟩, -⟩
  have hfits : openingClaims.Fits := ⟨by decide +kernel, by decide +kernel⟩
  rw [hissued.token] at hidentifier
  have hencode : claims.encode = openingClaims.encode := Option.some.inj hidentifier
  have hclaimed : (TokenAuthority.issue ed25519 keySeed claims).Claims claims :=
    TokenAuthority.issue_claims hissued.fits
  have hclaims : claims = openingClaims := hclaimed.unique ⟨hfits, hencode⟩
  subst hclaims
  have hprints := Ending.prints_location hlocation
  rw [Report.locationOutput_eq hissued.token, ← hissued.block, ← hissued.maxLength, hoffset]
    at hprints
  rcases (printed_verifies issuingMachine_holdsKey issuingMachine_vacant issuingMachine_serves
    call ending hmem openingInvocation hspells).2 _ _ hprints (printedBlock_has ..) with
    ⟨claims, offset, key, -, htext, hkind, hkey, howner, -, hverifies⟩
  cases hkey
  have hclaims : openingClaims = claims :=
    tokenText_issue_inj hfits ⟨hkind ▸ by decide +kernel, howner ▸ by decide +kernel⟩ htext
  subst hclaims
  -- the database is still the one that the settings name
  have hconfig := hlast.configFor hfirst issuingMachine_enabled
  have hkeyFile : signingKeyFile (last.configFor issuingSettings) = "/om/om.key" := by
    rw [hconfig]
    exact issuingMachine_addresses.keyFile
  have hchecked (time : Int64) : (last.launch (issuingCall time ["verify-token", "--",
      " " ++ tokenText (TokenAuthority.issue ed25519 keySeed openingClaims) ++ "\n"])).1.out =
        (printedVerdict openingClaims (time + 1)).pretty ++ "\n" := by
    rcases hverifies accepts_openingClaims _ _ " " "\n" (by decide) (by decide)
      (verifying_spelled time _) hkeyFile with hout | ⟨hother, -⟩
    · exact hout
    · rw [hconfig] at hother
      exact absurd issuingMachine_addresses.database hother
  refine ⟨call, ending, _, hmem, hprints, (hchecked 86402999).trans ?_,
    (hchecked 86403000).trans ?_⟩
  · decide +kernel
  · decide +kernel

end MemoryHost

end Command

end ObjectMeta
