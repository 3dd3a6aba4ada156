import ObjectMeta.Proofs.Operation.LookUp
import ObjectMeta.Proofs.Operation.Minted
import ObjectMeta.Proofs.Token.Minting

/-!
# The tokens of the blocks that calls hand out

Opening, extending and looking up a key mint a token for every block that they hand out, for the
owner of the request and with the block's own length (`BlockLocation.HasCredential`).  A look-up
finds a record of any make, with whatever tokens it has: it renews those of the version that readers
see and returns all else as it is stored (`Call.HandsOut`).  Here the tokens come from one authority
at one reading of its clock, and every other answer is arbitrary.
-/

namespace ObjectMeta

open Operation Program

variable {S : SignatureScheme}

/-! ## 1. Credentials -/

/-- A token says of a block what an authority says of it to an owner at a reading of its clock, and
the authority accepts the token at that reading unless it expires at once. -/
structure BlockLocation.Credential (authority : TokenAuthority S) (now : Int64) (owner : String)
    (location : BlockLocation) (token : BlockToken) (id : TokenIdentifier) : Prop where
  claims : token.decodeIdentifier = .ok id
  kind : id.kind = "HDDS_BLOCK_TOKEN"
  owner : id.owner = owner
  block : id.block = location.block
  maxLength : id.maxLength = location.length
  issueTime : id.issueTime = now
  expiryTime : id.expiryTime.toInt =
    max (-2 ^ 63) (min (2 ^ 63 - 1) (now.toInt + authority.lifetime.toInt))
  valid : 0 < authority.lifetime → now < Int64.maxValue → authority.verify now token = .ok id

def BlockLocation.HasCredential (authority : TokenAuthority S) (now : Int64) (owner : String)
    (location : BlockLocation) : Prop :=
  ∃ token id, location.token = some token ∧ location.Credential authority now owner token id

/-- What a call that succeeds hands out, where `found` tells what it may have read in the tables: a
new key or block with credentials, or a stored record, the committed one before the open one, with
credentials for the blocks that readers see. -/
inductive Call.HandsOut (service : KeyService) (authority : TokenAuthority S) (now : Int64)
    (found : Table → Bytes → Option Bytes → Prop) : Call → Outcome → Prop where
  | opened {request : KeyRequest} {record : KeyRecord}
      (all : ∀ version ∈ record.versions, ∀ location ∈ version.locations,
        location.HasCredential authority now (service.tokenOwner request)) :
      HandsOut service authority now found (.openKey request) (.record record)
  | extended {request : KeyRequest} {number : UInt64} {location : BlockLocation}
      (added : location.HasCredential authority now (service.tokenOwner request)) :
      HandsOut service authority now found (.allocateBlock request number) (.location location)
  | lookedUp {request : KeyRequest} {table : Table} {bytes : Bytes} {stored record : KeyRecord}
      (read : found table request.path.tableKey (some bytes))
      (place : table = .keys ∨ table = .openKeys ∧ service.lookupOpenKeys = true ∧
        found .keys request.path.tableKey none)
      (decoded : Stored.decode KeyRecord bytes = .ok stored)
      (tokensOnly : record.withoutTokens = stored.withoutTokens)
      (older : record.versions.dropLast = stored.versions.dropLast)
      (latest : ∀ location ∈ record.latestLocations,
        location.HasCredential authority now (service.tokenOwner request)) :
      HandsOut service authority now found (.lookupKey request) (.record record)

/-- An access whose token, if it is for one, comes from an authority at a reading of its clock, and
whose answer, if it is a read of a table, may be found there. -/
def Access.SuppliedBy (authority : TokenAuthority S) (now : Int64)
    (found : Table → Bytes → Option Bytes → Prop) : Access → Prop
  | ⟨.mint owner block maxLength, answer⟩ =>
    answer = (authority.mint now owner block maxLength).map some
  | ⟨.get table key, .ok answer⟩ => found table key answer
  | _ => True

variable {authority : TokenAuthority S} {now : Int64} {key : S.SigningKey} {owner : String}
  {location : BlockLocation} {token : BlockToken} {service : KeyService}
  {found found' : Table → Bytes → Option Bytes → Prop}

theorem Call.HandsOut.mono {call : Call} {outcome : Outcome}
    (h : call.HandsOut service authority now found outcome)
    (hfound : ∀ table key answer, found table key answer → found' table key answer) :
    call.HandsOut service authority now found' outcome := by
  cases h with
  | opened all => exact .opened all
  | extended added => exact .extended added
  | lookedUp read place decoded tokensOnly older latest =>
    refine .lookedUp (hfound _ _ _ read) ?_ decoded tokensOnly older latest
    exact place.imp_right fun h => ⟨h.1, h.2.1, hfound _ _ _ h.2.2⟩

section Minting

variable (hstarted : authority.signingKey = some key) (hown : S.AcceptsOwn key)
  (howner : (Bytes.ofText owner).length < 2 ^ 32)

include hstarted hown howner

/-- A block with the token that was minted for it has its credential. -/
theorem BlockLocation.hasCredential_of_mint
    (hmint : authority.mint now owner location.block location.length = .ok token)
    (htoken : location.token = some token) : location.HasCredential authority now owner := by
  refine ⟨token, authority.claims now owner location.block location.length, htoken, ?_⟩
  constructor
  case claims =>
    rw [TokenAuthority.mint_of_started hstarted] at hmint
    cases hmint
    exact BlockToken.decodeIdentifier_eq_ok_iff.2
      (TokenAuthority.issue_claims (TokenAuthority.claims_fits howner))
  case expiryTime => exact toInt_saturatingAdd now authority.lifetime
  case valid =>
    intro hlifetime hnow
    exact TokenAuthority.verify_mint hstarted hown howner hlifetime hnow hmint
  all_goals rfl

end Minting

/-! ## 2. The version that readers see -/

theorem KeyRecord.dropLast_withLatestLocations (record : KeyRecord)
    (locations : List BlockLocation) :
    (record.withLatestLocations locations).versions.dropLast = record.versions.dropLast := by
  unfold withLatestLocations
  cases record.latest? with
  | none => rfl
  | some version => exact List.dropLast_concat

theorem KeyRecord.mem_of_mem_latestLocations (record : KeyRecord) {locations : List BlockLocation}
    (h : location ∈ (record.withLatestLocations locations).latestLocations) :
    location ∈ locations := by
  unfold withLatestLocations at h
  cases hlatest : record.latest? with
  | none =>
    -- without a version there are no blocks to see
    rw [hlatest] at h
    unfold latestLocations at h
    rw [hlatest] at h
    exact absurd h List.not_mem_nil
  | some version =>
    rw [hlatest] at h
    unfold latestLocations latest? at h
    rw [List.getLast?_concat] at h
    exact h

/-! ## 3. Calls -/

def TokenAuthority.minting (authority : TokenAuthority S) (now : Int64) : Minting :=
  fun owner block maxLength answer => answer = (authority.mint now owner block maxLength).map some

theorem Access.suppliedBy_iff {access : Access} : access.SuppliedBy authority now found ↔
    access.Supplied (authority.minting now) found := by
  cases access with
  | mk action answer =>
    cases action with
    | get table key =>
      cases answer with
      | error e => exact Iff.rfl
      | ok answer => exact Iff.rfl
    | _ => exact Iff.rfl

theorem TokenAuthority.minting_of_started (hstarted : authority.signingKey = some key)
    {block : BlockId} {maxLength : Int64} {answer : Except TokenError (Option BlockToken)}
    (h : authority.minting now owner block maxLength answer) :
    answer = .ok (some (issue S key (authority.claims now owner block maxLength))) := by
  rw [minting, mint_of_started hstarted] at h
  exact h

section Calls

variable (service) {request : KeyRequest}
  (hstarted : authority.signingKey = some key) (hown : S.AcceptsOwn key)

section Blocks

variable (howner : (Bytes.ofText owner).length < 2 ^ 32)

include hstarted hown howner

theorem BlockLocation.Minted.hasCredential (h : location.Minted (authority.minting now) owner) :
    location.HasCredential authority now owner := by
  have htoken := TokenAuthority.minting_of_started hstarted h
  exact BlockLocation.hasCredential_of_mint hstarted hown howner
    (TokenAuthority.mint_of_started hstarted) (Except.ok.inj htoken)

theorem BlockLocation.hasCredential_of_renewed {locations fresh : List BlockLocation}
    (h : List.Forall₂ (BlockLocation.Renewed (authority.minting now) owner) locations fresh) :
    ∀ location ∈ fresh, location.HasCredential authority now owner := by
  intro location hlocation
  have hminted := BlockLocation.minted_of_renewed
    (fun _ _ _ h => ⟨_, TokenAuthority.minting_of_started hstarted h⟩) h location hlocation
  exact hminted.hasCredential hstarted hown howner

end Blocks

/-- Renewing tokens changes nothing else. -/
theorem BlockLocation.map_withoutToken_of_renewed {minting : Minting}
    {locations fresh : List BlockLocation}
    (h : List.Forall₂ (BlockLocation.Renewed minting owner) locations fresh) :
    fresh.map BlockLocation.withoutToken = locations.map BlockLocation.withoutToken := by
  induction h with
  | nil => rfl
  | cons renewed _ ih =>
    rw [List.map_cons, List.map_cons, ih]
    cases renewed
    rfl

variable (howner : (Bytes.ofText (service.tokenOwner request)).length < 2 ^ 32)

include hstarted hown howner

/-- A call on a key with tokens from a started authority hands out credentials. -/
theorem Call.Hands.handsOut {call : Call} {outcome : Outcome}
    (h : call.Hands service (authority.minting now) found outcome)
    (hcall : call.request? = some request) :
    call.HandsOut service authority now found outcome := by
  cases h with
  | opened versions minted =>
    cases hcall
    refine .opened fun version hversion location hlocation => ?_
    -- the record has one version with one block
    rw [versions] at hversion
    rw [List.mem_singleton.1 hversion] at hlocation
    rw [List.mem_singleton.1 hlocation]
    exact minted.hasCredential hstarted hown howner
  | extended minted =>
    cases hcall
    exact .extended (minted.hasCredential hstarted hown howner)
  | @lookedUp _ _ _ stored fresh read place decoded renewed =>
    cases hcall
    refine .lookedUp read place decoded (KeyRecord.withLatestLocations_withoutTokens
      (BlockLocation.map_withoutToken_of_renewed renewed))
      (stored.dropLast_withLatestLocations fresh) fun location hlocation => ?_
    exact BlockLocation.hasCredential_of_renewed hstarted hown howner renewed location
      (stored.mem_of_mem_latestLocations hlocation)

theorem Call.handsOut {call : Call} (hcall : call.request? = some request) :
    (call.operation service).Yields (Access.SuppliedBy authority now found)
      (call.HandsOut service authority now found) := by
  have hhands : (call.operation service).Yields (Access.SuppliedBy authority now found)
      (call.Hands service (authority.minting now) found) :=
    (Call.hands service hcall).anti fun _ => Access.suppliedBy_iff.1
  exact hhands.mono fun _ h => h.handsOut service hstarted hown howner hcall

end Calls

end ObjectMeta
