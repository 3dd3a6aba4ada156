import Mathlib.Data.List.Forall2
import ObjectMeta.Proofs.Operation.Yields

/-!
# Which tokens calls hand out

The tokens that a call on a key hands out, told from what minting may answer alone (`Call.hands`).
A key that is opened and a block that is added carry what was answered for their own block; a
look-up asks again for every block of the version that readers see, and where it is given none the
block keeps the token that is stored.
-/

namespace ObjectMeta

open Operation

/-- What may be answered when an owner asks for a token for the bytes of a block. -/
abbrev Minting := (owner : String) → BlockId → (maxLength : Int64) →
  Except TokenError (Option BlockToken) → Prop

/-- An access whose token, if it is for one, is what minting may answer, and whose answer, if it is
a read of a table, may be found there. -/
def Access.Supplied (minting : Minting) (found : Table → Bytes → Option Bytes → Prop) :
    Access → Prop
  | ⟨.mint owner block maxLength, answer⟩ => minting owner block maxLength answer
  | ⟨.get table key, .ok answer⟩ => found table key answer
  | _ => True

namespace BlockLocation

/-- The block carries the token that its owner was given for it, or none if none was given. -/
def Minted (minting : Minting) (owner : String) (location : BlockLocation) : Prop :=
  minting owner location.block location.length (.ok location.token)

/-- The block as it is stored, except for a new token if one was given. -/
inductive Renewed (minting : Minting) (owner : String) (stored : BlockLocation) :
    BlockLocation → Prop where
  | intro {token? : Option BlockToken}
      (minted : minting owner stored.block stored.length (.ok token?)) :
      Renewed minting owner stored { stored with token := token? <|> stored.token }

section Minting

variable {minting : Minting} {owner : String} {stored location : BlockLocation}
  (hminting : ∀ block maxLength answer, minting owner block maxLength answer →
    ∃ token, answer = .ok (some token))
include hminting

/-- Where a token is minted for every block, a renewed one has its own. -/
theorem Renewed.minted (h : stored.Renewed minting owner location) :
    location.Minted minting owner := by
  cases h with
  | intro minted =>
    rcases hminting _ _ _ minted with ⟨token, htoken⟩
    cases htoken
    exact minted

theorem minted_of_renewed {locations fresh : List BlockLocation}
    (h : List.Forall₂ (Renewed minting owner) locations fresh) :
    ∀ location ∈ fresh, location.Minted minting owner := by
  induction h with
  | nil => exact fun _ h => absurd h List.not_mem_nil
  | cons renewed _ ih => exact List.forall_mem_cons.2 ⟨renewed.minted hminting, ih⟩

end Minting

end BlockLocation

/-- What a call on a key hands out, where `found` tells what it may have read in the tables: a new
key with one block, a new block, or a stored record, the committed one before the open one, with
other tokens for the blocks that readers see. -/
inductive Call.Hands (service : KeyService) (minting : Minting)
    (found : Table → Bytes → Option Bytes → Prop) : Call → Outcome → Prop where
  | opened {request : KeyRequest} {record : KeyRecord} {number : UInt64} {location : BlockLocation}
      (versions : record.versions = [⟨number, [location]⟩])
      (minted : location.Minted minting (service.tokenOwner request)) :
      Hands service minting found (.openKey request) (.record record)
  | extended {request : KeyRequest} {number : UInt64} {location : BlockLocation}
      (minted : location.Minted minting (service.tokenOwner request)) :
      Hands service minting found (.allocateBlock request number) (.location location)
  | lookedUp {request : KeyRequest} {table : Table} {bytes : Bytes} {stored : KeyRecord}
      {locations : List BlockLocation}
      (read : found table request.path.tableKey (some bytes))
      (place : table = .keys ∨ table = .openKeys ∧ service.lookupOpenKeys = true ∧
        found .keys request.path.tableKey none)
      (decoded : Stored.decode KeyRecord bytes = .ok stored)
      (renewed : List.Forall₂ (BlockLocation.Renewed minting (service.tokenOwner request))
        stored.latestLocations locations) :
      Hands service minting found (.lookupKey request)
        (.record (stored.withLatestLocations locations))

variable {minting : Minting} {found : Table → Bytes → Option Bytes → Prop}

theorem mint_minted (owner : String) (block : BlockId) (maxLength : Int64) :
    (mint owner block maxLength).Yields (Access.Supplied minting found) fun token? =>
      minting owner block maxLength (.ok token?) :=
  yields_mint owner block maxLength

section Calls

variable (service : KeyService) {request : KeyRequest}

theorem allocateLocation_minted (size : Int64) (replicationType : ReplicationType)
    (replicationFactor : ReplicationFactor) :
    (service.allocateLocation request size replicationType replicationFactor).Yields
      (Access.Supplied minting found) fun location =>
        location.Minted minting (service.tokenOwner request) := by
  refine (yields_any _).bind fun answer _ => (yields_any _).bind fun block _ => ?_
  exact (mint_minted _ block size).bind fun token? htoken => yields_pure htoken

theorem openKey_hands : ((Call.openKey request).operation service).Yields
    (Access.Supplied minting found) ((Call.openKey request).Hands service minting found) := by
  apply Yields.map
  rw [KeyService.openKey_eq]
  refine (yields_any _).bind fun _ _ => Yields.locked _ _ ?_
  refine (yields_any _).bind fun _ _ => (yields_any _).bind fun committed? _ => ?_
  refine (allocateLocation_minted service _ _ _).bind fun location hlocation => ?_
  exact (yields_any _).bind fun time _ => (yields_any _).bind fun _ _ =>
    yields_pure (.opened rfl hlocation)

theorem allocateBlock_hands (number : UInt64) :
    ((Call.allocateBlock request number).operation service).Yields (Access.Supplied minting found)
      ((Call.allocateBlock request number).Hands service minting found) := by
  apply Yields.map
  rw [KeyService.allocateBlock_eq]
  refine (yields_any _).bind fun _ _ => Yields.locked _ _ (Yields.locked _ _ ?_)
  refine (yields_any _).bind fun record? _ => ?_
  cases record?.filter fun record => (record.version? number).isSome with
  | none => exact yields_throw _
  | some record =>
    refine (allocateLocation_minted service _ _ _).bind fun location hlocation => ?_
    exact (yields_any _).bind fun time _ => (yields_any _).bind fun _ _ =>
      yields_pure (.extended hlocation)

theorem refreshTokens_renewed (locations : List BlockLocation) :
    (service.refreshTokens request locations).Yields (Access.Supplied minting found)
      (List.Forall₂ (BlockLocation.Renewed minting (service.tokenOwner request)) locations) := by
  induction locations with
  | nil => exact yields_pure .nil
  | cons location rest ih =>
    refine (mint_minted _ location.block location.length).bind fun token? htoken => ?_
    exact ih.bind fun fresh hfresh => yields_pure (.cons (.intro htoken) hfresh)

/-- What is found is returned with new tokens for the blocks that readers see. -/
theorem refreshed_hands {table : Table} {bytes : Bytes} {stored : KeyRecord}
    (hread : found table request.path.tableKey (some bytes))
    (hplace : table = .keys ∨ table = .openKeys ∧ service.lookupOpenKeys = true ∧
      found .keys request.path.tableKey none)
    (hdecoded : Stored.decode KeyRecord bytes = .ok stored) :
    (service.refreshed request stored).Yields (Access.Supplied minting found) fun record =>
      (Call.lookupKey request).Hands service minting found (.record record) :=
  Yields.map ((refreshTokens_renewed service _).mono fun _ hrenewed =>
    .lookedUp hread hplace hdecoded hrenewed)

theorem lookupKey_hands : ((Call.lookupKey request).operation service).Yields
    (Access.Supplied minting found) ((Call.lookupKey request).Hands service minting found) := by
  apply Yields.map
  rw [KeyService.lookupKey_eq]
  refine (yields_any _).bind fun _ _ => Yields.locked _ _ (Yields.locked _ _ ?_)
  refine (yields_getRecord KeyRecord .keys request.path).bind fun committed? hcommitted => ?_
  cases committed? with
  | some stored =>
    have ⟨bytes, hread, hdecoded⟩ := hcommitted
    exact refreshed_hands service hread (.inl rfl) hdecoded
  | none =>
    -- there is no committed key, so the service may go on to the open one
    by_cases hopen : service.lookupOpenKeys = true
    · simp only [if_pos hopen]
      refine (yields_getRecord KeyRecord .openKeys request.path).bind fun open? hfound => ?_
      cases open? with
      | none => exact yields_throw _
      | some stored =>
        have ⟨bytes, hread, hdecoded⟩ := hfound
        exact refreshed_hands service hread (.inr ⟨rfl, hopen, hcommitted⟩) hdecoded
    · simp only [if_neg hopen]
      exact yields_throw _

/-- A call on a key hands out the tokens that minting answers with. -/
theorem Call.hands {call : Call} (hcall : call.request? = some request) :
    (call.operation service).Yields (Access.Supplied minting found)
      (call.Hands service minting found) := by
  cases call with
  | openKey request => exact openKey_hands service
  | allocateBlock request number => exact allocateBlock_hands service number
  | lookupKey request => exact lookupKey_hands service
  | _ => cases hcall

end Calls

end ObjectMeta
