import ObjectMeta.Proofs.Concurrency.HandedOut

/-!
# Services without a token authority

Without an authority nothing is signed: keys are opened and extended with blocks that carry no
token.  A look-up returns what is stored, though, and that includes the tokens of a service that had
an authority while the record was written (`System.run_handsStored`, `World.token_outlives_authority`).
-/

namespace ObjectMeta

variable {service : KeyService} {S : SignatureScheme} {A : AllocationService} {τ : Type}
  {found : Table → Bytes → Option Bytes → Prop}

/-- What a call on a key hands out where no token is minted: blocks without tokens, and records as
they are stored, the committed one before the open one. -/
inductive Call.HandsStored (service : KeyService) (found : Table → Bytes → Option Bytes → Prop) :
    Call → Outcome → Prop where
  | opened {request : KeyRequest} {record : KeyRecord}
      (tokenless : ∀ token? ∈ record.tokens, token? = none) :
      HandsStored service found (.openKey request) (.record record)
  | extended {request : KeyRequest} {number : UInt64} {location : BlockLocation}
      (tokenless : location.token = none) :
      HandsStored service found (.allocateBlock request number) (.location location)
  | lookedUp {request : KeyRequest} {table : Table} {bytes : Bytes} {stored : KeyRecord}
      (read : found table request.path.tableKey (some bytes))
      (place : table = .keys ∨ table = .openKeys ∧ service.lookupOpenKeys = true ∧
        found .keys request.path.tableKey none)
      (decoded : Stored.decode KeyRecord bytes = .ok stored) :
      HandsStored service found (.lookupKey request) (.record stored)

def Minting.none : Minting := fun _ _ _ answer => answer = .ok Option.none

theorem KeyRecord.withLatestLocations_self (record : KeyRecord) :
    record.withLatestLocations record.latestLocations = record := by
  unfold withLatestLocations latestLocations
  cases hlatest : record.latest? with
  | none => rfl
  | some version =>
    show { record with versions := record.versions.dropLast ++ [version] } = record
    rw [List.dropLast_append_getLast? version hlatest]

/-- Blocks keep the tokens that they are stored with. -/
theorem BlockLocation.eq_of_renewed_none {owner : String} {stored locations : List BlockLocation}
    (h : List.Forall₂ (BlockLocation.Renewed Minting.none owner) stored locations) :
    locations = stored := by
  induction h with
  | nil => rfl
  | cons renewed _ ih =>
    rw [ih]
    cases renewed with
    | intro minted =>
      cases minted
      rfl

theorem BlockLocation.Minted.token_eq_none {owner : String} {location : BlockLocation}
    (h : location.Minted Minting.none owner) : location.token = none :=
  Except.ok.inj h

theorem Call.Hands.handsStored {call : Call} {outcome : Outcome}
    (h : call.Hands service Minting.none found outcome) :
    call.HandsStored service found outcome := by
  cases h with
  | opened versions minted =>
    refine .opened fun token? htoken => ?_
    unfold KeyRecord.tokens at htoken
    rw [versions, List.flatMap_singleton, List.map_singleton, List.mem_singleton] at htoken
    rw [htoken, minted.token_eq_none]
  | extended minted => exact .extended minted.token_eq_none
  | lookedUp read place decoded renewed =>
    rw [BlockLocation.eq_of_renewed_none renewed, KeyRecord.withLatestLocations_self]
    exact .lookedUp read place decoded

variable [DecidableEq τ]

def Move.BringsNone : Move S A τ → Prop
  | disturb around => around.authority = none
  | _ => True

namespace System

theorem run_authority_none {s : System service S A τ} (hauthority : s.world.authority = none)
    {moves : List (Move S A τ)} (hnone : ∀ m ∈ moves, m.BringsNone) :
    (s.run moves).world.authority = none := by
  refine run_induction (P := fun s => s.world.authority = none) Move.BringsNone ?_ hauthority hnone
  intro m hm s s' htransition h
  cases htransition with
  | @act _ t _ action => exact (s.world.perform_tokens t action).1.trans h
  | disturb => exact hm
  | _ => exact h

/-- From any state that threads can bring about, and while there is no authority: whatever threads do
at the same time and whatever the tables hold, a call that opens or extends a key hands out blocks
without tokens, and a look-up hands out a record as it is stored. -/
theorem run_handsStored (w : World S A τ) (earlier later : List (Move S A τ)) :
    let s := ({ world := w } : System service S A τ).run earlier
    s.world.authority = none → (∀ m ∈ later, m.BringsNone) →
    ∀ e ∈ (s.run later).history, s.history.length ≤ e.index →
      ∀ request, e.call.request? = some request →
      ∀ outcome, History.result? (s.run later).history e.index = some (.ok outcome) →
        e.call.HandsStored service (s.Held later) outcome := by
  intro s hauthority hnone e he hindex request hcall outcome hresult
  have hc : s.Consistent := consistent_run (consistent_empty w) earlier
  have hc' : (s.run later).Consistent := consistent_run hc later
  have hminting : ∀ past, past <+: later → ∀ owner block maxLength,
      Minting.none owner block maxLength ((s.run past).world.mint owner block maxLength) := by
    intro past hpast owner block maxLength
    unfold World.mint
    rw [run_authority_none hauthority fun m hm => hnone m (hpast.subset hm)]
    rfl
  have hsupplied := trace_supplied hc hminting hindex
  have hhands := (Call.hands service hcall).of_leads (hc'.complete e he _ hresult) hsupplied
  exact (hhands outcome rfl).handsStored

/-- A committed key with a token is looked up without an authority: the answer is what is stored, token
and all. -/
theorem run_handsStored_lookUp :
    let request : KeyRequest := { volume := "v", bucket := "b", key := "k" }
    let stored : KeyRecord := {
      volume := "v", bucket := "b", key := "k", dataSize := 60, creationTime := 0
      modificationTime := 0, replicationType := .ratis, replicationFactor := .three
      versions := [⟨1, [⟨⟨1, 1⟩, 0, 10, some ⟨[1], [2]⟩⟩, ⟨⟨1, 2⟩, 0, 20, none⟩]⟩] }
    let w : World checksumScheme localAllocation Bool := {
      store := { store := (Store.memory {}).put .keys request.path.tableKey (Stored.encode stored) }
      allocator := (⟨1, 4, false⟩ : LocalAllocator), clock := 0 }
    let moves : List (Move checksumScheme localAllocation Bool) :=
      .begin true (.lookupKey request) :: List.replicate 7 (.act true)
    let s : System {} checksumScheme localAllocation Bool := { world := w }
    (w.authority = none ∧ ∀ m ∈ moves, m.BringsNone) ∧
      History.result? (s.run moves).history 0 = some (.ok (.record stored)) ∧
      (Call.lookupKey request).HandsStored {} (s.Held moves) (.record stored) := by
  intro request stored w moves s
  have hresult : History.result? (s.run moves).history 0 = some (.ok (.record stored)) := by
    decide +kernel
  have hcalls : (s.run moves).history.any
      (fun e => decide (e.index = 0 ∧ e.call = .lookupKey request)) = true := by decide +kernel
  have ⟨e, he, hcall⟩ := List.any_eq_true.1 hcalls
  have ⟨hindex, hlookup⟩ := of_decide_eq_true hcall
  have hnone : ∀ m ∈ moves, m.BringsNone := by
    intro m hm
    rcases List.mem_cons.1 hm with hm | hm
    · rw [hm]
      exact trivial
    · rw [List.eq_of_mem_replicate hm]
      exact trivial
  have hstored := run_handsStored w [] moves rfl hnone e he (Nat.zero_le _) request (hlookup ▸ rfl)
    (.record stored) (hindex ▸ hresult)
  rw [hlookup] at hstored
  exact ⟨⟨rfl, hnone⟩, hresult, hstored⟩

end System

/-- A key is opened while there is an authority and looked up when there is none: the token that was
minted for its block is handed out again. -/
theorem World.token_outlives_authority :
    let authority : TokenAuthority checksumScheme := { lifetime := 1000, signingKey := some [7] }
    let request : KeyRequest := { volume := "v", bucket := "b", key := "k" }
    let occasion := fun authority call =>
      ({ thread := (), call, around := {
        faults := [], allocator := (⟨1, 4, false⟩ : LocalAllocator), clock := 5
        ownTokenClock := none, authority } } : Occasion checksumScheme localAllocation Unit)
    let w : World checksumScheme localAllocation Unit := {
      store := { store := .memory {} }, allocator := (⟨1, 4, false⟩ : LocalAllocator), clock := 5 }
    let after := w.chronicle {} [occasion (some authority) (.createVolume "v" "alice"),
      occasion (some authority) (.createBucket "v" "b"),
      occasion (some authority) (.openKey request), occasion none (.lookupKey request)]
    after.2.authority.isNone = true ∧
      ∃ record, (after.1.map (·.result))[3]? = some (.ok (.record record)) ∧
        record.tokens = [some (TokenAuthority.issue checksumScheme [7]
          (authority.claims 5 "om1" ⟨1, 4⟩ 268435456))] := by
  intro authority request occasion w after
  let token := TokenAuthority.issue checksumScheme [7]
    (authority.claims 5 "om1" ⟨1, 4⟩ 268435456)
  let record : KeyRecord := {
    volume := "v", bucket := "b", key := "k", dataSize := 0, creationTime := 5
    modificationTime := 5, replicationType := .standAlone, replicationFactor := .one
    versions := [⟨1, [⟨⟨1, 4⟩, 0, 268435456, some token⟩]⟩] }
  exact ⟨by decide +kernel, record, by decide +kernel, rfl⟩

end ObjectMeta
