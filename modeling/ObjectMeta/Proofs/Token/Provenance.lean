import Mathlib.Logic.Function.Basic
import ObjectMeta.Proofs.Token.Minting

/-!
# Where accepted tokens come from

Authorities are started, mint, hand out verifiers and are shown tokens in any order, and their
clocks are set at will.  The tokens that are shown are arbitrary: whoever makes them may edit claims,
swap or cut signatures, or take them from elsewhere.  If no signature is accepted for a message that
the key has not signed (`Realm.Unforged`), then whatever is accepted was minted: the bytes under a
signature are the layout of one identifier only, so nobody can read other claims into them
(`Realm.accepted_was_minted`).
-/

namespace ObjectMeta

/-! ## 1. Authorities at work -/

/-- Authorities under their names, each with its clock, and the verifiers that they handed out. -/
structure Realm (S : SignatureScheme) (ν : Type) where
  authorities : ν → TokenAuthority S
  clocks : ν → Int64
  /-- The verifiers, oldest first, each with the name of the authority that it is from. -/
  verifiers : List (ν × TokenVerifier S) := []

namespace Realm

inductive Move (S : SignatureScheme) (ν : Type) where
  | start (name : ν) (key : S.SigningKey)
  | mint (name : ν) (owner : String) (block : BlockId) (maxLength : Int64)
  | handOut (name : ν)
  /-- An authority is shown a token. -/
  | verify (name : ν) (token : BlockToken)
  /-- A verifier is shown a token, at a reading of whatever clock it has. -/
  | check (index : Nat) (now : Int64) (token : BlockToken)
  | setClock (name : ν) (now : Int64)

variable {S : SignatureScheme} {ν : Type}

def mint (realm : Realm S ν) (name : ν) (owner : String) (block : BlockId) (maxLength : Int64) :
    Except TokenError BlockToken :=
  (realm.authorities name).mint (realm.clocks name) owner block maxLength

/-- A move has a token examined under the key of an authority, with this answer. -/
inductive Examines (realm : Realm S ν) :
    Move S ν → ν → BlockToken → Except TokenError TokenIdentifier → Prop where
  | verify {name : ν} {token : BlockToken} :
      Examines realm (.verify name token) name token
        ((realm.authorities name).verify (realm.clocks name) token)
  | check {index : Nat} {now : Int64} {token : BlockToken} {name : ν}
      {verifier : TokenVerifier S} (handedOut : realm.verifiers[index]? = some (name, verifier)) :
      Examines realm (.check index now token) name token (verifier.verify now token)

inductive Signs (realm : Realm S ν) : Move S ν → S.SigningKey → Bytes → Prop where
  | mint {name : ν} {owner : String} {block : BlockId} {maxLength : Int64} {key : S.SigningKey}
      (started : (realm.authorities name).signingKey = some key) :
      Signs realm (.mint name owner block maxLength) key
        ((realm.authorities name).claims (realm.clocks name) owner block maxLength).encode

variable [DecidableEq ν]

/-- Makes a move; one that is refused changes nothing. -/
def step (realm : Realm S ν) : Move S ν → Realm S ν
  | .start name key =>
    match (realm.authorities name).start key with
    | .ok started => { realm with authorities := Function.update realm.authorities name started }
    | .error _ => realm
  | .handOut name =>
    match (realm.authorities name).verifier with
    | .ok verifier => { realm with verifiers := realm.verifiers ++ [(name, verifier)] }
    | .error _ => realm
  | .setClock name now => { realm with clocks := Function.update realm.clocks name now }
  | .mint .. | .verify .. | .check .. => realm

def run (realm : Realm S ν) (moves : List (Move S ν)) : Realm S ν := moves.foldl step realm

def before (realm : Realm S ν) (moves : List (Move S ν)) (n : Nat) : Realm S ν :=
  realm.run (moves.take n)

def Signed (realm : Realm S ν) (moves : List (Move S ν)) (n : Nat) (key : S.SigningKey)
    (message : Bytes) : Prop :=
  ∃ m < n, ∃ move, moves[m]? = some move ∧ (realm.before moves m).Signs move key message

/-- Signatures cannot be forged: whenever the public half of an authority's key accepts a signature
for a message, the key has signed exactly this message before. -/
def Unforged (realm : Realm S ν) (moves : List (Move S ν)) : Prop :=
  ∀ n move name token answer key signature, moves[n]? = some move →
    (realm.before moves n).Examines move name token answer →
    ((realm.before moves n).authorities name).signingKey = some key →
    Signature.ofBytes? token.signature = some signature →
    S.accepts (S.verifyingKey key) token.identifier signature = true →
      realm.Signed moves n key token.identifier

/-! ## 2. What a realm keeps -/

/-- What a move can do to a realm: nothing, start an authority that has no key, hand out the public
half of a key, or set a clock. -/
inductive Change (realm : Realm S ν) : Realm S ν → Prop where
  | nothing : Change realm realm
  | started {name : ν} {key : S.SigningKey} (fresh : (realm.authorities name).signingKey = none) :
      Change realm { realm with
        authorities := Function.update realm.authorities name
          { realm.authorities name with signingKey := some key } }
  | handedOut {name : ν} {key : S.SigningKey}
      (started : (realm.authorities name).signingKey = some key) :
      Change realm { realm with
        verifiers := realm.verifiers ++ [(name, ⟨S.verifyingKey key⟩)] }
  | clockSet {name : ν} {now : Int64} :
      Change realm { realm with clocks := Function.update realm.clocks name now }

theorem step_change (realm : Realm S ν) (move : Move S ν) : realm.Change (realm.step move) := by
  cases move with
  | start name key =>
    rw [step]
    split
    · next started hstart =>
      rw [TokenAuthority.start_eq_ok_iff] at hstart
      rw [hstart.2]
      exact .started hstart.1
    · exact .nothing
  | handOut name =>
    rw [step]
    split
    · next verifier hverifier =>
      have ⟨key, hkey, heq⟩ := TokenAuthority.verifier_eq_ok_iff.1 hverifier
      rw [heq]
      exact .handedOut hkey
    · exact .nothing
  | setClock name now => exact .clockSet
  | _ => exact .nothing

/-- Every verifier has the public half of the key of the authority that it is from. -/
def Paired (realm : Realm S ν) : Prop :=
  ∀ entry ∈ realm.verifiers, ∃ key, (realm.authorities entry.1).signingKey = some key ∧
    entry.2.key = S.verifyingKey key

variable {realm realm' : Realm S ν} {name : ν} {key : S.SigningKey}

theorem Change.signingKey (hchange : realm.Change realm')
    (h : (realm.authorities name).signingKey = some key) :
    (realm'.authorities name).signingKey = some key := by
  cases hchange with
  | @started name' key' hfresh =>
    -- an authority that has a key is not started again, so this is another one
    have hother : name ≠ name' := by
      rintro rfl
      rw [hfresh] at h
      cases h
    show (Function.update realm.authorities name' _ name).signingKey = some key
    rw [Function.update_of_ne hother]
    exact h
  | _ => exact h

theorem Change.lifetime (hchange : realm.Change realm') (name : ν) :
    (realm'.authorities name).lifetime = (realm.authorities name).lifetime := by
  cases hchange with
  | @started name' key' =>
    show (Function.update realm.authorities name' _ name).lifetime = _
    by_cases hname : name = name'
    · rw [hname, Function.update_self]
    · rw [Function.update_of_ne hname]
  | _ => rfl

theorem Paired.change (h : realm.Paired) (hchange : realm.Change realm') : realm'.Paired := by
  -- a verifier that is there stays with its key, since its authority keeps it
  have hkept : ∀ entry ∈ realm.verifiers, ∃ key,
      (realm'.authorities entry.1).signingKey = some key ∧ entry.2.key = S.verifyingKey key := by
    intro entry hentry
    have ⟨key, hkey, hverifier⟩ := h entry hentry
    exact ⟨key, hchange.signingKey hkey, hverifier⟩
  cases hchange with
  | handedOut hstarted =>
    intro entry hentry
    rcases List.mem_append.1 hentry with hentry | hentry
    · exact hkept entry hentry
    · rw [List.mem_singleton.1 hentry]
      exact ⟨_, hstarted, rfl⟩
  | _ => exact hkept

theorem Paired.run (h : realm.Paired) (moves : List (Move S ν)) : (realm.run moves).Paired := by
  induction moves generalizing realm with
  | nil => exact h
  | cons move moves ih => exact ih (h.change (step_change realm move))

theorem lifetime_run (realm : Realm S ν) (name : ν) (moves : List (Move S ν)) :
    ((realm.run moves).authorities name).lifetime = (realm.authorities name).lifetime := by
  induction moves generalizing realm with
  | nil => rfl
  | cons move moves ih =>
    exact (ih (realm.step move)).trans ((step_change realm move).lifetime name)

/-! ## 3. From acceptance back to minting -/

omit [DecidableEq ν] in
/-- Whoever accepts a token does so under the key of a started authority. -/
theorem Examines.exists_key {move : Move S ν} {token : BlockToken} {id : TokenIdentifier}
    {answer : Except TokenError TokenIdentifier} (h : realm.Examines move name token answer)
    (hpaired : realm.Paired) (haccepted : answer = .ok id) :
    ∃ key now, (realm.authorities name).signingKey = some key ∧
      verifyToken S (S.verifyingKey key) now token = .ok id := by
  cases h with
  | verify =>
    have ⟨key, hkey, hverify⟩ := TokenAuthority.verify_eq_ok_iff.1 haccepted
    exact ⟨key, realm.clocks name, hkey, hverify⟩
  | @check _ now _ _ verifier handedOut =>
    have ⟨key, hkey, hverifier⟩ := hpaired _ (List.mem_of_getElem? handedOut)
    refine ⟨key, now, hkey, ?_⟩
    rw [← hverifier]
    exact haccepted

/-- Whenever an authority or a verifier that it handed out accepts a token with some claims, its key
has minted, at an earlier move, the very identifier of the token: for the owner, the block and the
length that are claimed, at the time of issue, with the lifetime of the minting authority to go. -/
theorem accepted_was_minted (authorities : ν → TokenAuthority S) (clocks : ν → Int64)
    (moves : List (Move S ν))
    (howners : ∀ name owner block maxLength, .mint name owner block maxLength ∈ moves →
      (Bytes.ofText owner).length < 2 ^ 32)
    (hunforged : Unforged { authorities, clocks } moves) :
    let realm : Realm S ν := { authorities, clocks }
    ∀ n move name token id, moves[n]? = some move →
      (realm.before moves n).Examines move name token (.ok id) →
      ∃ m < n, ∃ minter key minted,
        moves[m]? = some (.mint minter id.owner id.block id.maxLength) ∧
        (realm.before moves m).mint minter id.owner id.block id.maxLength = .ok minted ∧
        minted.identifier = token.identifier ∧
        ((realm.before moves n).authorities name).signingKey = some key ∧
        ((realm.before moves m).authorities minter).signingKey = some key ∧
        (realm.before moves m).clocks minter = id.issueTime ∧
        id.expiryTime.toInt = max (-2 ^ 63) (min (2 ^ 63 - 1)
          (id.issueTime.toInt + (authorities minter).lifetime.toInt)) ∧
        id.kind = "HDDS_BLOCK_TOKEN" := by
  intro realm n move name token id hmove h
  have hpaired : (realm.before moves n).Paired :=
    Paired.run (fun _ hentry => absurd hentry List.not_mem_nil) _
  have ⟨key, now, hkey, hverify⟩ := h.exists_key hpaired rfl
  have ⟨hclaims, hkind, signature, hsignature, haccepts⟩ := signature_of_verifyToken hverify
  have ⟨m, hm, move', hmove', hsigns⟩ :=
    hunforged n move name token _ key signature hmove h hkey hsignature haccepts
  generalize hbytes : token.identifier = bytes at hsigns ⊢
  cases hsigns with
  | @mint minter owner block maxLength _ hminter =>
    -- the bytes that were signed are the layout of what was minted, and of nothing else
    have howner := howners minter owner block maxLength (List.mem_of_getElem? hmove')
    have hminted : token.Claims _ := ⟨TokenAuthority.claims_fits howner, hbytes⟩
    have hid := hclaims.unique hminted
    subst hid
    refine ⟨m, hm, minter, key, _, hmove', TokenAuthority.mint_of_started hminter, rfl, hkey,
      hminter, rfl, ?_, rfl⟩
    show (saturatingAdd _ _).toInt = _
    rw [toInt_saturatingAdd, before, lifetime_run]
    rfl

/-- Two authorities, one with a lifetime that reaches beyond the end of time.  Its token is accepted
by a verifier a while after it was minted; with another owner under the old signature, or shown to
the other authority, it is not. -/
theorem accepted_was_minted_saturated :
    let authorities : Bool → TokenAuthority checksumScheme :=
      fun name => { lifetime := if name then Int64.maxValue else 60000 }
    let realm : Realm checksumScheme Bool := { authorities, clocks := fun _ => 0 }
    let id := (authorities true).claims 100 "alice" ⟨1, 2⟩ 512
    let token := TokenAuthority.issue checksumScheme [2] id
    let edited : BlockToken := { token with identifier := { id with owner := "mallory" }.encode }
    let moves : List (Move checksumScheme Bool) :=
      [.start false [1], .start true [2], .setClock true 100, .mint true "alice" ⟨1, 2⟩ 512,
        .handOut true, .check 0 200 edited, .verify false token, .check 0 200 token]
    realm.Unforged moves ∧ (realm.before moves 7).Examines (.check 0 200 token) true token (.ok id) ∧
      id.expiryTime = Int64.maxValue ∧
      ∃ m < 7, ∃ minter, moves[m]? = some (.mint minter id.owner id.block id.maxLength) := by
  intro authorities realm id token edited moves
  have hunforged : realm.Unforged moves := by
    intro n move name token' answer key signature hmove hexamines hkey hsignature haccepts
    have hsum := fun b h => eq_checksum_of_accepts (b := b) h haccepts
    rcases n with _ | _ | _ | _ | _ | _ | _ | _ | n
    · cases hmove
      cases hexamines
    · cases hmove
      cases hexamines
    · cases hmove
      cases hexamines
    · cases hmove
      cases hexamines
    · cases hmove
      cases hexamines
    · -- the signature is not that of the edited claims
      cases hmove
      cases hexamines with
      | check handedOut =>
        cases handedOut
        cases hkey
        exact absurd (hsum _ hsignature) (by decide +kernel)
    · -- nor that of the other authority
      cases hmove
      cases hexamines
      cases hkey
      exact absurd (hsum _ hsignature) (by decide +kernel)
    · cases hmove
      cases hexamines with
      | check handedOut =>
        cases handedOut
        cases hkey
        exact ⟨3, by decide, _, rfl, .mint rfl⟩
    · cases hmove
  have hverify : TokenVerifier.verify (S := checksumScheme) ⟨[2]⟩ 200 token = .ok id := by
    unfold TokenVerifier.verify
    rw [verifyToken_iff_verdict]
    exact .accepted ⟨⟨by decide, by decide⟩, rfl⟩ rfl (by decide +kernel)
      ⟨Bytes.length_leBytes _ _, checksumScheme_acceptsOwn [2] id.encode⟩
  have hexamines : (realm.before moves 7).Examines (.check 0 200 token) true token (.ok id) := by
    rw [← hverify]
    exact .check rfl
  have hexpiry : id.expiryTime = Int64.maxValue := by decide +kernel
  have howners : ∀ name owner block maxLength, .mint name owner block maxLength ∈ moves →
      (Bytes.ofText owner).length < 2 ^ 32 := by
    intro name owner block maxLength hmem
    simp [moves] at hmem
    rcases hmem with ⟨-, rfl, -⟩
    decide
  have ⟨m, hm, minter, _, _, hmove, _⟩ :=
    accepted_was_minted authorities _ moves howners hunforged 7 _ _ _ _ rfl hexamines
  exact ⟨hunforged, hexamines, hexpiry, m, hm, minter, hmove⟩

end Realm

end ObjectMeta
