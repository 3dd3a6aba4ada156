import Mathlib.Algebra.Group.Int.Defs
import ObjectMeta.Proofs.Token.Verification

/-!
# What is minted

A started authority always mints: the identifier is the layout of what was asked for, issued at the
reading of its clock, and the signature is that of its key over these bytes (`mint_eq_ok_iff`).  So
if the scheme accepts what a key signs, a minted token is valid for its own authority until it
expires, which is never the moment it was issued at unless the clock stands at its end
(`verify_mint`, `lt_saturatingAdd`).
-/

namespace ObjectMeta

/-! ## 1. Times of expiry -/

/-- The sum, or the end of the range that it lies beyond, as an integer. -/
theorem toInt_saturatingAdd (a b : Int64) :
    (saturatingAdd a b).toInt = max (-2 ^ 63) (min (2 ^ 63 - 1) (a.toInt + b.toInt)) := by
  unfold saturatingAdd
  rw [Int64.toInt_minValue, Int64.toInt_maxValue]
  apply Int64.toInt_ofInt_of_le
  · exact Int.le_max_left _ _
  · omega

/-- What lives for some time expires after its start, unless it starts at the end of time. -/
theorem lt_saturatingAdd {now lifetime : Int64} (hlifetime : 0 < lifetime)
    (hnow : now < Int64.maxValue) : now < saturatingAdd now lifetime := by
  rw [Int64.lt_iff_toInt_lt] at hlifetime hnow ⊢
  rw [Int64.toInt_maxValue] at hnow
  have hstart := now.le_toInt
  have hpositive : 0 < lifetime.toInt := hlifetime
  rw [toInt_saturatingAdd]
  omega

/-! ## 2. Schemes -/

/-- The public half of a key accepts every message that the key signs. -/
def SignatureScheme.AcceptsOwn (S : SignatureScheme) (key : S.SigningKey) : Prop :=
  ∀ message, S.accepts (S.verifyingKey key) message (S.sign key message) = true

/-- The remainder of key and message, read as one number, in 64 bytes. -/
def checksum (key message : Bytes) : Bytes :=
  Bytes.leBytes signatureLength (Bytes.leNat (key ++ message) % (2 ^ 512 - 569))

/-- A scheme with one key for both sides, whose signatures are checksums.  It protects nobody, but
it accepts what its keys sign and its runs can be computed. -/
def checksumScheme : SignatureScheme where
  SigningKey := Bytes
  VerifyingKey := Bytes
  verifyingKey key := key
  sign key message := ⟨checksum key message, Bytes.length_leBytes _ _⟩
  accepts key message signature := signature.bytes = checksum key message

theorem checksumScheme_acceptsOwn (key : Bytes) : checksumScheme.AcceptsOwn key := by
  intro message
  exact decide_eq_true rfl

theorem eq_checksum_of_accepts {key message b : Bytes} {signature : Signature}
    (hsignature : Signature.ofBytes? b = some signature)
    (h : checksumScheme.accepts key message signature = true) : b = checksum key message := by
  unfold Signature.ofBytes? at hsignature
  split at hsignature
  · cases hsignature
    exact of_decide_eq_true h
  · cases hsignature

/-! ## 3. Authorities -/

/-- What is due at a reading of the clock to a token that makes these claims and is signed for
them. -/
def TokenIdentifier.answerAt (id : TokenIdentifier) (now : Int64) :
    Except TokenError TokenIdentifier :=
  if now < id.expiryTime then .ok id else .error (.expired id.expiryTime now)

/-- The scheme accepts the signature of an accepted token for the identifier of the token. -/
theorem signature_of_verifyToken {S : SignatureScheme} {key : S.VerifyingKey} {now : Int64}
    {token : BlockToken} {id : TokenIdentifier} (h : verifyToken S key now token = .ok id) :
    token.Claims id ∧ id.kind = TokenIdentifier.blockTokenKind ∧
      ∃ signature, Signature.ofBytes? token.signature = some signature ∧
        S.accepts key token.identifier signature = true := by
  rw [verifyToken_iff_verdict] at h
  cases h with
  | accepted claims kind early signed =>
    rcases signed with ⟨length, haccepts⟩
    refine ⟨claims, kind, ⟨token.signature, length⟩, dif_pos length, ?_⟩
    rw [claims.2]
    exact haccepts

namespace TokenAuthority

variable {S : SignatureScheme} {authority : TokenAuthority S} {key : S.SigningKey} {now : Int64}
  {owner : String} {block : BlockId} {maxLength : Int64} {token : BlockToken}

/-- An authority is started once and keeps what else it has. -/
theorem start_eq_ok_iff {started : TokenAuthority S} : authority.start key = .ok started ↔
    authority.signingKey = none ∧ started = { authority with signingKey := some key } := by
  unfold start
  cases authority.signingKey with
  | some key' => exact ⟨nofun, fun h => nomatch h.1⟩
  | none =>
    constructor
    · intro h
      exact ⟨rfl, (Except.ok.inj h).symm⟩
    · intro h
      rw [h.2]

/-- Only a started authority hands out verifiers, and they have the public half of its key. -/
theorem verifier_eq_ok_iff {verifier : TokenVerifier S} : authority.verifier = .ok verifier ↔
    ∃ key, authority.signingKey = some key ∧ verifier = ⟨S.verifyingKey key⟩ := by
  unfold TokenAuthority.verifier verifyingKey TokenAuthority.key
  cases authority.signingKey with
  | none => exact ⟨nofun, fun ⟨_, h, _⟩ => nomatch h⟩
  | some key =>
    constructor
    · intro h
      exact ⟨key, rfl, (Except.ok.inj h).symm⟩
    · intro h
      rcases h with ⟨_, hkey, rfl⟩
      cases hkey
      rfl

def issue (S : SignatureScheme) (key : S.SigningKey) (id : TokenIdentifier) : BlockToken where
  identifier := id.encode
  signature := (S.sign key id.encode).bytes

theorem mint_of_started (h : authority.signingKey = some key) :
    authority.mint now owner block maxLength =
      .ok (issue S key (authority.claims now owner block maxLength)) := by
  unfold mint TokenAuthority.key
  rw [h]
  rfl

/-- Minting takes a key, and a started authority cannot fail to mint. -/
theorem mint_eq_ok_iff : authority.mint now owner block maxLength = .ok token ↔
    ∃ key, authority.signingKey = some key ∧
      token = issue S key (authority.claims now owner block maxLength) := by
  constructor
  · intro h
    cases hkey : authority.signingKey with
    | none =>
      unfold mint TokenAuthority.key at h
      rw [hkey] at h
      cases h
    | some key =>
      rw [mint_of_started hkey] at h
      exact ⟨key, rfl, (Except.ok.inj h).symm⟩
  · intro h
    rcases h with ⟨key, hkey, rfl⟩
    exact mint_of_started hkey

/-- The kind of a token is short, so its claims have a layout if the owner has. -/
theorem claims_fits (h : (Bytes.ofText owner).length < 2 ^ 32) :
    (authority.claims now owner block maxLength).Fits := by
  have hkind : (Bytes.ofText TokenIdentifier.blockTokenKind).length < 2 ^ 32 := by decide
  exact ⟨hkind, h⟩

theorem issue_claims {id : TokenIdentifier} (h : id.Fits) : (issue S key id).Claims id :=
  ⟨h, rfl⟩

/-- What an authority accepts, it accepts under the public half of its key. -/
theorem verify_eq_ok_iff {id : TokenIdentifier} : authority.verify now token = .ok id ↔
    ∃ key, authority.signingKey = some key ∧
      verifyToken S (S.verifyingKey key) now token = .ok id := by
  constructor
  · intro h
    cases hkey : authority.signingKey with
    | none =>
      unfold verify verifyingKey TokenAuthority.key at h
      rw [hkey] at h
      cases h
    | some key => exact ⟨key, rfl, (verify_of_started hkey now token).symm.trans h⟩
  · intro h
    rcases h with ⟨key, hkey, h⟩
    rw [verify_of_started hkey]
    exact h

/-- A token that was issued under a key is valid under the public half of the key until it expires,
if the scheme accepts its signature. -/
theorem verifyToken_issue {id : TokenIdentifier} (hfits : id.Fits)
    (hkind : id.kind = TokenIdentifier.blockTokenKind)
    (haccepts : S.accepts (S.verifyingKey key) id.encode (S.sign key id.encode) = true)
    (now : Int64) :
    verifyToken S (S.verifyingKey key) now (issue S key id) = id.answerAt now := by
  have hclaims : (issue S key id).Claims id := issue_claims hfits
  rw [verifyToken_iff_verdict]
  unfold TokenIdentifier.answerAt
  by_cases hearly : now < id.expiryTime
  · rw [if_pos hearly]
    exact .accepted hclaims hkind hearly ⟨(S.sign key id.encode).length_bytes, haccepts⟩
  · rw [if_neg hearly]
    exact .refused (.expired hclaims hkind (Int64.not_lt.1 hearly))

/-- A minted token is valid for its authority at the moment of its minting, with the claims that
were asked for. -/
theorem verify_mint (hkey : authority.signingKey = some key) (hown : S.AcceptsOwn key)
    (howner : (Bytes.ofText owner).length < 2 ^ 32) (hlifetime : 0 < authority.lifetime)
    (hnow : now < Int64.maxValue)
    (h : authority.mint now owner block maxLength = .ok token) :
    authority.verify now token = .ok (authority.claims now owner block maxLength) := by
  rw [mint_of_started hkey] at h
  cases h
  rw [verify_of_started hkey, verifyToken_issue (claims_fits howner) rfl (hown _)]
  exact if_pos (lt_saturatingAdd hlifetime hnow)

end TokenAuthority

end ObjectMeta
