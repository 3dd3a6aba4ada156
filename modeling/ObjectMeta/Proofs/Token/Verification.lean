import ObjectMeta.Crypto.Ed25519
import ObjectMeta.Proofs.Token.Layout
import ObjectMeta.Token.Authority

/-!
# What verification accepts

Verification reads the claims of a token from the same bytes that its signature covers, and these
bytes have one meaning only.  So a token is accepted with claims exactly if it is their layout and
they are signed, and each refusal names the first check that fails.  `Verdict` says which answer is
due without reading any bytes; `verifyToken_iff_verdict` says that verification gives it.
-/

namespace ObjectMeta

variable {S : SignatureScheme} {key : S.VerifyingKey} {now : Int64} {token : BlockToken}
  {id id' : TokenIdentifier}

namespace BlockToken

/-! ## 1. The answer that is due -/

/-- The identifier of the token is the layout of these claims, byte for byte. -/
def Claims (token : BlockToken) (id : TokenIdentifier) : Prop :=
  id.Fits ∧ token.identifier = id.encode

/-- The token has a signature of the right length, and the scheme accepts it for these claims. -/
def Signed (S : SignatureScheme) (key : S.VerifyingKey) (token : BlockToken)
    (id : TokenIdentifier) : Prop :=
  ∃ length : token.signature.length = signatureLength,
    S.accepts key id.encode ⟨token.signature, length⟩ = true

/-- The error of the first check that a token fails at some time: the layout, the kind, the expiry,
the signature. -/
inductive Refused (S : SignatureScheme) (key : S.VerifyingKey) (now : Int64) (token : BlockToken) :
    TokenError → Prop where
  | malformed {fault : TokenIdentifier.Fault} (unclaimed : ∀ id, ¬token.Claims id)
      (reason : TokenIdentifier.decode token.identifier = .error fault) :
      Refused S key now token (.malformed fault.message)
  | kindMismatch {id : TokenIdentifier} (claims : token.Claims id)
      (kind : id.kind ≠ TokenIdentifier.blockTokenKind) :
      Refused S key now token (.kindMismatch TokenIdentifier.blockTokenKind id.kind)
  | expired {id : TokenIdentifier} (claims : token.Claims id)
      (kind : id.kind = TokenIdentifier.blockTokenKind) (late : id.expiryTime ≤ now) :
      Refused S key now token (.expired id.expiryTime now)
  | signatureInvalid {id : TokenIdentifier} (claims : token.Claims id)
      (kind : id.kind = TokenIdentifier.blockTokenKind) (early : now < id.expiryTime)
      (unsigned : ¬token.Signed S key id) : Refused S key now token .signatureInvalid

inductive Verdict (S : SignatureScheme) (key : S.VerifyingKey) (now : Int64) (token : BlockToken) :
    Except TokenError TokenIdentifier → Prop where
  | accepted {id : TokenIdentifier} (claims : token.Claims id)
      (kind : id.kind = TokenIdentifier.blockTokenKind) (early : now < id.expiryTime)
      (signed : token.Signed S key id) : Verdict S key now token (.ok id)
  | refused {e : TokenError} (refused : token.Refused S key now e) :
      Verdict S key now token (.error e)

/-! ## 2. Claims -/

theorem decode_eq_ok_iff_claims :
    TokenIdentifier.decode token.identifier = .ok id ↔ token.Claims id := by
  rw [TokenIdentifier.decode_eq_ok_iff_isLayout, TokenIdentifier.isLayout_iff]
  rfl

/-- No token makes two claims. -/
theorem Claims.unique (h : token.Claims id) (h' : token.Claims id') : id = id' := by
  rw [← decode_eq_ok_iff_claims] at h h'
  rw [h] at h'
  exact Except.ok.inj h'

theorem decodeIdentifier_eq_ok_iff : token.decodeIdentifier = .ok id ↔ token.Claims id := by
  rw [← decode_eq_ok_iff_claims]
  unfold decodeIdentifier
  cases TokenIdentifier.decode token.identifier with
  | error fault => exact ⟨nofun, nofun⟩
  | ok found =>
    constructor
    · intro h
      cases h
      rfl
    · intro h
      cases h
      rfl

/-! ## 3. One answer for every token -/

theorem Claims.not_refused (h : token.Claims id) (hkind : id.kind = TokenIdentifier.blockTokenKind)
    (hearly : now < id.expiryTime) (hsigned : token.Signed S key id) (e : TokenError) :
    ¬token.Refused S key now e := by
  intro hr
  cases hr with
  | malformed unclaimed => exact unclaimed id h
  | kindMismatch claims kind => exact kind (claims.unique h ▸ hkind)
  | expired claims kind late =>
    rw [claims.unique h] at late
    exact Int64.not_le.2 hearly late
  | signatureInvalid claims kind early unsigned => exact unsigned (claims.unique h ▸ hsigned)

theorem Refused.unique {e e' : TokenError} (h : token.Refused S key now e)
    (h' : token.Refused S key now e') : e = e' := by
  -- Two refusals agree on what the token claims, so a check that passes for one passes for both.
  cases h with
  | malformed unclaimed reason =>
    cases h' with
    | malformed _ reason' =>
      rw [reason] at reason'
      rw [Except.error.inj reason']
    | kindMismatch claims => exact absurd claims (unclaimed _)
    | expired claims => exact absurd claims (unclaimed _)
    | signatureInvalid claims => exact absurd claims (unclaimed _)
  | kindMismatch claims kind =>
    cases h' with
    | malformed unclaimed => exact absurd claims (unclaimed _)
    | kindMismatch claims' => rw [claims.unique claims']
    | expired claims' kind' => exact absurd (claims.unique claims' ▸ kind') kind
    | signatureInvalid claims' kind' => exact absurd (claims.unique claims' ▸ kind') kind
  | expired claims kind late =>
    cases h' with
    | malformed unclaimed => exact absurd claims (unclaimed _)
    | kindMismatch claims' kind' => exact absurd (claims.unique claims' ▸ kind) kind'
    | expired claims' => rw [claims.unique claims']
    | signatureInvalid claims' kind' early =>
      exact absurd (claims.unique claims' ▸ late) (Int64.not_le.2 early)
  | signatureInvalid claims kind early =>
    cases h' with
    | malformed unclaimed => exact absurd claims (unclaimed _)
    | kindMismatch claims' kind' => exact absurd (claims.unique claims' ▸ kind) kind'
    | expired claims' kind' late =>
      exact absurd (claims.unique claims' ▸ late) (Int64.not_le.2 early)
    | signatureInvalid => rfl

theorem Verdict.unique {r r' : Except TokenError TokenIdentifier} (h : token.Verdict S key now r)
    (h' : token.Verdict S key now r') : r = r' := by
  cases h with
  | accepted claims kind early signed =>
    cases h' with
    | accepted claims' => rw [claims.unique claims']
    | refused h' => exact absurd h' (claims.not_refused kind early signed _)
  | refused h =>
    cases h' with
    | accepted claims kind early signed => exact absurd h (claims.not_refused kind early signed _)
    | refused h' => rw [h.unique h']

end BlockToken

open BlockToken

/-! ## 4. The checks -/

theorem verifyToken_of_malformed {fault : TokenIdentifier.Fault}
    (h : TokenIdentifier.decode token.identifier = .error fault) :
    verifyToken S key now token = .error (.malformed fault.message) := by
  have hdecode : token.decodeIdentifier = .error (.malformed fault.message) := by
    unfold decodeIdentifier
    rw [h]
    rfl
  unfold verifyToken
  rw [hdecode]
  rfl

/-- What is left to check once the claims are known. -/
theorem verifyToken_of_claims (h : token.Claims id) : verifyToken S key now token =
    if id.kind ≠ TokenIdentifier.blockTokenKind then
      .error (.kindMismatch TokenIdentifier.blockTokenKind id.kind)
    else if id.expiryTime ≤ now then .error (.expired id.expiryTime now)
    else match Signature.ofBytes? token.signature with
      | none => .error .signatureInvalid
      | some signature =>
        if S.accepts key token.identifier signature then .ok id else .error .signatureInvalid := by
  have hexpired : id.isExpiredAt now = decide (id.expiryTime ≤ now) := rfl
  unfold verifyToken
  rw [decodeIdentifier_eq_ok_iff.2 h]
  simp only [bind, Except.bind, hexpired, decide_eq_true_eq]
  by_cases hkind : id.kind = TokenIdentifier.blockTokenKind
  · rw [if_neg (not_not_intro hkind), if_neg (not_not_intro hkind)]
    by_cases hlate : id.expiryTime ≤ now
    · rw [if_pos hlate, if_pos hlate]
      rfl
    · rw [if_neg hlate, if_neg hlate]
      rfl
  · rw [if_pos hkind, if_pos hkind]
    rfl

theorem verifyToken_verdict (S : SignatureScheme) (key : S.VerifyingKey) (now : Int64)
    (token : BlockToken) : token.Verdict S key now (verifyToken S key now token) := by
  cases hdecode : TokenIdentifier.decode token.identifier with
  | error fault =>
    rw [verifyToken_of_malformed hdecode]
    refine .refused (.malformed (fun id h => ?_) hdecode)
    rw [decode_eq_ok_iff_claims.2 h] at hdecode
    cases hdecode
  | ok id =>
    have hclaims := decode_eq_ok_iff_claims.1 hdecode
    rw [verifyToken_of_claims hclaims]
    split
    · next hkind => exact .refused (.kindMismatch hclaims hkind)
    next hkind =>
    rw [Decidable.not_not] at hkind
    split
    · next hlate => exact .refused (.expired hclaims hkind hlate)
    next hlate =>
    rw [Int64.not_le] at hlate
    -- the signature covers the bytes that the claims were read from
    rw [hclaims.2]
    unfold Signature.ofBytes?
    by_cases hlength : token.signature.length = signatureLength
    · rw [dif_pos hlength]
      simp only []
      split
      · next haccepts => exact .accepted hclaims hkind hlate ⟨hlength, haccepts⟩
      · next haccepts =>
        exact .refused (.signatureInvalid hclaims hkind hlate fun ⟨_, h⟩ => haccepts h)
    · rw [dif_neg hlength]
      exact .refused (.signatureInvalid hclaims hkind hlate fun ⟨h, _⟩ => hlength h)

/-- Verification gives the answer that is due, and no other. -/
theorem verifyToken_iff_verdict {r : Except TokenError TokenIdentifier} :
    verifyToken S key now token = r ↔ token.Verdict S key now r := by
  constructor
  · intro h
    subst h
    exact verifyToken_verdict S key now token
  · exact (verifyToken_verdict S key now token).unique

/-! ## 5. Verifiers and authorities -/

/-- An authority with a key checks tokens against the public half of the key. -/
theorem TokenAuthority.verify_of_started {authority : TokenAuthority S}
    {signingKey : S.SigningKey} (h : authority.signingKey = some signingKey) (now : Int64)
    (token : BlockToken) :
    authority.verify now token = verifyToken S (S.verifyingKey signingKey) now token := by
  unfold verify verifyingKey TokenAuthority.key
  rw [h]
  rfl

/-- A started authority checks tokens against the public half of the key it was started with. -/
theorem TokenAuthority.start_verify {authority started : TokenAuthority S}
    {signingKey : S.SigningKey} (h : authority.start signingKey = .ok started) :
    started.verifier = .ok ⟨S.verifyingKey signingKey⟩ ∧
      ∀ now token, started.verify now token =
        verifyToken S (S.verifyingKey signingKey) now token := by
  have hkey : started.signingKey = some signingKey := by
    unfold TokenAuthority.start at h
    split at h
    · cases h
    · cases h
      rfl
  refine ⟨?_, verify_of_started hkey⟩
  unfold TokenAuthority.verifier verifyingKey TokenAuthority.key
  rw [hkey]
  rfl

/-- A verifier accepts a token with claims exactly if the identifier of the token is the layout of
the claims, they are of a block token that has not expired, and its signature is accepted for them;
it refuses any other token with the error of the first check that fails.  An authority that was
started with the key's other half gives the same answers. -/
theorem verify_sound_complete (S : SignatureScheme) (key : S.VerifyingKey) (now : Int64)
    (token : BlockToken) :
    (∀ id, TokenVerifier.verify ⟨key⟩ now token = .ok id ↔
      (id.Fits ∧ token.identifier = id.encode) ∧ id.kind = "HDDS_BLOCK_TOKEN" ∧
        now < id.expiryTime ∧ ∃ length : token.signature.length = 64,
          S.accepts key id.encode ⟨token.signature, length⟩ = true) ∧
    (∀ e, TokenVerifier.verify ⟨key⟩ now token = .error e ↔ token.Refused S key now e) ∧
    ∀ (authority started : TokenAuthority S) (signingKey : S.SigningKey),
      S.verifyingKey signingKey = key → authority.start signingKey = .ok started →
        started.verify now token = TokenVerifier.verify ⟨key⟩ now token := by
  refine ⟨fun id => ?_, fun e => ?_, fun authority started signingKey hkey hstart => ?_⟩
  · unfold TokenVerifier.verify
    rw [verifyToken_iff_verdict]
    constructor
    · intro h
      cases h with
      | accepted claims kind early signed => exact ⟨claims, kind, early, signed⟩
    · intro h
      rcases h with ⟨claims, kind, early, signed⟩
      exact .accepted claims kind early signed
  · unfold TokenVerifier.verify
    rw [verifyToken_iff_verdict]
    constructor
    · intro h
      cases h with
      | refused refused => exact refused
    · exact .refused
  · rw [(TokenAuthority.start_verify hstart).2, hkey]
    rfl

/-- An Ed25519 key accepts its own signature exactly if the multiples of the base point that the
signature was made of add up. -/
theorem Ed25519.accepts_sign (seed : Seed) (message : Bytes) {nonce challenge : Nat}
    (hnonce : scalarOfHash (seed.nonceKey ++ message) = nonce)
    (hchallenge : scalarOfHash
      ((Point.base.scale nonce).encode ++ seed.publicKey.bytes ++ message) = challenge) :
    accepts seed.publicKey message (sign seed message) =
      (((seed.publicKey.point.neg.scale challenge).add
        (Point.base.scale ((nonce + challenge * seed.scalar) % order))).encode ==
          (Point.base.scale nonce).encode) := by
  have hfirst := Point.length_encode (Point.base.scale nonce)
  have hlt : (nonce + challenge * seed.scalar) % order < order := Nat.mod_lt _ (by decide)
  have hfits : (nonce + challenge * seed.scalar) % order < 256 ^ 32 :=
    Nat.lt_trans hlt (by decide)
  unfold accepts sign
  simp only [hnonce, hchallenge, List.take_left' hfirst, List.drop_left' hfirst,
    Bytes.leNat_leBytes, Nat.mod_eq_of_lt hfits, decide_eq_true hlt, Bool.true_and]

/-- Ed25519 accepts no signature whose second half is not reduced. -/
theorem Ed25519.lt_order_of_accepts {key : ed25519.VerifyingKey} {message : Bytes}
    {signature : Signature} (h : ed25519.accepts key message signature = true) :
    Bytes.leNat (signature.bytes.drop 32) < order := by
  unfold ed25519 at h
  dsimp only at h
  unfold accepts at h
  rw [Bool.and_eq_true, decide_eq_true_eq] at h
  exact h.1

/-- A token of the right kind with a signature whose second half is too large: for the seed of 32
bytes 7, it is refused for the signature until the last millisecond before its expiry, and for the
expiry from then on. -/
theorem verify_sound_complete_oversized :
    let id : TokenIdentifier := ⟨"HDDS_BLOCK_TOKEN", "o", ⟨1, 2⟩, 5, 10, 100⟩
    let token : BlockToken := ⟨id.encode, List.replicate 64 255⟩
    let seed : Ed25519.Seed := ⟨List.replicate 32 7, List.length_replicate⟩
    ∃ started : TokenAuthority ed25519,
      TokenAuthority.start { lifetime := 5 } seed = .ok started ∧
      started.verify 9 token = .error .signatureInvalid ∧
      started.verify 10 token = .error (.expired 10 10) := by
  intro id token seed
  have hclaims : token.Claims id := ⟨⟨by decide, by decide⟩, rfl⟩
  have hunsigned : ¬token.Signed ed25519 (ed25519.verifyingKey seed) id := by
    intro hsigned
    rcases hsigned with ⟨length, h⟩
    have hlarge : ¬Bytes.leNat ((List.replicate 64 255).drop 32) < Ed25519.order := by decide
    exact hlarge (Ed25519.lt_order_of_accepts h)
  have hstart : TokenAuthority.start { lifetime := 5 } seed =
      .ok (⟨5, some seed⟩ : TokenAuthority ed25519) := rfl
  refine ⟨_, hstart, ?_, ?_⟩
  · rw [(verify_sound_complete ed25519 _ 9 token).2.2 _ _ seed rfl hstart]
    exact ((verify_sound_complete ed25519 _ 9 token).2.1 _).2
      (.signatureInvalid hclaims rfl (by decide) hunsigned)
  · rw [(verify_sound_complete ed25519 _ 10 token).2.2 _ _ seed rfl hstart]
    exact ((verify_sound_complete ed25519 _ 10 token).2.1 _).2 (.expired hclaims rfl (by decide))

end ObjectMeta
