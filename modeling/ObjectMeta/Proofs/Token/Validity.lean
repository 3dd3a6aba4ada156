import ObjectMeta.Proofs.Token.Minting

/-!
# How long tokens are valid

All that verification takes from a clock is one reading, which it compares with the expiry that the
token claims.  So time only ever turns a token from valid to expired (`ExpiresForGood`), and a
minted token is valid exactly before the sum of its time of issue and the lifetime, cut off at the
ends of the 64-bit range, wherever the clock stood when it was minted (`valid_until_expiry`).
-/

namespace ObjectMeta

variable {S : SignatureScheme}

/-! ## 1. Later and earlier readings -/

/-- A token that has expired stays so at every later reading of the clock, and a token that is valid
is so at every earlier one. -/
structure ExpiresForGood (judge : Int64 → BlockToken → Except TokenError TokenIdentifier) :
    Prop where
  later : ∀ {token expiry reading now now'}, judge now token = .error (.expired expiry reading) →
    now ≤ now' → judge now' token = .error (.expired expiry now')
  earlier : ∀ {token id now now'}, judge now token = .ok id → now' ≤ now →
    judge now' token = .ok id

theorem verifyToken_expiresForGood (key : S.VerifyingKey) : ExpiresForGood (verifyToken S key) where
  later := by
    intro token expiry reading now now' h hnow
    rw [verifyToken_iff_verdict] at h ⊢
    cases h with
    | refused hrefused =>
      cases hrefused with
      | expired claims kind late => exact .refused (.expired claims kind (Int64.le_trans late hnow))
  earlier := by
    intro token id now now' h hnow
    rw [verifyToken_iff_verdict] at h ⊢
    cases h with
    | accepted claims kind early signed =>
      exact .accepted claims kind (Int64.lt_of_le_of_lt hnow early) signed

namespace TokenAuthority

variable {authority : TokenAuthority S}

theorem verify_expiresForGood (authority : TokenAuthority S) : ExpiresForGood authority.verify := by
  cases hkey : authority.signingKey with
  | some key =>
    have hverify : authority.verify = verifyToken S (S.verifyingKey key) :=
      funext₂ (verify_of_started hkey)
    rw [hverify]
    exact verifyToken_expiresForGood _
  | none =>
    -- without a key no token is even looked at
    have hverify : authority.verify = fun _ _ => .error .notInitialized := by
      unfold verify verifyingKey TokenAuthority.key
      rw [hkey]
      rfl
    rw [hverify]
    exact ⟨nofun, nofun⟩

end TokenAuthority

/-! ## 2. The time of validity -/

theorem TokenIdentifier.answerAt_eq (id : TokenIdentifier) (now : Int64) : id.answerAt now =
    if now.toInt < id.expiryTime.toInt then .ok id else .error (.expired id.expiryTime now) := by
  unfold answerAt
  simp only [Int64.lt_iff_toInt_lt]

/-- A token that is minted by a started authority, whatever its lifetime and the reading of its
clock are, is valid exactly at the readings before the sum of the two, cut off at the ends of the
range: if its own signature is accepted, it yields its claims there, and is expired from then on,
for the authority and for the verifiers that it hands out.  For every token, expiry is for good, and
validity goes back to every earlier reading. -/
theorem valid_until_expiry (S : SignatureScheme) :
    (∀ (authority : TokenAuthority S) (key : S.SigningKey) (issued : Int64) (owner : String)
        (block : BlockId) (maxLength : Int64),
      authority.signingKey = some key → (Bytes.ofText owner).length < 2 ^ 32 →
      ∃ token expiry, authority.mint issued owner block maxLength = .ok token ∧
        expiry.toInt =
          min (max (issued.toInt + authority.lifetime.toInt) (-2 ^ 63)) (2 ^ 63 - 1) ∧
        (S.accepts (S.verifyingKey key) token.identifier (S.sign key token.identifier) = true →
          ∀ now,
            authority.verify now token = (if now.toInt < expiry.toInt then
              .ok ⟨"HDDS_BLOCK_TOKEN", owner, block, issued, expiry, maxLength⟩
            else .error (.expired expiry now)) ∧
            ∀ verifier, authority.verifier = .ok verifier →
              verifier.verify now token = authority.verify now token)) ∧
    (∀ authority : TokenAuthority S, ExpiresForGood authority.verify) ∧
    ∀ verifier : TokenVerifier S, ExpiresForGood verifier.verify := by
  refine ⟨?_, TokenAuthority.verify_expiresForGood,
    fun verifier => verifyToken_expiresForGood verifier.key⟩
  intro authority key issued owner block maxLength hkey howner
  let claims := authority.claims issued owner block maxLength
  have hfits : claims.Fits := TokenAuthority.claims_fits howner
  refine ⟨TokenAuthority.issue S key claims, claims.expiryTime, TokenAuthority.mint_of_started hkey,
    ?_, fun haccepts now => ⟨?_, fun verifier hverifier => ?_⟩⟩
  · show (saturatingAdd issued authority.lifetime).toInt = _
    rw [toInt_saturatingAdd]
    omega
  · rw [TokenAuthority.verify_of_started hkey,
      TokenAuthority.verifyToken_issue hfits rfl haccepts, claims.answerAt_eq]
    rfl
  · have ⟨key', hkey', heq⟩ := TokenAuthority.verifier_eq_ok_iff.1 hverifier
    rw [TokenAuthority.verify_of_started hkey', heq]
    rfl

/-- A token that is minted 60 milliseconds before the last reading there is, with a lifetime of 100,
is valid up to the last but one, and at the first.  With a lifetime of -100, one that is minted 60
milliseconds after the first reading is expired at all of them. -/
theorem valid_until_expiry_saturated :
    let late : TokenAuthority checksumScheme := ⟨100, some [7]⟩
    let early : TokenAuthority checksumScheme := ⟨-100, some [7]⟩
    let id : TokenIdentifier :=
      ⟨"HDDS_BLOCK_TOKEN", "o", ⟨1, 2⟩, Int64.maxValue - 60, Int64.maxValue, 512⟩
    (∃ token, late.mint (Int64.maxValue - 60) "o" ⟨1, 2⟩ 512 = .ok token ∧
      late.verify Int64.minValue token = .ok id ∧
      late.verify (Int64.maxValue - 1) token = .ok id ∧
      late.verify Int64.maxValue token = .error (.expired Int64.maxValue Int64.maxValue)) ∧
    ∃ token, early.mint (Int64.minValue + 60) "o" ⟨1, 2⟩ 512 = .ok token ∧
      ∀ now, early.verify now token = .error (.expired Int64.minValue now) := by
  intro late early id
  have ⟨hminted, hsteady, _⟩ := valid_until_expiry checksumScheme
  have hown := checksumScheme_acceptsOwn [7]
  refine ⟨?_, ?_⟩
  · rcases hminted late [7] (Int64.maxValue - 60) "o" ⟨1, 2⟩ 512 rfl (by decide) with
      ⟨token, expiry, hmint, hexpiry, hverify⟩
    have hend : expiry = Int64.maxValue := Int64.toInt_inj.1 (hexpiry.trans (by decide))
    subst hend
    have hanswer := hverify (hown _)
    have hlast : late.verify (Int64.maxValue - 1) token = .ok id :=
      (hanswer (Int64.maxValue - 1)).1.trans (if_pos (by decide))
    refine ⟨token, hmint, (hsteady late).earlier hlast (by decide), hlast, ?_⟩
    exact (hanswer Int64.maxValue).1.trans (if_neg (by decide))
  · rcases hminted early [7] (Int64.minValue + 60) "o" ⟨1, 2⟩ 512 rfl (by decide) with
      ⟨token, expiry, hmint, hexpiry, hverify⟩
    have hend : expiry = Int64.minValue := Int64.toInt_inj.1 (hexpiry.trans (by decide))
    subst hend
    have hfirst : early.verify Int64.minValue token =
        .error (.expired Int64.minValue Int64.minValue) :=
      (hverify (hown _) Int64.minValue).1.trans (if_neg (by decide))
    exact ⟨token, hmint, fun now => (hsteady early).later hfirst (Int64.minValue_le now)⟩

end ObjectMeta
