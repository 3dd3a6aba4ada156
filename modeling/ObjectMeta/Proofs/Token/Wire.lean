import ObjectMeta.Proofs.Token.Minting

/-!
# Tokens on the wire

A token travels as its identifier followed by its signature, with nothing in between, and is split
again at a fixed distance from the end.  So it comes back as it was only if the signature has the
length that is cut off and something stands in front of it (`ofWire_eq_ok_iff`).  Whatever is
accepted by a verifier is of this kind: identifiers are never empty, and the length of the signature
is one of the checks.
-/

namespace ObjectMeta

namespace BlockToken

variable {b : Bytes} {token : BlockToken}

/-! ## 1. Splitting -/

/-- A byte string is taken for the one token that it is the wire form of and that has an identifier
and a signature of the right length. -/
theorem ofWire_eq_ok_iff : ofWire b = .ok token ↔
    token.toWire = b ∧ token.identifier ≠ [] ∧ token.signature.length = signatureLength := by
  unfold ofWire toWire
  constructor
  · intro h
    split at h
    · cases h
    · next hlong =>
      cases h
      refine ⟨List.take_append_drop _ b, ?_, ?_⟩
      · rw [← List.length_pos_iff, List.length_take]
        omega
      · rw [List.length_drop]
        omega
  · intro h
    rcases h with ⟨rfl, hidentifier, hsignature⟩
    have hpos : 0 < token.identifier.length := List.length_pos_iff.2 hidentifier
    rw [List.length_append, hsignature, if_neg (by omega), Nat.add_sub_cancel]
    simp only [List.take_left, List.drop_left]

theorem ofWire_toWire (hsignature : token.signature.length = signatureLength)
    (hidentifier : token.identifier ≠ []) : ofWire token.toWire = .ok token :=
  ofWire_eq_ok_iff.2 ⟨rfl, hidentifier, hsignature⟩

/-- What is longer than a signature is split. -/
theorem exists_ofWire (h : signatureLength < b.length) : ∃ token, ofWire b = .ok token := by
  unfold ofWire
  rw [if_neg (Nat.not_le.2 h)]
  exact ⟨_, rfl⟩

theorem ofWire_of_length_le (h : b.length ≤ signatureLength) : ofWire b =
    .error (.malformed
      ("token is " ++ toString b.length ++ " bytes, shorter than a signature plus identifier")) :=
  if_pos h

/-! ## 2. Accepted tokens -/

/-- A token that makes claims has an identifier. -/
theorem Claims.identifier_ne_nil {id : TokenIdentifier} (h : token.Claims id) :
    token.identifier ≠ [] := by
  rw [h.2]
  exact List.cons_ne_nil _ _

theorem ofWire_toWire_of_accepted {S : SignatureScheme} {key : S.VerifyingKey} {now : Int64}
    {id : TokenIdentifier} (h : verifyToken S key now token = .ok id) :
    ofWire token.toWire = .ok token := by
  rw [verifyToken_iff_verdict] at h
  cases h with
  | accepted claims kind early signed =>
    have ⟨hsignature, _⟩ := signed
    exact ofWire_toWire hsignature claims.identifier_ne_nil

/-- The wire form of a token reads back as the token exactly if its identifier is not empty and its
signature has 64 bytes.  Every byte string longer than a signature is the wire form of the token
that it reads as, and every other is refused.  Whatever a verifier or an authority accepts reads
back unchanged, and is then accepted again with the same claims. -/
theorem wire_faithful (S : SignatureScheme) :
    (∀ token, ofWire token.toWire = .ok token ↔
      token.identifier ≠ [] ∧ token.signature.length = 64) ∧
    (∀ b : Bytes, (64 < b.length → ∃ token, ofWire b = .ok token ∧ token.toWire = b) ∧
      (b.length ≤ 64 → ofWire b = .error (.malformed
        ("token is " ++ toString b.length ++
          " bytes, shorter than a signature plus identifier")))) ∧
    (∀ (verifier : TokenVerifier S) now token id, verifier.verify now token = .ok id →
      ofWire token.toWire = .ok token ∧
        (ofWire token.toWire >>= verifier.verify now) = .ok id) ∧
    ∀ (authority : TokenAuthority S) now token id, authority.verify now token = .ok id →
      ofWire token.toWire = .ok token ∧
        (ofWire token.toWire >>= authority.verify now) = .ok id := by
  refine ⟨fun token => ?_, fun b => ⟨fun hlong => ?_, ofWire_of_length_le⟩,
    fun verifier now token id h => ?_, fun authority now token id h => ?_⟩
  · rw [ofWire_eq_ok_iff]
    exact and_iff_right rfl
  · have ⟨token, htoken⟩ := exists_ofWire hlong
    exact ⟨token, htoken, (ofWire_eq_ok_iff.1 htoken).1⟩
  · have hwire : ofWire token.toWire = .ok token := ofWire_toWire_of_accepted h
    rw [hwire]
    exact ⟨rfl, h⟩
  · have ⟨key, _, hkey⟩ := TokenAuthority.verify_eq_ok_iff.1 h
    have hwire : ofWire token.toWire = .ok token := ofWire_toWire_of_accepted hkey
    rw [hwire]
    exact ⟨rfl, h⟩

/-- A token that is accepted comes back from the wire.  One that has part of the identifier in its
signature has the same wire form, so it is the accepted token that comes back.  One byte in front of
a signature is enough to be read as a token. -/
theorem wire_faithful_moved :
    let authority : TokenAuthority checksumScheme := ⟨100, some [7]⟩
    let id := authority.claims 50 "o" ⟨1, 2⟩ 512
    let token := TokenAuthority.issue checksumScheme [7] id
    let moved : BlockToken := ⟨id.encode.take 10, id.encode.drop 10 ++ token.signature⟩
    authority.verify 60 token = .ok id ∧ moved.toWire = token.toWire ∧
      ofWire moved.toWire = .ok token ∧ ofWire moved.toWire ≠ .ok moved ∧
      ∃ other, ofWire (0 :: token.signature) = .ok other ∧ other.toWire = 0 :: token.signature := by
  intro authority id token moved
  have ⟨hiff, hsplit, _, haccepted⟩ := wire_faithful checksumScheme
  have hverify : authority.verify 60 token = .ok id := by
    rw [TokenAuthority.verify_of_started rfl]
    exact (TokenAuthority.verifyToken_issue (TokenAuthority.claims_fits (by decide)) rfl
      (checksumScheme_acceptsOwn _ _) 60).trans (if_pos (by decide))
  have hmoved : moved.toWire = token.toWire := by
    unfold toWire
    rw [← List.append_assoc, List.take_append_drop]
    rfl
  have hlength : moved.signature.length ≠ 64 := by
    decide +kernel
  refine ⟨hverify, hmoved, ?_, fun h => hlength ((hiff moved).1 h).2, ?_⟩
  · rw [hmoved]
    exact (haccepted authority 60 token id hverify).1
  · exact (hsplit (0 :: token.signature)).1 (by decide +kernel)

end BlockToken

end ObjectMeta
