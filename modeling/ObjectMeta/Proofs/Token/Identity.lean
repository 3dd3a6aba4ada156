import ObjectMeta.Proofs.Token.Minting

/-!
# One signing identity

An authority is asked to start, to mint, to verify and for its public key, in any order and at any
readings of its clock.  Whatever is asked, it has the key of the first start and no other
(`TokenAuthority.after_eq`), so all verifiers that it ever hands out and the authority itself judge
its tokens alike (`TokenAuthority.asks_oneIdentity`).
-/

namespace ObjectMeta

namespace TokenAuthority

variable {S : SignatureScheme}

/-- What an authority is asked, with the reading of its clock where it takes one. -/
inductive Ask (S : SignatureScheme) where
  | start (key : S.SigningKey)
  | mint (now : Int64) (owner : String) (block : BlockId) (maxLength : Int64)
  | verify (now : Int64) (token : BlockToken)
  | verifyingKey
  | verifier

inductive Reply (S : SignatureScheme) where
  | started
  | minted (token : BlockToken)
  | judged (id : TokenIdentifier)
  | verifyingKey (key : S.VerifyingKey)
  | verifier (verifier : TokenVerifier S)

/-- The reply of an authority, and the authority after it. -/
def reply (authority : TokenAuthority S) : Ask S → Except TokenError (Reply S) × TokenAuthority S
  | .start key =>
    match authority.start key with
    | .ok started => (.ok .started, started)
    | .error e => (.error e, authority)
  | .mint now owner block maxLength =>
    ((authority.mint now owner block maxLength).map .minted, authority)
  | .verify now token => ((authority.verify now token).map .judged, authority)
  | .verifyingKey => (authority.verifyingKey.map .verifyingKey, authority)
  | .verifier => (authority.verifier.map .verifier, authority)

def after (authority : TokenAuthority S) (asks : List (Ask S)) : TokenAuthority S :=
  asks.foldl (fun authority ask => (authority.reply ask).2) authority

def Ask.key? : Ask S → Option S.SigningKey
  | start key => some key
  | _ => none

def Ask.firstKey? (asks : List (Ask S)) : Option S.SigningKey := asks.findSome? key?

variable {authority : TokenAuthority S} {key : S.SigningKey} {asks : List (Ask S)}

/-! ## 1. Single asks -/

theorem start_of_started (h : authority.signingKey = some key) (key' : S.SigningKey) :
    authority.reply (.start key') = (.error .alreadyStarted, authority) := by
  unfold reply start
  rw [h]

theorem reply_of_not_started (h : authority.signingKey = none) {ask : Ask S}
    (hask : ask.key? = none) : authority.reply ask = (.error .notInitialized, authority) := by
  have hkey : authority.key = .error .notInitialized := by
    unfold TokenAuthority.key
    rw [h]
  cases ask with
  | start key => cases hask
  | mint now owner block maxLength =>
    unfold reply mint
    rw [hkey]
    rfl
  | verify now token =>
    unfold reply verify verifyingKey
    rw [hkey]
    rfl
  | verifyingKey =>
    unfold reply verifyingKey
    rw [hkey]
    rfl
  | verifier =>
    unfold reply verifier verifyingKey
    rw [hkey]
    rfl

/-- An authority keeps the key that it has, and takes the key of a start if it has none. -/
theorem reply_signingKey (authority : TokenAuthority S) (ask : Ask S) :
    (authority.reply ask).2 =
      { authority with signingKey := authority.signingKey <|> ask.key? } := by
  cases hkey : authority.signingKey with
  | some key =>
    have hself : authority = ⟨authority.lifetime, some key⟩ := by rw [← hkey]
    cases ask with
    | start key' =>
      rw [start_of_started hkey]
      exact hself
    | _ => exact hself
  | none =>
    have hself : authority = ⟨authority.lifetime, none⟩ := by rw [← hkey]
    cases ask with
    | start key' =>
      unfold reply start
      rw [hkey]
      rfl
    | _ => exact hself

/-! ## 2. Sequences of asks -/

/-- Whatever is asked, an authority has the key that it had, else that of the first start. -/
theorem after_eq (authority : TokenAuthority S) (asks : List (Ask S)) :
    authority.after asks =
      { authority with signingKey := authority.signingKey <|> Ask.firstKey? asks } := by
  induction asks generalizing authority with
  | nil =>
    show authority = { authority with signingKey := authority.signingKey <|> none }
    rw [Option.orElse_eq_orElse, Option.orElse_eq_or, Option.or_none]
  | cons ask asks ih =>
    have hfirst : Ask.firstKey? (ask :: asks) = (ask.key? <|> Ask.firstKey? asks) := by
      unfold Ask.firstKey?
      rw [List.findSome?_cons]
      cases ask.key? <;> rfl
    show (authority.reply ask).2.after asks = _
    rw [ih, reply_signingKey, hfirst]
    cases authority.signingKey <;> rfl

theorem Ask.firstKey?_eq_none (h : ∀ key, .start key ∉ asks) : firstKey? asks = none := by
  unfold firstKey?
  rw [List.findSome?_eq_none_iff]
  intro ask hask
  cases ask with
  | start key => exact absurd hask (h key)
  | _ => rfl

theorem Ask.exists_firstKey? (h : .start key ∈ asks) : ∃ first, firstKey? asks = some first := by
  apply Option.ne_none_iff_exists'.1
  intro hnone
  cases List.findSome?_eq_none_iff.1 hnone _ h

/-- The first start of a run is the first of every longer run. -/
theorem Ask.firstKey?_of_take {n : Nat} (h : firstKey? (asks.take n) = some key) :
    firstKey? asks = some key := by
  unfold firstKey? at h ⊢
  rw [← List.take_append_drop n asks, List.findSome?_append, h]
  rfl

/-- From the first start on, an authority is what this start has made of it. -/
theorem after_take_of_start {lifetime : Int64} {n : Nat} {first : S.SigningKey}
    (hkey : Ask.firstKey? asks = some key) (hstart : .start first ∈ asks.take n) :
    after { lifetime } (asks.take n) = { lifetime, signingKey := some key } := by
  have ⟨found, hfound⟩ := Ask.exists_firstKey? hstart
  have heq : some found = some key := (Ask.firstKey?_of_take hfound).symm.trans hkey
  rw [after_eq, hfound, heq]
  rfl

/-- An authority without a key at first hands out verifiers for the key of the first start. -/
theorem verifier_after_take {lifetime : Int64} {n : Nat} {verifier : TokenVerifier S}
    (hkey : Ask.firstKey? asks = some key)
    (h : (reply (after { lifetime } (asks.take n)) .verifier).1 = .ok (.verifier verifier)) :
    verifier = ⟨S.verifyingKey key⟩ := by
  cases hfirst : Ask.firstKey? (asks.take n) with
  | none =>
    rw [reply_of_not_started (by rw [after_eq, hfirst]; rfl) rfl] at h
    cases h
  | some first =>
    rw [Ask.firstKey?_of_take hfirst] at hkey
    cases hkey
    rw [after_eq, hfirst] at h
    cases h
    rfl

/-- Whoever judges a token in a run judges it by the same claims. -/
structure JudgesAlike (lifetime : Int64) (asks : List (Ask S)) (token : BlockToken)
    (id : TokenIdentifier) : Prop where
  claims : token.decodeIdentifier = .ok id
  /-- At any moment after the first start, by the authority itself. -/
  authority : ∀ n first, .start first ∈ asks.take n → ∀ time,
    (after (S := S) { lifetime } (asks.take n)).verify time token = id.answerAt time
  /-- By every verifier that is handed out at any moment. -/
  verifiers : ∀ n verifier,
    (reply (after { lifetime } (asks.take n)) .verifier).1 = .ok (.verifier verifier) → ∀ time,
      verifier.verify time token = id.answerAt time

theorem judgesAlike_of_issue {lifetime : Int64} {id : TokenIdentifier}
    (hkey : Ask.firstKey? asks = some key) (hown : S.AcceptsOwn key) (hfits : id.Fits)
    (hkind : id.kind = TokenIdentifier.blockTokenKind) :
    JudgesAlike lifetime asks (issue S key id) id where
  claims := BlockToken.decodeIdentifier_eq_ok_iff.2 (issue_claims hfits)
  authority n first hstart time := by
    rw [after_take_of_start hkey hstart, verify_of_started rfl]
    exact verifyToken_issue hfits hkind (hown _) time
  verifiers n verifier hverifier time := by
    rw [verifier_after_take hkey hverifier]
    exact verifyToken_issue hfits hkind (hown _) time

/-- An authority that is created without a key is asked anything, in any order and at any readings of
its clock.  Before the first start all else is refused for want of a key; the first start succeeds,
and later ones are refused and change nothing.  From then on the authority tells its public key,
mints, and hands out verifiers, under the key of the first start.  Every token that it mints, the
authority itself and all verifiers of the run judge alike: they accept its claims until it expires,
and then say that it has expired. -/
theorem asks_oneIdentity (lifetime : Int64) (asks : List (Ask S))
    (hown : ∀ key, Ask.firstKey? asks = some key → S.AcceptsOwn key) :
    let authority := fun n => ({ lifetime } : TokenAuthority S).after (asks.take n)
    (∀ n, (∀ key, .start key ∉ asks.take n) →
      (∀ key, (authority n).reply (.start key) =
        (.ok .started, { lifetime, signingKey := some key })) ∧
      ∀ ask, (∀ key, ask ≠ .start key) →
        (authority n).reply ask = (.error .notInitialized, { lifetime })) ∧
    ∀ n first, .start first ∈ asks.take n → ∃ key, Ask.firstKey? asks = some key ∧
      authority n = { lifetime, signingKey := some key } ∧
      (∀ key', (authority n).reply (.start key') = (.error .alreadyStarted, authority n)) ∧
      ((authority n).reply .verifyingKey).1 = .ok (.verifyingKey (S.verifyingKey key)) ∧
      ((authority n).reply .verifier).1 = .ok (.verifier ⟨S.verifyingKey key⟩) ∧
      ∀ now owner block maxLength, ∃ token,
        ((authority n).reply (.mint now owner block maxLength)).1 = .ok (.minted token) ∧
        ((Bytes.ofText owner).length < 2 ^ 32 → JudgesAlike lifetime asks token
          ((authority n).claims now owner block maxLength)) := by
  intro authority
  constructor
  · intro n hnone
    have hfresh : authority n = { lifetime } := by
      show after _ (asks.take n) = _
      rw [after_eq, Ask.firstKey?_eq_none hnone]
      rfl
    constructor
    · intro key
      rw [hfresh]
      rfl
    · intro ask hask
      rw [hfresh]
      apply reply_of_not_started rfl
      cases ask with
      | start key => exact absurd rfl (hask key)
      | _ => rfl
  · intro n first hstart
    have ⟨key, hkey⟩ : ∃ key, Ask.firstKey? asks = some key :=
      Ask.exists_firstKey? (List.mem_of_mem_take hstart)
    have hstate : authority n = { lifetime, signingKey := some key } :=
      after_take_of_start hkey hstart
    refine ⟨key, hkey, hstate, ?_⟩
    rw [hstate]
    refine ⟨start_of_started rfl, rfl, rfl, fun now owner block maxLength => ⟨_, rfl, ?_⟩⟩
    intro howner
    exact judgesAlike_of_issue hkey (hown key hkey) (claims_fits howner) rfl

/-- A second start with another key is refused, and a token that is minted after it is judged under
the first key: by the authority, by the verifier that was handed out before the second start, and by
the one after the minting. -/
theorem asks_oneIdentity_restarted :
    let asks : List (Ask checksumScheme) := [.verifier, .start [1], .verifier, .start [2],
      .mint 100 "alice" ⟨1, 2⟩ 512, .verifier]
    let authority := fun n => ({ lifetime := 60 } : TokenAuthority checksumScheme).after (asks.take n)
    Ask.firstKey? asks = some [1] ∧ checksumScheme.AcceptsOwn [1] ∧
      ((authority 0).reply .verifier).1 = .error .notInitialized ∧
      ((authority 3).reply (.start [2])).1 = .error .alreadyStarted ∧
      ∃ token, ((authority 4).reply (.mint 100 "alice" ⟨1, 2⟩ 512)).1 = .ok (.minted token) ∧
        (authority 6).verify 159 token = .ok ((authority 4).claims 100 "alice" ⟨1, 2⟩ 512) ∧
        (authority 6).verify 160 token = .error (.expired 160 160) ∧
        ∀ n ∈ [2, 5], ∃ verifier, ((authority n).reply .verifier).1 = .ok (.verifier verifier) ∧
          verifier.verify 159 token = .ok ((authority 4).claims 100 "alice" ⟨1, 2⟩ 512) ∧
          verifier.verify 160 token = .error (.expired 160 160) := by
  intro asks authority
  have hfirst : Ask.firstKey? asks = some [1] := rfl
  have hown := checksumScheme_acceptsOwn
  have ⟨hbefore, hafter⟩ := asks_oneIdentity 60 asks fun key _ => hown key
  have ⟨_, _, _, hagain, _⟩ := hafter 3 [1] (by simp [asks])
  have ⟨_, _, _, _, _, _, hmint⟩ := hafter 4 [1] (by simp [asks])
  have ⟨token, hreply, hjudged⟩ := hmint 100 "alice" ⟨1, 2⟩ 512
  have hjudges := hjudged (by decide)
  have hrefused := (hbefore 0 (by simp)).2 .verifier fun _ h => nomatch h
  refine ⟨hfirst, hown [1], congrArg Prod.fst hrefused,
    congrArg Prod.fst (hagain [2]), token, hreply,
    hjudges.authority 6 [1] (by simp [asks]) 159, hjudges.authority 6 [1] (by simp [asks]) 160, ?_⟩
  intro n hn
  have hstart : .start [1] ∈ asks.take n := by
    simp at hn
    rcases hn with rfl | rfl <;> simp [asks]
  have ⟨_, _, _, _, _, hverifier, _⟩ := hafter n [1] hstart
  exact ⟨_, hverifier, hjudges.verifiers n _ hverifier 159, hjudges.verifiers n _ hverifier 160⟩

end TokenAuthority

end ObjectMeta
