import ObjectMeta.Proofs.Token.Verification

/-!
# Identifiers that are cut short or go on

The bytes of an identifier fall into parts, the format byte and seven fields.  Cut anywhere, they
are refused for the first part that they do not wholly hold (`TokenIdentifier.cutPart?`); with
anything behind them, for what comes after.  The reader is also compared with one that checks and
takes in two steps (`TokenIdentifier.decodeStepwise`): every check covers what is taken after it, so
no byte string makes it read bytes that are not there.
-/

namespace ObjectMeta

/-! ## 1. Checking and taking in two steps -/

namespace Reader

variable {ε α β : Type}

/-- Why a reader stops that takes bytes without looking how many are left. -/
inductive Stop (ε : Type) where
  /-- A reason that the reader gives itself. -/
  | fault (reason : ε)
  /-- Bytes were taken that are not there. -/
  | overrun

/-- Checks that `n` bytes are left and takes none of them. -/
def ensure (n : Nat) (short : ε) : Reader (Stop ε) Unit := fun b =>
  if b.length < n then .error (.fault short) else .ok ((), b)

/-- Takes `n` bytes, which have to be there. -/
def advance (n : Nat) : Reader (Stop ε) Bytes := fun b =>
  if b.length < n then .error .overrun else .ok (b.take n, b.drop n)

/-- A reader that is known to take only what is there, among those that are not. -/
def guarded (r : Reader ε α) : Reader (Stop ε) α := fun b => (r b).mapError .fault

theorem guarded_pure (a : α) : guarded (pure a : Reader ε α) = pure a := rfl

theorem guarded_bind (r : Reader ε α) (f : α → Reader ε β) :
    guarded (r >>= f) = guarded r >>= fun a => guarded (f a) := by
  funext b
  show ((r b).bind fun p => f p.1 p.2).mapError _ =
    ((r b).mapError _).bind fun p => (f p.1 p.2).mapError _
  cases r b <;> rfl

/-- A check covers the bytes that are taken right after it. -/
theorem ensure_advance (n : Nat) (short : ε) (f : Bytes → Reader (Stop ε) α) :
    (do ensure n short; let raw ← advance n; f raw) = guarded (take n short) >>= f := by
  funext b
  show (ensure n short b).bind (fun p => (advance n p.2).bind fun p => f p.1 p.2) =
    ((take n short b).mapError .fault).bind fun p => f p.1 p.2
  unfold ensure advance take
  by_cases hshort : b.length < n
  · simp only [if_pos hshort]
    rfl
  · simp only [if_neg hshort, Except.bind]
    rfl

end Reader

/-! ## 2. The reader in two steps -/

namespace TokenIdentifier

open Reader

def versionStepwise : Reader (Stop Fault) Unit := do
  ensure 1 (.truncated .formatVersion)
  let version ← advance 1
  if version ≠ [formatVersion] then Reader.fail (.fault (.unsupportedVersion (version.headD 0)))

def lengthStepwise (part : Field) : Reader (Stop Fault) Nat := do
  ensure 4 (.truncated part)
  return Bytes.beNat (← advance 4)

def textStepwise (part : Field) : Reader (Stop Fault) String := do
  let length ← lengthStepwise part
  ensure length (.truncated part)
  let raw ← advance length
  match Bytes.toText? raw with
  | some s => return s
  | none => Reader.fail (.fault (.notUtf8 part))

def intStepwise (part : Field) : Reader (Stop Fault) Int64 := do
  let length ← lengthStepwise part
  if length ≠ 8 then Reader.fail (.fault (.wrongLength part length))
  ensure 8 (.truncated part)
  return Bytes.signed (Bytes.beNat (← advance 8))

def readStepwise : Reader (Stop Fault) TokenIdentifier := do
  versionStepwise
  let kind ← textStepwise .kind
  let owner ← textStepwise .owner
  let container ← intStepwise .containerId
  let localId ← intStepwise .localId
  let issueTime ← intStepwise .issueTime
  let expiryTime ← intStepwise .expiryTime
  let maxLength ← intStepwise .maxLength
  return { kind, owner, block := ⟨container, localId⟩, issueTime, expiryTime, maxLength }

/-- The claims that these bytes are the layout of, with each check apart from what it is for. -/
def decodeStepwise (b : Bytes) : Except (Stop Fault) TokenIdentifier := do
  let (id, rest) ← readStepwise.run b
  if rest.isEmpty then return id else throw (.fault (.trailing rest.length))

theorem versionStepwise_eq : versionStepwise = guarded readVersion := by
  funext b
  cases b with
  | nil => rfl
  | cons version rest =>
    show (if [version] ≠ [formatVersion] then _ else _ : Reader (Stop Fault) Unit) rest = _
    by_cases hversion : version = formatVersion
    · subst hversion
      rfl
    · rw [if_pos fun h => hversion (List.cons.inj h).1]
      show _ = (if version = formatVersion then _ else _ : Except Fault (Unit × Bytes)).mapError _
      rw [if_neg hversion]
      rfl

theorem lengthStepwise_eq (part : Field) : lengthStepwise part = guarded (readLength part) := by
  unfold lengthStepwise readLength
  rw [guarded_bind, ensure_advance]
  rfl

theorem textStepwise_eq (part : Field) : textStepwise part = guarded (readText part) := by
  unfold textStepwise readText
  rw [guarded_bind, ← lengthStepwise_eq]
  congr 1
  funext length
  rw [guarded_bind, ensure_advance]
  congr 1
  funext raw
  cases Bytes.toText? raw <;> rfl

theorem intStepwise_eq (part : Field) : intStepwise part = guarded (readInt part) := by
  unfold intStepwise readInt
  rw [guarded_bind, ← lengthStepwise_eq]
  congr 1
  funext length
  by_cases hlength : length ≠ 8
  · simp only [if_pos hlength]
    rfl
  · simp only [if_neg hlength]
    rw [guarded_bind, ensure_advance]
    rfl

theorem readStepwise_eq : readStepwise = guarded read := by
  unfold readStepwise read
  simp only [guarded_bind, guarded_pure, versionStepwise_eq, textStepwise_eq, intStepwise_eq]

/-- Nothing is taken that is not there: reading in two steps gives what reading in one does. -/
theorem decodeStepwise_eq (b : Bytes) : decodeStepwise b = (decode b).mapError .fault := by
  have hread : readStepwise b = (read b).mapError .fault := congrFun readStepwise_eq b
  show (readStepwise b).bind _ = ((read b).bind _).mapError _
  rw [hread]
  cases read b with
  | error fault => rfl
  | ok found =>
    obtain ⟨id, rest⟩ := found
    cases rest <;> rfl

/-! ## 3. Parts -/

/-- The parts of the bytes of an identifier, the fields with their lengths. -/
def parts (id : TokenIdentifier) : List (Field × Bytes) :=
  [(.formatVersion, [formatVersion]), (.kind, textField id.kind), (.owner, textField id.owner),
    (.containerId, intField id.block.container), (.localId, intField id.block.localId),
    (.issueTime, intField id.issueTime), (.expiryTime, intField id.expiryTime),
    (.maxLength, intField id.maxLength)]

def joined (parts : List (Field × Bytes)) : Bytes := parts.flatMap (·.2)

/-- The first part that the first `n` bytes do not wholly hold. -/
def cutPart? : List (Field × Bytes) → Nat → Option Field
  | [], _ => none
  | (part, b) :: rest, n => if n < b.length then some part else cutPart? rest (n - b.length)

theorem joined_parts (id : TokenIdentifier) : joined id.parts = id.encode := by
  simp [joined, parts, encode]

theorem joined_append (ps qs : List (Field × Bytes)) :
    joined (ps ++ qs) = joined ps ++ joined qs :=
  List.flatMap_append

theorem length_joined_cons (p : Field × Bytes) (ps : List (Field × Bytes)) :
    (joined (p :: ps)).length = p.2.length + (joined ps).length :=
  List.length_append

theorem cutPart?_append (ps qs : List (Field × Bytes)) (n : Nat) : cutPart? (ps ++ qs) n =
    if n < (joined ps).length then cutPart? ps n else cutPart? qs (n - (joined ps).length) := by
  induction ps generalizing n with
  | nil => rfl
  | cons p ps ih =>
    rw [List.cons_append, cutPart?, cutPart?, ih, length_joined_cons, Nat.sub_add_eq]
    by_cases hfirst : n < p.2.length
    · rw [if_pos hfirst, if_pos (by omega), if_pos hfirst]
    · rw [if_neg hfirst, if_neg hfirst]
      by_cases hrest : n - p.2.length < (joined ps).length
      · rw [if_pos hrest, if_pos (by omega)]
      · rw [if_neg hrest, if_neg (by omega)]

/-- A cut within the bytes is in one of the parts. -/
theorem exists_cutPart? {ps : List (Field × Bytes)} {n : Nat} (h : n < (joined ps).length) :
    ∃ part, cutPart? ps n = some part := by
  induction ps generalizing n with
  | nil => exact absurd h (Nat.not_lt_zero n)
  | cons p ps ih =>
    rw [length_joined_cons] at h
    rw [cutPart?]
    by_cases hfirst : n < p.2.length
    · exact ⟨p.1, if_pos hfirst⟩
    · rw [if_neg hfirst]
      exact ih (by omega)

/-! ## 4. Reading parts -/

variable {α β : Type}

/-- The reader reads a value from its parts, and where they are cut, it names the part that is. -/
structure Spells (r : Reader Fault α) (a : α) (ps : List (Field × Bytes)) : Prop where
  whole : ∀ rest, r (joined ps ++ rest) = .ok (a, rest)
  cut : ∀ n part, cutPart? ps n = some part → r ((joined ps).take n) = .error (.truncated part)

theorem spells_pure (a : α) : Spells (pure a) a [] where
  whole _ := rfl
  cut _ _ h := nomatch h

theorem Spells.bind {r : Reader Fault α} {f : α → Reader Fault β} {a : α} {c : β}
    {ps qs : List (Field × Bytes)} (hr : Spells r a ps) (hf : Spells (f a) c qs) :
    Spells (r >>= f) c (ps ++ qs) where
  whole rest := by
    rw [run_bind, joined_append, List.append_assoc, hr.whole]
    exact hf.whole rest
  cut n part h := by
    rw [cutPart?_append] at h
    rw [run_bind, joined_append, List.take_append]
    by_cases hfirst : n < (joined ps).length
    · -- nothing is left for the second reader, but the first has failed already
      rw [if_pos hfirst] at h
      rw [Nat.sub_eq_zero_of_le (Nat.le_of_lt hfirst), List.take_zero, List.append_nil,
        hr.cut n part h]
      rfl
    · rw [if_neg hfirst] at h
      rw [List.take_of_length_le (Nat.le_of_not_lt hfirst), hr.whole]
      exact hf.cut _ part h

/-- Two parts of one name may be taken for one. -/
theorem Spells.merge {r : Reader Fault α} {a : α} {part : Field} {b b' : Bytes}
    (h : Spells r a [(part, b), (part, b')]) : Spells r a [(part, b ++ b')] := by
  have hjoined : joined [(part, b ++ b')] = joined [(part, b), (part, b')] := by
    simp [joined]
  refine ⟨fun rest => hjoined ▸ h.whole rest, fun n found hfound => ?_⟩
  rw [hjoined]
  apply h.cut
  rw [← hfound]
  simp only [cutPart?, List.length_append]
  by_cases hfirst : n < b.length
  · rw [if_pos hfirst, if_pos (by omega)]
  · rw [if_neg hfirst]
    by_cases hsecond : n - b.length < b'.length
    · rw [if_pos hsecond, if_pos (by omega)]
    · rw [if_neg hsecond, if_neg (by omega)]

theorem spells_take (part : Field) {b : Bytes} {n : Nat} (hlength : b.length = n) :
    Spells (Reader.take n (.truncated part)) b [(part, b)] where
  whole rest := by
    subst hlength
    simp [joined, Reader.take]
  cut m found h := by
    subst hlength
    rw [cutPart?] at h
    split at h
    · next hshort =>
      cases h
      have hcut : ((joined [(part, b)]).take m).length < b.length :=
        Nat.lt_of_le_of_lt (List.length_take_le m _) hshort
      exact if_pos hcut
    · cases h

theorem spells_readLength (part : Field) {length : Nat} (h : length < 2 ^ 32) :
    Spells (readLength part) length [(part, Bytes.beBytes 4 length)] := by
  have hvalue : Bytes.beNat (Bytes.beBytes 4 length) = length := by
    rw [Bytes.beNat_beBytes]
    exact Nat.mod_eq_of_lt h
  refine (spells_take part (Bytes.length_beBytes 4 length)).bind ?_
  rw [hvalue]
  exact spells_pure length

theorem spells_readText (part : Field) {s : String} (h : (Bytes.ofText s).length < 2 ^ 32) :
    Spells (readText part) s [(part, textField s)] := by
  refine Spells.merge ((spells_readLength part h).bind ((spells_take part rfl).bind ?_))
  rw [Bytes.toText?_ofText]
  exact spells_pure s

theorem spells_readInt (part : Field) (i : Int64) :
    Spells (readInt part) i [(part, intField i)] := by
  have hlength := Bytes.length_beBytes 8 (Bytes.bits i)
  have hvalue : Bytes.signed (Bytes.beNat (Bytes.beBytes 8 (Bytes.bits i))) = i := by
    rw [Bytes.beNat_beBytes, Nat.mod_eq_of_lt (Bytes.bits_lt i), Bytes.signed_bits]
  have hcontent : Spells (do return Bytes.signed (Bytes.beNat (← Reader.take 8 (.truncated part))))
      i [(part, Bytes.beBytes 8 (Bytes.bits i))] := by
    refine (spells_take part hlength).bind ?_
    rw [hvalue]
    exact spells_pure i
  unfold intField field
  rw [hlength]
  exact Spells.merge ((spells_readLength part (by decide)).bind hcontent)

theorem spells_readVersion : Spells readVersion () [(.formatVersion, [formatVersion])] where
  whole _ := rfl
  cut n part h := by
    rw [cutPart?] at h
    split at h
    · next hshort =>
      cases h
      rw [Nat.lt_one_iff.1 hshort]
      rfl
    · cases h

/-- The reader of identifiers spells an identifier out of its parts. -/
theorem spells_read {id : TokenIdentifier} (h : id.Fits) : Spells read id id.parts :=
  spells_readVersion.bind ((spells_readText .kind h.1).bind ((spells_readText .owner h.2).bind
    ((spells_readInt .containerId _).bind ((spells_readInt .localId _).bind
      ((spells_readInt .issueTime _).bind ((spells_readInt .expiryTime _).bind
        ((spells_readInt .maxLength _).bind (spells_pure id))))))))

theorem decode_take_encode {id : TokenIdentifier} (h : id.Fits) {n : Nat} {part : Field}
    (hcut : cutPart? id.parts n = some part) :
    decode (id.encode.take n) = .error (.truncated part) := by
  have hread := (spells_read h).cut n part hcut
  rw [joined_parts] at hread
  unfold decode StateT.run
  rw [hread]
  rfl

theorem decode_encode_append {id : TokenIdentifier} (h : id.Fits) {s : Bytes} (hs : s ≠ []) :
    decode (id.encode ++ s) = .error (.trailing s.length) := by
  have hread := (spells_read h).whole s
  rw [joined_parts] at hread
  have hrest : s.isEmpty = false := List.isEmpty_eq_false_iff.2 hs
  unfold decode StateT.run
  rw [hread]
  show (if s.isEmpty then _ else _ : Except Fault TokenIdentifier) = _
  rw [hrest]
  rfl

/-! ## 5. Precise refusals -/

/-- Every byte string is decoded or refused as malformed, and no byte is taken that a check does not
cover.  The bytes of an identifier that are cut anywhere are refused for the first part that is not
wholly there, its length included; with any bytes behind them they are refused for these, with their
number. -/
theorem identifier_refused_precisely :
    (∀ token : BlockToken, (∃ id, token.decodeIdentifier = .ok id) ∨
      ∃ reason, token.decodeIdentifier = .error (.malformed reason)) ∧
    (∀ b, decodeStepwise b = (decode b).mapError .fault ∧ decodeStepwise b ≠ .error .overrun) ∧
    ∀ (id : TokenIdentifier) (signature : Bytes), id.Fits →
      joined id.parts = id.encode ∧
      id.parts.map (·.1.label) = ["format version", "kind", "owner", "container id", "local id",
        "issue time", "expiry time", "max length"] ∧
      (∀ n < id.encode.length, ∃ part, cutPart? id.parts n = some part ∧
        BlockToken.decodeIdentifier ⟨id.encode.take n, signature⟩ =
          .error (.malformed ("truncated " ++ part.label))) ∧
      ∀ s ≠ [], BlockToken.decodeIdentifier ⟨id.encode ++ s, signature⟩ =
        .error (.malformed (toString s.length ++ " trailing bytes after identifier")) := by
  refine ⟨fun token => ?_, fun b => ?_, fun id signature hfits => ⟨joined_parts id, rfl, ?_, ?_⟩⟩
  · unfold BlockToken.decodeIdentifier
    cases decode token.identifier with
    | ok id => exact .inl ⟨id, rfl⟩
    | error fault => exact .inr ⟨fault.message, rfl⟩
  · refine ⟨decodeStepwise_eq b, fun h => ?_⟩
    rw [decodeStepwise_eq] at h
    cases hdecode : decode b with
    | ok id => rw [hdecode] at h; cases h
    | error fault => rw [hdecode] at h; cases h
  · intro n hn
    rw [← joined_parts] at hn
    have ⟨part, hcut⟩ := exists_cutPart? hn
    refine ⟨part, hcut, ?_⟩
    unfold BlockToken.decodeIdentifier
    rw [decode_take_encode hfits hcut]
    rfl
  · intro s hs
    unfold BlockToken.decodeIdentifier
    rw [decode_encode_append hfits hs]
    rfl

/-- A small identifier of 71 bytes: cut in the length of its kind, between the fields of its kind
and its owner, and before its last byte; and with one byte more. -/
theorem identifier_refused_precisely_small :
    let id : TokenIdentifier := ⟨"K", "o", ⟨1, 2⟩, 3, 4, 5⟩
    id.Fits ∧ id.encode.length = 71 ∧
      BlockToken.decodeIdentifier ⟨id.encode.take 3, []⟩ = .error (.malformed "truncated kind") ∧
      BlockToken.decodeIdentifier ⟨id.encode.take 6, []⟩ = .error (.malformed "truncated owner") ∧
      BlockToken.decodeIdentifier ⟨id.encode.take 70, []⟩ =
        .error (.malformed "truncated max length") ∧
      BlockToken.decodeIdentifier ⟨id.encode ++ [0], []⟩ =
        .error (.malformed "1 trailing bytes after identifier") := by
  intro id
  have hfits : id.Fits := ⟨by decide, by decide⟩
  have hlength : id.encode.length = 71 := by decide
  have ⟨_, _, hcut, htrailing⟩ := identifier_refused_precisely.2.2 id [] hfits
  have ⟨_, hkind, hinKind⟩ := hcut 3 (by rw [hlength]; decide)
  have ⟨_, howner, hinOwner⟩ := hcut 6 (by rw [hlength]; decide)
  have ⟨_, hmax, hinMax⟩ := hcut 70 (by rw [hlength]; decide)
  cases hkind
  cases howner
  cases hmax
  exact ⟨hfits, hlength, hinKind, hinOwner, hinMax, htrailing [0] (by decide)⟩

end TokenIdentifier

end ObjectMeta
