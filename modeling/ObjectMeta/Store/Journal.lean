import ObjectMeta.Reader
import ObjectMeta.Store.Durable

/-!
# Journals as bytes

The file form of a journal: a signature and the changes one after the other.  Lengths are written in
base 128, so there is no longest key or value, and reading the bytes of a journal gives the journal
back (`decode_encode`).
-/

namespace ObjectMeta

namespace Journal

/-! ## 1. Lengths -/

/-- The digits of a number in base 128, least significant first; all but the last are raised by
128. -/
def encodeLength (n : Nat) : Bytes :=
  if n < 128 then [UInt8.ofNat n]
  else UInt8.ofNat (n % 128 + 128) :: encodeLength (n / 128)

def readLength : Reader Unit Nat
  | [] => .error ()
  | digit :: rest =>
    if digit.toNat < 128 then .ok (digit.toNat, rest)
    else (readLength rest).map fun (n, rest) => (digit.toNat - 128 + 128 * n, rest)

theorem readLength_encodeLength (n : Nat) (rest : Bytes) :
    readLength (encodeLength n ++ rest) = .ok (n, rest) := by
  fun_induction encodeLength n with
  | case1 n h =>
    have hn : (UInt8.ofNat n).toNat = n := by
      simp only [UInt8.toNat_ofNat']
      omega
    simp [readLength, hn, h]
  | case2 n h ih =>
    have hn : (UInt8.ofNat (n % 128 + 128)).toNat = n % 128 + 128 := by
      simp only [UInt8.toNat_ofNat']
      omega
    rw [List.cons_append, readLength, hn, if_neg (by omega), ih]
    simp only [Except.map, Except.ok.injEq, Prod.mk.injEq, and_true]
    omega

def encodeBytes (b : Bytes) : Bytes := encodeLength b.length ++ b

def readBytes : Reader Unit Bytes := do Reader.take (← readLength) ()

theorem readBytes_encodeBytes (b rest : Bytes) :
    readBytes (encodeBytes b ++ rest) = .ok (b, rest) := by
  have h := readLength_encodeLength b.length (b ++ rest)
  show (readLength (encodeBytes b ++ rest)).bind _ = _
  rw [encodeBytes, List.append_assoc, h]
  simp [Except.bind, Reader.take]

/-! ## 2. Changes -/

def tableByte (table : Table) : UInt8 := UInt8.ofNat table.rank

def tableOfByte (byte : UInt8) : Except Unit Table :=
  match Table.all[byte.toNat]? with
  | some table => .ok table
  | none => .error ()

theorem tableOfByte_tableByte (table : Table) : tableOfByte (tableByte table) = .ok table := by
  cases table <;> rfl

/-- A change as bytes: the table, a byte that tells the two changes apart, key and value. -/
def encodeChange : Transaction → Bytes
  | .put table key value => tableByte table :: 1 :: (encodeBytes key ++ encodeBytes value)
  | .delete table key => tableByte table :: 0 :: encodeBytes key

def readChange : Reader Unit Transaction
  | byte :: kind :: rest => do
    let table ← tableOfByte byte
    let (key, rest) ← readBytes rest
    if kind = 1 then
      let (value, rest) ← readBytes rest
      return (.put table key value, rest)
    else if kind = 0 then return (.delete table key, rest)
    else throw ()
  | _ => .error ()

theorem readChange_encodeChange (t : Transaction) (rest : Bytes) :
    readChange (encodeChange t ++ rest) = .ok (t, rest) := by
  cases t <;>
    simp [encodeChange, readChange, tableOfByte_tableByte, readBytes_encodeBytes, bind,
      Except.bind, pure, Except.pure]

/-! ## 3. Journals -/

/-- The first bytes of every journal.  No text has the first of them in UTF-8, so no text is a
journal. -/
def signature : Bytes := [0xff, 0x6a, 0x72, 0x6e]

def encodeChanges (journal : List Transaction) : Bytes := journal.flatMap encodeChange

def encode (journal : List Transaction) : Bytes := signature ++ encodeChanges journal

/-- Takes changes until the bytes end, at most `limit` of them. -/
def readAll : (limit : Nat) → Bytes → Option (List Transaction)
  | _, [] => some []
  | 0, _ :: _ => none
  | limit + 1, b@(_ :: _) =>
    match readChange b with
    | .ok (t, rest) => (readAll limit rest).map (t :: ·)
    | .error () => none

/-- The journal with these bytes; every change takes more than one. -/
def decode (b : Bytes) : Option (List Transaction) :=
  (signature.isPrefixOf? b).bind fun changes => readAll changes.length changes

theorem length_encodeChange_pos (t : Transaction) : 0 < (encodeChange t).length := by
  cases t <;> simp [encodeChange]

theorem length_le_length_encodeChanges (journal : List Transaction) :
    journal.length ≤ (encodeChanges journal).length := by
  induction journal with
  | nil => simp
  | cons t rest ih =>
    have h := length_encodeChange_pos t
    simp only [encodeChanges, List.flatMap_cons, List.length_cons, List.length_append] at ih ⊢
    omega

theorem readAll_encodeChanges (journal : List Transaction) (limit : Nat)
    (h : journal.length ≤ limit) : readAll limit (encodeChanges journal) = some journal := by
  induction journal generalizing limit with
  | nil => cases limit <;> rfl
  | cons t rest ih =>
    obtain _ | limit := limit
    · simp at h
    · have hread := readChange_encodeChange t (encodeChanges rest)
      have hpos := length_encodeChange_pos t
      have hcons : encodeChanges (t :: rest) = encodeChange t ++ encodeChanges rest := rfl
      cases hb : encodeChange t with
      | nil => simp [hb] at hpos
      | cons byte more =>
        rw [hb] at hread
        rw [hcons, hb, List.cons_append, readAll, ← List.cons_append, hread]
        simp [ih limit (by simpa using h)]

theorem decode_encode (journal : List Transaction) : decode (encode journal) = some journal :=
  readAll_encodeChanges journal _ (length_le_length_encodeChanges journal)

end Journal

end ObjectMeta
