import ObjectMeta.Crypto.Sha512
import ObjectMeta.Crypto.Signature

/-!
# Ed25519

Signatures over the twisted Edwards curve `-x² + y² = 1 + d x² y²` modulo `2 ^ 255 - 19`.  Numbers
are natural numbers reduced after every product, points are kept in extended coordinates, and a
point is written as the 32 little-endian bytes of `y` with the parity of `x` in the top bit.

Checking a signature recomputes its first half from the second half, the message and the public
key and compares bytes; the second half must be below the group order.  Public keys are kept as
they were given: an unreduced `y` and points of small order are taken.
-/

namespace ObjectMeta

namespace Ed25519

/-! ## 1. The field -/

def p : Nat := (1 <<< 255) - 19

def order : Nat := (1 <<< 252) + 27742317777372353535851937790883648493

/-- The bits of a number, most significant of the lowest `width` first. -/
def bitsFrom (width n : Nat) : List Bool := (List.range width).reverse.map n.testBit

def mul (a b : Nat) : Nat := a * b % p

/-- `a - b` in the field, for `b` below `p`. -/
def sub (a b : Nat) : Nat := (a + p - b) % p

def add (a b : Nat) : Nat := (a + b) % p

/-- `a ^ e` in the field, for `e` below `2 ^ 255`. -/
def pow (a e : Nat) : Nat :=
  (bitsFrom 255 e).foldl (fun acc bit => if bit then mul (mul acc acc) a else mul acc acc) 1

/-- The inverse in the field; that of zero is zero. -/
def inverse (a : Nat) : Nat := pow a (p - 2)

def d : Nat := 37095705934669439343138083508754565189542113879843219016388785533085940283555

def rootOfMinusOne : Nat :=
  19681161376707505956807079304988542015446066515923890162744021073123829784752

/-- The even square root of `u / v`, if there is one. -/
def squareRootOfRatio (u v : Nat) : Option Nat :=
  let v3 := mul (mul v v) v
  let v7 := mul (mul v3 v3) v
  let r := mul (mul u v3) (pow (mul u v7) ((p - 5) / 8))
  let check := mul v (mul r r)
  let root? :=
    if check = u then some r
    else if check = sub 0 u then some (mul r rootOfMinusOne)
    else none
  root?.map fun root => if root % 2 = 0 then root else sub 0 root

/-! ## 2. Points -/

/-- A point in extended coordinates: `x = X / Z`, `y = Y / Z`, `x y = T / Z`. -/
structure Point where
  X : Nat
  Y : Nat
  Z : Nat
  T : Nat
  deriving DecidableEq, Repr

namespace Point

def zero : Point := ⟨0, 1, 1, 0⟩

def ofAffine (x y : Nat) : Point := ⟨x, y, 1, mul x y⟩

/-- The sum of two points, by the formulas that hold for any two. -/
def add (P Q : Point) : Point :=
  let a := mul (sub P.Y P.X) (sub Q.Y Q.X)
  let b := mul (Ed25519.add P.Y P.X) (Ed25519.add Q.Y Q.X)
  let c := mul (mul P.T (2 * d)) Q.T
  let e := mul (2 * P.Z) Q.Z
  let f := sub b a
  let g := sub e c
  let h := Ed25519.add e c
  let i := Ed25519.add b a
  ⟨mul f g, mul h i, mul g h, mul f i⟩

def neg (P : Point) : Point := ⟨sub 0 P.X, P.Y, P.Z, sub 0 P.T⟩

/-- A multiple of a point, by a number below `2 ^ 256`. -/
def scale (n : Nat) (P : Point) : Point :=
  (bitsFrom 256 n).foldl (fun acc bit => if bit then (acc.add acc).add P else acc.add acc) zero

def encode (P : Point) : Bytes :=
  let z := inverse P.Z
  let x := mul P.X z
  let y := mul P.Y z
  Bytes.leBytes 32 (y + (x % 2) <<< 255)

/-- The point that 32 bytes stand for: `y` is reduced, and `x` is the root of the parity given,
where zero counts as both. -/
def decode (b : Bytes) : Option Point :=
  let n := Bytes.leNat b
  let y := n % (1 <<< 255) % p
  let yy := mul y y
  (squareRootOfRatio (sub yy 1) (Ed25519.add (mul d yy) 1)).map fun x =>
    ofAffine (if n.testBit 255 then sub 0 x else x) y

def base : Point :=
  ofAffine 15112221349535400772501151409588531511454012693041857206046113283949847762202
    46316835694926478169428394003475163141307993866256225615783033603165251855960

end Point

/-! ## 3. Keys and signatures -/

def keyLength : Nat := 32

/-- A signing key is its seed. -/
structure Seed where
  bytes : Bytes
  length_bytes : bytes.length = keyLength
  deriving DecidableEq

def Seed.ofBytes? (b : Bytes) : Option Seed :=
  if h : b.length = keyLength then some ⟨b, h⟩ else none

/-- A public key: its bytes as given, and the point they stand for. -/
structure PublicKey where
  bytes : Bytes
  point : Point
  deriving DecidableEq

def PublicKey.ofBytes? (b : Bytes) : Option PublicKey :=
  if b.length = keyLength then (Point.decode b).map fun point => ⟨b, point⟩ else none

/-- The secret number of a seed: a multiple of eight with its highest bit at 254. -/
def Seed.scalar (seed : Seed) : Nat :=
  let n := Bytes.leNat ((Sha512.hash seed.bytes).take 32)
  n % (1 <<< 254) / 8 * 8 + (1 <<< 254)

/-- The second half of a seed's digest, which is mixed into the nonces. -/
def Seed.nonceKey (seed : Seed) : Bytes := (Sha512.hash seed.bytes).drop 32

def Seed.publicKey (seed : Seed) : PublicKey :=
  let point := Point.base.scale seed.scalar
  ⟨point.encode, point⟩

def scalarOfHash (b : Bytes) : Nat := Bytes.leNat (Sha512.hash b) % order

theorem Point.length_encode (P : Point) : P.encode.length = 32 := by
  simp [Point.encode]

def sign (seed : Seed) (message : Bytes) : Signature :=
  let nonce := scalarOfHash (seed.nonceKey ++ message)
  let first := (Point.base.scale nonce).encode
  let challenge := scalarOfHash (first ++ seed.publicKey.bytes ++ message)
  let second := (nonce + challenge * seed.scalar) % order
  { bytes := first ++ Bytes.leBytes 32 second
    length_bytes := by simp [first, Point.length_encode, signatureLength] }

def accepts (key : PublicKey) (message : Bytes) (signature : Signature) : Bool :=
  let first := signature.bytes.take 32
  let second := Bytes.leNat (signature.bytes.drop 32)
  let challenge := scalarOfHash (first ++ key.bytes ++ message)
  let expected := (key.point.neg.scale challenge).add (Point.base.scale second)
  second < order && expected.encode == first

end Ed25519

def ed25519 : SignatureScheme where
  SigningKey := Ed25519.Seed
  VerifyingKey := Ed25519.PublicKey
  verifyingKey := Ed25519.Seed.publicKey
  sign := Ed25519.sign
  accepts := Ed25519.accepts

end ObjectMeta
