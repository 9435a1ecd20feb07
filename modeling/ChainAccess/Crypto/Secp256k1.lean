import ChainAccess.Chain.Address
import ChainAccess.Crypto.Sha256
-- Keys and signatures on the curve y^2 = x^3 + 7. Signing draws its secret
-- number from the key and the hash, so that the same transaction always has
-- the same signature; of the two signatures with the same number the one with
-- the smaller half is taken.

namespace ChainAccess.Secp256k1

/-- The order of the field. -/
def p : Nat := 0xfffffffffffffffffffffffffffffffffffffffffffffffffffffffefffffc2f

/-- The order of the group. -/
def n : Nat := 0xfffffffffffffffffffffffffffffffebaaedce6af48a03bbfd25e8cd0364141

/-- A power modulo `m` by repeated squaring, `bits` bits of the exponent. -/
def powMod (m : Nat) : Nat → Nat → Nat → Nat
  | 0, _, _ => 1
  | bits + 1, b, e =>
    let rest := powMod m bits (b * b % m) (e / 2)
    if e % 2 = 1 then b * rest % m else rest

/-- The inverse modulo a prime. -/
def inverse (m a : Nat) : Nat := powMod m 256 (a % m) (m - 2)

/-! ## Points -/

/-- A point as three coordinates, the affine ones being `x / z^2` and
`y / z^3`; it lies at infinity when the third is zero. -/
structure Point where
  x : Nat
  y : Nat
  z : Nat

/-- The point at infinity. -/
def Point.zero : Point := ⟨1, 1, 0⟩

/-- The generator of the group. -/
def Point.generator : Point :=
  ⟨0x79be667ef9dcbbac55a06295ce870b07029bfcdb2dce28d959f2815b16f81798,
   0x483ada7726a3c4655da4fbfc0e1108a8fd17b448a68554199c47d08ffb10d4b8, 1⟩

/-- The difference in the field. -/
def sub (a b : Nat) : Nat := (a + p - b % p) % p

/-- Twice a point. -/
def Point.double (a : Point) : Point :=
  if a.z = 0 || a.y = 0 then .zero
  else
    let yy := a.y * a.y % p
    let s := 4 * a.x * yy % p
    let m := 3 * a.x * a.x % p
    let x := sub (m * m % p) (2 * s)
    let y := sub (m * sub s x % p) (8 * yy * yy % p)
    ⟨x, y, 2 * a.y * a.z % p⟩

/-- The sum of two points. -/
def Point.add (a b : Point) : Point :=
  if a.z = 0 then b
  else if b.z = 0 then a
  else
    let za := a.z * a.z % p
    let zb := b.z * b.z % p
    let ua := a.x * zb % p
    let ub := b.x * za % p
    let sa := a.y * zb % p * b.z % p
    let sb := b.y * za % p * a.z % p
    if ua = ub then (if sa = sb then a.double else .zero)
    else
      let h := sub ub ua
      let r := sub sb sa
      let hh := h * h % p
      let hhh := h * hh % p
      let v := ua * hh % p
      let x := sub (sub (r * r % p) hhh) (2 * v)
      let y := sub (r * sub v x % p) (sa * hhh % p)
      ⟨x, y, h * a.z % p * b.z % p⟩

/-- A multiple of a point, `bits` bits of the factor. -/
def Point.times : Nat → Nat → Point → Point
  | 0, _, _ => .zero
  | bits + 1, k, a =>
    let rest := Point.times bits (k / 2) a.double
    if k % 2 = 1 then rest.add a else rest

/-- The affine coordinates of a point. -/
def Point.affine (a : Point) : Nat × Nat :=
  let i := inverse p a.z
  let ii := i * i % p
  (a.x * ii % p, a.y * ii % p * i % p)

/-! ## Keys -/

/-- A private key. -/
structure PrivateKey where
  value : Nat
  pos : 0 < value
  lt_order : value < n

instance : Inhabited PrivateKey := ⟨⟨1, by decide, by decide⟩⟩

/-- The private key of a number. -/
def PrivateKey.ofNat? (v : Nat) : Option PrivateKey :=
  if h : 0 < v ∧ v < n then some ⟨v, h.1, h.2⟩ else none

/-- The private key of its bytes: 32, or down to 24 with zeros left out. -/
def PrivateKey.ofBytes? (bs : Bytes) : Option PrivateKey :=
  if 24 ≤ bs.length && bs.length ≤ 32 then ofNat? bs.toNat else none

/-- The bytes of a private key. -/
def PrivateKey.toBytes (k : PrivateKey) : Bytes := Bytes.ofNat 32 k.value

/-- The address of a private key: the end of the hash of its public key. -/
def PrivateKey.address (k : PrivateKey) : Address :=
  let (x, y) := (Point.times 256 k.value .generator).affine
  ⟨BitVec.ofNat 160 (keccak256 (Bytes.ofNat 32 x ++ Bytes.ofNat 32 y)).toNat⟩

/-! ## Signatures -/

/-- A signature, with whether the point it was made from has an odd ordinate. -/
structure Signature where
  r : Nat
  s : Nat
  odd : Bool
  deriving DecidableEq, Repr

/-- The signature of a number under a key with the secret number `k`. -/
def signWith (key : PrivateKey) (z k : Nat) : Option Signature :=
  let (x, y) := (Point.times 256 k .generator).affine
  let r := x % n
  let s := inverse n k * (z + r * key.value % n) % n
  if r = 0 || s = 0 then none
  else
    let odd := y % 2 = 1
    if n / 2 < s then some ⟨r, n - s, !odd⟩ else some ⟨r, s, odd⟩

/-- Draws secret numbers until one serves, `tries` at most. -/
def draw (key : PrivateKey) (z : Nat) : Nat → Bytes → Bytes → Option Signature
  | 0, _, _ => none
  | tries + 1, k, v =>
    let v := hmacSha256 k v
    let secret := v.toNat
    let found := if 0 < secret && secret < n then signWith key z secret else none
    match found with
    | some s => some s
    | none =>
      let k := hmacSha256 k (v ++ [0])
      draw key z tries k (hmacSha256 k v)

/-- The signature of a hash. -/
def PrivateKey.sign (key : PrivateKey) (hash : Hash) : Option Signature :=
  let z := hash.value.toNat % n
  let seed := key.toBytes ++ Bytes.ofNat 32 z
  let v0 := List.replicate 32 (1 : UInt8)
  let k1 := hmacSha256 (List.replicate 32 0) (v0 ++ [0] ++ seed)
  let v1 := hmacSha256 k1 v0
  let k2 := hmacSha256 k1 (v1 ++ [1] ++ seed)
  draw key z 64 k2 (hmacSha256 k2 v1)

end ChainAccess.Secp256k1
