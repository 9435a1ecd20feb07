import ChainAccess.Crypto.Sha256
-- Keys from passwords: repeated hashing (PBKDF2), and hashing that needs much
-- memory (scrypt).

namespace ChainAccess

namespace Pbkdf2

/-- The bytewise sum without carry. -/
def mix (a b : Bytes) : Bytes := List.zipWith (· ^^^ ·) a b

/-- Hashes again and again and mixes all hashes. -/
def iterate (k : Hmac.Key) : Nat → Bytes → Bytes → Bytes
  | 0, _, acc => acc
  | n + 1, u, acc =>
    let u := k.sign u
    iterate k n u (mix acc u)

/-- The block with the number `i`, counted from one. -/
def block (k : Hmac.Key) (salt : Bytes) (rounds i : Nat) : Bytes :=
  let u := k.sign (salt ++ Bytes.ofNat 4 i)
  iterate k (rounds - 1) u u

end Pbkdf2

/-- A key of `size` bytes from a password, by repeated hashing. -/
def pbkdf2 (password salt : Bytes) (rounds size : Nat) : Bytes :=
  let k := Hmac.Key.ofBytes password
  ((List.range ((size + 31) / 32)).flatMap fun i => Pbkdf2.block k salt rounds (i + 1)).take size

namespace Scrypt

/-- A word of a block. -/
def word (ws : Array UInt32) (i : Nat) : UInt32 := ws.getD i 0

/-- Turns a word to the left. -/
def rotl (x : UInt32) (n : UInt32) : UInt32 := (x <<< n) ||| (x >>> (32 - n))

/-- One quarter of a round: every word takes in the two before it. -/
def quarter (x : Array UInt32) (a b c d : Nat) : Array UInt32 :=
  let x := x.setIfInBounds b (word x b ^^^ rotl (word x a + word x d) 7)
  let x := x.setIfInBounds c (word x c ^^^ rotl (word x b + word x a) 9)
  let x := x.setIfInBounds d (word x d ^^^ rotl (word x c + word x b) 13)
  x.setIfInBounds a (word x a ^^^ rotl (word x d + word x c) 18)

/-- Columns and rows of a block of sixteen words. -/
def doubleRound (x : Array UInt32) : Array UInt32 :=
  let x := quarter x 0 4 8 12
  let x := quarter x 5 9 13 1
  let x := quarter x 10 14 2 6
  let x := quarter x 15 3 7 11
  let x := quarter x 0 1 2 3
  let x := quarter x 5 6 7 4
  let x := quarter x 10 11 8 9
  quarter x 15 12 13 14

/-- Stirs a block of sixteen words. -/
def salsa (x : Array UInt32) : Array UInt32 :=
  let y := doubleRound (doubleRound (doubleRound (doubleRound x)))
  Array.zipWith (· + ·) x y

/-- The wordwise sum without carry. -/
def mix (a b : Array UInt32) : Array UInt32 := Array.zipWith (· ^^^ ·) a b

/-- Stirs `2 * r` blocks one into another; the even ones come first. -/
def blockMix (r : Nat) (b : Array UInt32) : Array UInt32 :=
  let part (i : Nat) : Array UInt32 := b.extract (16 * i) (16 * i + 16)
  let (_, even, odd) := (List.range (2 * r)).foldl (fun (x, even, odd) i =>
    let x := salsa (mix x (part i))
    if i % 2 = 0 then (x, even ++ x, odd) else (x, even, odd ++ x))
    (part (2 * r - 1), #[], #[])
  even ++ odd

/-- Fills the memory: every state on the way. -/
def fill (r : Nat) :
    Nat → Array UInt32 → Array (Array UInt32) → Array UInt32 × Array (Array UInt32)
  | 0, x, v => (x, v)
  | n + 1, x, v => fill r n (blockMix r x) (v.push x)

/-- Goes through the memory where the state points. -/
def revisit (r size : Nat) (v : Array (Array UInt32)) : Nat → Array UInt32 → Array UInt32
  | 0, x => x
  | n + 1, x =>
    let last := 16 * (2 * r - 1)
    let j := (word x last).toNat + UInt32.size * (word x (last + 1)).toNat
    revisit r size v n (blockMix r (mix x (v.getD (j % size) #[])))

/-- Four bytes as a word, least significant first. -/
def wordOf (bs : Bytes) : UInt32 := bs.foldr (fun b n => (n <<< 8) ||| b.toUInt32) 0

/-- The words of a text of bytes. -/
def wordsOf : Nat → Bytes → List UInt32
  | 0, _ => []
  | n + 1, bs => wordOf (bs.take 4) :: wordsOf n (bs.drop 4)

/-- The bytes of a word, least significant first. -/
def wordBytes (w : UInt32) : Bytes :=
  [w.toUInt8, (w >>> 8).toUInt8, (w >>> 16).toUInt8, (w >>> 24).toUInt8]

/-- Stirs a part of `128 * r` bytes through a memory of `size` such parts. -/
def stir (r size : Nat) (part : Bytes) : Bytes :=
  let (x, v) := fill r size (wordsOf (32 * r) part).toArray (Array.mkEmpty size)
  (revisit r size v size x).toList.flatMap wordBytes

/-- Stirs `p` parts. -/
def stirAll (r size : Nat) : Nat → Bytes → Bytes
  | 0, _ => []
  | p + 1, bs => stir r size (bs.take (128 * r)) ++ stirAll r size p (bs.drop (128 * r))

end Scrypt

/-- A key of `size` bytes from a password, by hashing through a memory of `n`
parts of `128 * r` bytes, `p` times. -/
def scrypt (password salt : Bytes) (n r p size : Nat) : Bytes :=
  let b := pbkdf2 password salt 1 (128 * r * p)
  pbkdf2 password (Scrypt.stirAll r n p b) 1 size

end ChainAccess
