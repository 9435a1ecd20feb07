import ChainAccess.Text.Hex
-- The hash SHA-256, and the keyed hash HMAC built on it.

namespace ChainAccess

namespace Sha256

/-- A word of the state or of the schedule. -/
def word (ws : Array UInt32) (i : Nat) : UInt32 := ws.getD i 0

/-- Turns a word to the right. -/
def rotr (x : UInt32) (n : UInt32) : UInt32 := (x >>> n) ||| (x <<< (32 - n))

/-- One constant for each of the sixty-four rounds. -/
def roundConstants : Array UInt32 :=
  #[0x428a2f98, 0x71374491, 0xb5c0fbcf, 0xe9b5dba5, 0x3956c25b, 0x59f111f1, 0x923f82a4, 0xab1c5ed5,
    0xd807aa98, 0x12835b01, 0x243185be, 0x550c7dc3, 0x72be5d74, 0x80deb1fe, 0x9bdc06a7, 0xc19bf174,
    0xe49b69c1, 0xefbe4786, 0x0fc19dc6, 0x240ca1cc, 0x2de92c6f, 0x4a7484aa, 0x5cb0a9dc, 0x76f988da,
    0x983e5152, 0xa831c66d, 0xb00327c8, 0xbf597fc7, 0xc6e00bf3, 0xd5a79147, 0x06ca6351, 0x14292967,
    0x27b70a85, 0x2e1b2138, 0x4d2c6dfc, 0x53380d13, 0x650a7354, 0x766a0abb, 0x81c2c92e, 0x92722c85,
    0xa2bfe8a1, 0xa81a664b, 0xc24b8b70, 0xc76c51a3, 0xd192e819, 0xd6990624, 0xf40e3585, 0x106aa070,
    0x19a4c116, 0x1e376c08, 0x2748774c, 0x34b0bcb5, 0x391c0cb3, 0x4ed8aa4a, 0x5b9cca4f, 0x682e6ff3,
    0x748f82ee, 0x78a5636f, 0x84c87814, 0x8cc70208, 0x90befffa, 0xa4506ceb, 0xbef9a3f7, 0xc67178f2]

/-- The state before the first block. -/
def initial : Array UInt32 :=
  #[0x6a09e667, 0xbb67ae85, 0x3c6ef372, 0xa54ff53a, 0x510e527f, 0x9b05688c, 0x1f83d9ab, 0x5be0cd19]

/-- Four bytes as a word, most significant first. -/
def wordOf (bs : Bytes) : UInt32 := bs.foldl (fun n b => (n <<< 8) ||| b.toUInt32) 0

/-- The words of a block. -/
def wordsOf : Nat → Bytes → List UInt32
  | 0, _ => []
  | n + 1, bs => wordOf (bs.take 4) :: wordsOf n (bs.drop 4)

/-- The sixty-four words that the rounds on a block use. -/
def schedule (block : Array UInt32) : Array UInt32 :=
  (List.range 48).foldl (fun w i =>
    let a := word w (i + 1)
    let b := word w (i + 14)
    let s0 := rotr a 7 ^^^ rotr a 18 ^^^ (a >>> 3)
    let s1 := rotr b 17 ^^^ rotr b 19 ^^^ (b >>> 10)
    w.push (word w i + s0 + word w (i + 9) + s1)) block

/-- The eight words that the rounds turn over. -/
structure Registers where
  a : UInt32
  b : UInt32
  c : UInt32
  d : UInt32
  e : UInt32
  f : UInt32
  g : UInt32
  h : UInt32

/-- One round with its constant and its word of the schedule. -/
def Registers.round (r : Registers) (k w : UInt32) : Registers :=
  let s1 := rotr r.e 6 ^^^ rotr r.e 11 ^^^ rotr r.e 25
  let ch := (r.e &&& r.f) ^^^ ((r.e ^^^ 0xffffffff) &&& r.g)
  let t1 := r.h + s1 + ch + k + w
  let s0 := rotr r.a 2 ^^^ rotr r.a 13 ^^^ rotr r.a 22
  let maj := (r.a &&& r.b) ^^^ (r.a &&& r.c) ^^^ (r.b &&& r.c)
  ⟨t1 + s0 + maj, r.a, r.b, r.c, r.d + t1, r.e, r.f, r.g⟩

/-- The state after a block. -/
def compress (s : Array UInt32) (block : Array UInt32) : Array UInt32 :=
  let w := schedule block
  let r : Registers :=
    ⟨word s 0, word s 1, word s 2, word s 3, word s 4, word s 5, word s 6, word s 7⟩
  let r := (List.range 64).foldl (fun r i => r.round (word roundConstants i) (word w i)) r
  #[word s 0 + r.a, word s 1 + r.b, word s 2 + r.c, word s 3 + r.d, word s 4 + r.e,
    word s 5 + r.f, word s 6 + r.g, word s 7 + r.h]

/-- The rest of a message with its end marked, `before` bytes standing in
earlier blocks. -/
def padded (before : Nat) (msg : Bytes) : Bytes :=
  let zeros := (119 - msg.length % 64) % 64
  msg ++ [0x80] ++ List.replicate zeros 0 ++ Bytes.ofNat 8 (8 * (before + msg.length))

/-- The state after `n` blocks. -/
def absorb : Nat → Array UInt32 → Bytes → Array UInt32
  | 0, s, _ => s
  | n + 1, s, bs => absorb n (compress s (wordsOf 16 (bs.take 64)).toArray) (bs.drop 64)

/-- The bytes of a word, most significant first. -/
def wordBytes (w : UInt32) : Bytes :=
  [(w >>> 24).toUInt8, (w >>> 16).toUInt8, (w >>> 8).toUInt8, w.toUInt8]

/-- The hash of a message whose first `before` bytes led to the state `s`. -/
def finish (s : Array UInt32) (before : Nat) (msg : Bytes) : Bytes :=
  let blocks := padded before msg
  (absorb (blocks.length / 64) s blocks).toList.flatMap wordBytes

end Sha256

/-- The SHA-256 hash of a message, 32 bytes. -/
def sha256 (msg : Bytes) : Bytes := Sha256.finish Sha256.initial 0 msg

namespace Hmac

/-- A key made ready: the states behind its two blocks. -/
structure Key where
  inner : Array UInt32
  outer : Array UInt32

/-- Makes a key ready; one longer than a block is hashed first. -/
def Key.ofBytes (key : Bytes) : Key :=
  let k := if 64 < key.length then sha256 key else key
  let k := k ++ List.replicate (64 - k.length) 0
  let state (mask : UInt8) : Array UInt32 := Sha256.absorb 1 Sha256.initial (k.map (· ^^^ mask))
  ⟨state 0x36, state 0x5c⟩

/-- The hash of a message under a key. -/
def Key.sign (k : Key) (msg : Bytes) : Bytes :=
  Sha256.finish k.outer 64 (Sha256.finish k.inner 64 msg)

end Hmac

/-- The hash of a message under a key. -/
def hmacSha256 (key msg : Bytes) : Bytes := (Hmac.Key.ofBytes key).sign msg

end ChainAccess
