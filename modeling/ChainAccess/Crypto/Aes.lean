import ChainAccess.Text.Hex
-- The cipher AES with keys of 128 bits, run as a stream: a counter is
-- encrypted block by block and mixed with the text, so that encrypting twice
-- gives the text back.

namespace ChainAccess.Aes

/-- Doubles an element of the field of 256. -/
def double (b : UInt8) : UInt8 := (b <<< 1) ^^^ (if b < 0x80 then 0 else 0x1b)

/-- Multiplies two elements of the field, `bits` bits of the second. -/
def times : Nat → UInt8 → UInt8 → UInt8
  | 0, _, _ => 0
  | bits + 1, a, b => (if b % 2 = 1 then a else 0) ^^^ times bits (double a) (b >>> 1)

/-- The inverse of an element, zero for zero: its power 254. -/
def inverse (a : UInt8) : UInt8 :=
  (List.range 254).foldl (fun acc _ => times 8 acc a) 1

/-- Turns a byte to the left. -/
def rotl (b : UInt8) (n : UInt8) : UInt8 := (b <<< n) ||| (b >>> (8 - n))

/-- The byte that stands for another in the substitution. -/
def substituted (b : UInt8) : UInt8 :=
  let i := if b = 0 then 0 else inverse b
  i ^^^ rotl i 1 ^^^ rotl i 2 ^^^ rotl i 3 ^^^ rotl i 4 ^^^ 0x63

/-- The substitution as a table. -/
def table : Array UInt8 := ((List.range 256).map fun n => substituted (UInt8.ofNat n)).toArray

/-- Looks a byte up in the substitution. -/
def substitute (t : Array UInt8) (b : UInt8) : UInt8 := t.getD b.toNat 0

/-- The bytewise sum without carry. -/
def mix (a b : Bytes) : Bytes := List.zipWith (· ^^^ ·) a b

/-- The next four words of the key, from the last four and the constant of the
round. -/
def nextKey (t : Array UInt8) (rc : UInt8) (k : Bytes) : Bytes :=
  let last := k.drop 12
  let turned := (last.drop 1 ++ last.take 1).map (substitute t)
  let w0 := mix (mix (k.take 4) turned) [rc, 0, 0, 0]
  let w1 := mix ((k.drop 4).take 4) w0
  let w2 := mix ((k.drop 8).take 4) w1
  w0 ++ w1 ++ w2 ++ mix last w2

/-- The keys of the rounds behind the first. -/
def roundKeys (t : Array UInt8) : Nat → UInt8 → Bytes → List Bytes
  | 0, _, _ => []
  | n + 1, rc, k =>
    let k := nextKey t rc k
    k :: roundKeys t n (double rc) k

/-- Moves row `i` of the square by `i` places. -/
def shiftRows (s : Bytes) : Bytes :=
  let a := s.toArray
  (List.range 16).map fun i => a.getD ((i + 4 * (i % 4)) % 16) 0

/-- Mixes the four bytes of a column. -/
def mixColumn : Bytes → Bytes
  | [a, b, c, d] =>
    [double a ^^^ double b ^^^ b ^^^ c ^^^ d, a ^^^ double b ^^^ double c ^^^ c ^^^ d,
     a ^^^ b ^^^ double c ^^^ double d ^^^ d, double a ^^^ a ^^^ b ^^^ c ^^^ double d]
  | s => s

/-- Mixes every column. -/
def mixColumns (s : Bytes) : Bytes :=
  (List.range 4).flatMap fun i => mixColumn ((s.drop (4 * i)).take 4)

/-- The rounds behind the first key; the last one mixes no columns. -/
def rounds (t : Array UInt8) : Bytes → List Bytes → Bytes
  | s, [] => s
  | s, [k] => mix (shiftRows (s.map (substitute t))) k
  | s, k :: rest => rounds t (mix (mixColumns (shiftRows (s.map (substitute t)))) k) rest

/-- Encrypts blocks of the counter and mixes them with the text. -/
def stream (t : Array UInt8) (key : Bytes) (keys : List Bytes) : Nat → Nat → Bytes → Bytes
  | 0, _, _ => []
  | n + 1, counter, text =>
    let block := rounds t (mix (Bytes.ofNat 16 counter) key) keys
    mix (text.take 16) block ++ stream t key keys n ((counter + 1) % Nat.pow 2 128) (text.drop 16)

/-- Encrypts or decrypts a text under a key and a first counter, 16 bytes each. -/
def ctr (key counter text : Bytes) : Bytes :=
  let t := table
  stream t key (roundKeys t 10 1 key) ((text.length + 15) / 16) counter.toNat text

end ChainAccess.Aes
