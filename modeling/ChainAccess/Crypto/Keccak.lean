import ChainAccess.Text.Hex
-- The Keccak hash of 256 bits. A sponge of twenty-five lanes of 64 bits
-- takes in blocks of 136 bytes; the first four lanes are the hash.

namespace ChainAccess.Keccak

/-- The lanes of the sponge, row by row. -/
abbrev Lanes := Array UInt64

/-- A lane, zero outside the sponge. -/
def lane (s : Lanes) (i : Nat) : UInt64 := s.getD i 0

/-- Turns a lane to the left. -/
def rotl (x : UInt64) (n : Nat) : UInt64 :=
  if n = 0 then x else (x <<< UInt64.ofNat n) ||| (x >>> UInt64.ofNat (64 - n))

/-- One constant for each of the twenty-four rounds. -/
def roundConstants : List UInt64 :=
  [0x0000000000000001, 0x0000000000008082, 0x800000000000808a, 0x8000000080008000,
   0x000000000000808b, 0x0000000080000001, 0x8000000080008081, 0x8000000000008009,
   0x000000000000008a, 0x0000000000000088, 0x0000000080008009, 0x000000008000000a,
   0x000000008000808b, 0x800000000000008b, 0x8000000000008089, 0x8000000000008003,
   0x8000000000008002, 0x8000000000000080, 0x000000000000800a, 0x800000008000000a,
   0x8000000080008081, 0x8000000000008080, 0x0000000080000001, 0x8000000080008008]

/-- The places that the lanes go to one after another, starting from the
second, and how far each is turned on the way. -/
def moves : List (Nat × Nat) :=
  [(10, 1), (7, 3), (11, 6), (17, 10), (18, 15), (3, 21), (5, 28), (16, 36),
   (8, 45), (21, 55), (24, 2), (4, 14), (15, 27), (23, 41), (19, 56), (13, 8),
   (12, 25), (2, 43), (20, 62), (14, 18), (22, 39), (9, 61), (6, 20), (1, 44)]

/-- Mixes every lane with the parities of the two columns beside it. -/
def theta (s : Lanes) : Lanes :=
  let parity (x : Nat) : UInt64 :=
    lane s x ^^^ lane s (x + 5) ^^^ lane s (x + 10) ^^^ lane s (x + 15) ^^^ lane s (x + 20)
  let c := #[parity 0, parity 1, parity 2, parity 3, parity 4]
  s.mapIdx fun i v =>
    let x := i % 5
    v ^^^ lane c ((x + 4) % 5) ^^^ rotl (lane c ((x + 1) % 5)) 1

/-- Moves and turns the lanes. -/
def rhoPi (s : Lanes) : Lanes :=
  (moves.foldl (fun (t, carried) (place, turn) =>
    (t.setIfInBounds place (rotl carried turn), lane s place)) (s, lane s 1)).1

/-- Mixes every lane with the two that follow it in its row. -/
def chi (s : Lanes) : Lanes :=
  s.mapIdx fun i v =>
    let row := i - i % 5
    let next := lane s (row + (i + 1) % 5) ^^^ (0xffffffffffffffff : UInt64)
    v ^^^ (next &&& lane s (row + (i + 2) % 5))

/-- The permutation of the sponge. -/
def permute (s : Lanes) : Lanes :=
  roundConstants.foldl (fun s rc =>
    let t := chi (rhoPi (theta s))
    t.setIfInBounds 0 (lane t 0 ^^^ rc)) s

/-- Eight bytes as a lane, least significant first. -/
def laneOf (bs : Bytes) : UInt64 :=
  bs.foldr (fun b acc => (acc <<< 8) ||| b.toUInt64) 0

/-- The lanes of a block. -/
def lanesOf : Nat → Bytes → List UInt64
  | 0, _ => []
  | n + 1, bs => laneOf (bs.take 8) :: lanesOf n (bs.drop 8)

/-- Takes in a block of 136 bytes. -/
def absorb (s : Lanes) (block : Bytes) : Lanes :=
  let ls := (lanesOf 17 block).toArray
  permute (s.mapIdx fun i v => v ^^^ lane ls i)

/-- The message with its end marked, a whole number of blocks. -/
def padded (msg : Bytes) : Bytes :=
  let room := 136 - msg.length % 136
  if room = 1 then msg ++ [0x81]
  else msg ++ [0x01] ++ List.replicate (room - 2) 0 ++ [0x80]

/-- Takes in `n` blocks. -/
def absorbAll : Nat → Lanes → Bytes → Lanes
  | 0, s, _ => s
  | n + 1, s, bs => absorbAll n (absorb s (bs.take 136)) (bs.drop 136)

/-- The bytes of a lane, least significant first. -/
def laneBytes (x : UInt64) : Bytes :=
  (List.range 8).map fun i => (x >>> UInt64.ofNat (8 * i)).toUInt8

end ChainAccess.Keccak

namespace ChainAccess

/-- The Keccak hash of a message, 32 bytes. -/
def keccak256 (msg : Bytes) : Bytes :=
  let blocks := Keccak.padded msg
  let s := Keccak.absorbAll (blocks.length / 136) (Array.replicate 25 0) blocks
  (List.range 4).flatMap fun i => Keccak.laneBytes (Keccak.lane s i)

end ChainAccess
