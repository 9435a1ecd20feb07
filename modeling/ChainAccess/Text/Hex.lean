-- Byte strings as hexadecimal text. Writing gives two lower-case digits a
-- byte; reading takes either case, refuses an odd number of digits first
-- and then the first character that is no digit.

namespace ChainAccess

/-- A string of bytes: call data, return data, a signed transaction. -/
abbrev Bytes := List UInt8

namespace Hex

/-! ## Digits -/

/-- The digit of a value below sixteen, in lower case. -/
def digit (n : Nat) : Char :=
  if n < 10 then Char.ofNat (48 + n) else Char.ofNat (87 + n)

/-- The value of a digit of either case. -/
def value? (c : Char) : Option Nat :=
  if '0' ≤ c ∧ c ≤ '9' then some (c.toNat - 48)
  else if 'a' ≤ c ∧ c ≤ 'f' then some (c.toNat - 87)
  else if 'A' ≤ c ∧ c ≤ 'F' then some (c.toNat - 55)
  else none

/-! ## Writing -/

/-- The two digits of a byte, high half first. -/
def ofByte (b : UInt8) : List Char :=
  [digit (b.toNat / 16), digit (b.toNat % 16)]

/-- The digits of a byte string, without a marker. -/
def digits (bs : Bytes) : List Char := bs.flatMap ofByte

/-- The digits of a byte string behind the marker `0x`. -/
def encode (bs : Bytes) : String := String.ofList ('0' :: 'x' :: digits bs)

/-- The digits of a number, without leading zeros; zero is one digit. -/
def ofNat (n : Nat) : List Char := Nat.toDigits 16 n

/-- The last `width` digits of a number, with leading zeros. -/
def ofNatWidth : Nat → Nat → List Char
  | 0, _ => []
  | width + 1, n => ofNatWidth width (n / 16) ++ [digit (n % 16)]

/-! ## Reading -/

/-- Why a digit string is no byte string. -/
inductive Fault where
  | oddLength
  | badDigit (c : Char) (position : Nat)
  deriving Repr, DecidableEq

/-- The bytes of the digits, `i` digits having been read before. -/
def decodeFrom (i : Nat) : List Char → Except Fault Bytes
  | [] => .ok []
  | [_] => .error .oddLength
  | a :: b :: rest =>
    match value? a, value? b with
    | none, _ => .error (.badDigit a i)
    | some _, none => .error (.badDigit b (i + 1))
    | some h, some l => (decodeFrom (i + 2) rest).map (UInt8.ofNat (16 * h + l) :: ·)

/-- The bytes of a digit string; an odd length is found before a bad digit. -/
def decode (cs : List Char) : Except Fault Bytes :=
  if cs.length % 2 = 1 then .error .oddLength else decodeFrom 0 cs

/-- The digits behind one optional marker `0x`. -/
def unmarked : List Char → List Char
  | '0' :: 'x' :: rest => rest
  | cs => cs

/-- The digits behind every leading `0x`. -/
def stripMarkers : List Char → List Char
  | '0' :: 'x' :: rest => stripMarkers rest
  | cs => cs

/-- The bytes of a text with an optional marker. -/
def bytes? (s : String) : Option Bytes := (decode (unmarked s.toList)).toOption

/-- The number that a digit string writes in base sixteen. -/
def value (cs : List Char) : Option Nat :=
  cs.foldl (fun acc c => acc.bind fun n => (value? c).map (16 * n + ·)) (some 0)

end Hex

/-! ## Numbers as bytes -/

/-- The number that bytes write, most significant first. -/
def Bytes.toNat (bs : Bytes) : Nat := bs.foldl (fun n b => 256 * n + b.toNat) 0

/-- The last `width` bytes of a number, most significant first. -/
def Bytes.ofNat : Nat → Nat → Bytes
  | 0, _ => []
  | width + 1, n => Bytes.ofNat width (n / 256) ++ [UInt8.ofNat n]

end ChainAccess
