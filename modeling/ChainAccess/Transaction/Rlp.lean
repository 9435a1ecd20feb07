import ChainAccess.Text.Hex
-- The length-prefixed form in which transactions are hashed and sent: byte
-- strings and lists of them, numbers being byte strings without leading zeros.

namespace ChainAccess.Rlp

/-- The bytes of a number without leading zeros; zero has none. -/
def bytesOf (n : Nat) : Bytes :=
  if n = 0 then [] else Bytes.ofNat (Nat.log2 n / 8 + 1) n

/-- The mark of a length, counted from `base`: one byte up to 55, and the
length in bytes of its own beyond. -/
def lengthMark (base length : Nat) : Bytes :=
  if length ≤ 55 then [UInt8.ofNat (base + length)]
  else
    let bs := bytesOf length
    UInt8.ofNat (base + 55 + bs.length) :: bs

/-- A byte string; a single small byte stands for itself. -/
def string (bs : Bytes) : Bytes :=
  match bs with
  | [b] => if b < 0x80 then [b] else lengthMark 0x80 1 ++ [b]
  | bs => lengthMark 0x80 bs.length ++ bs

/-- A number. -/
def number (n : Nat) : Bytes := string (bytesOf n)

/-- A list of items that are already in this form. -/
def list (items : List Bytes) : Bytes :=
  let body := items.flatten
  lengthMark 0xc0 body.length ++ body

end ChainAccess.Rlp
