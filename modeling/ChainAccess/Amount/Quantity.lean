import ChainAccess.Amount.Word
import ChainAccess.Json.Record
import ChainAccess.Text.Hex
-- Quantities of the wire: numbers of 64 or 256 bits. They are written in
-- base sixteen behind `0x`, without leading zeros, and read from a whole
-- number of JSON or from text in base 16, 8, 2 or 10.

namespace ChainAccess.Quantity

/-! ## Text -/

/-- The shortest digits in base sixteen behind `0x`. -/
def text (n : Nat) : String := String.ofList ('0' :: 'x' :: Hex.ofNat n)

/-- The value of a digit or letter, letters of either case counting from ten. -/
def digit? (c : Char) : Option Nat :=
  if '0' ≤ c ∧ c ≤ '9' then some (c.toNat - 48)
  else if 'a' ≤ c ∧ c ≤ 'z' then some (c.toNat - 87)
  else if 'A' ≤ c ∧ c ≤ 'Z' then some (c.toNat - 55)
  else none

/-- Appends the digits of base `radix` to `n`; separators are skipped. -/
def gather? (radix n : Nat) : List Char → Option Nat
  | [] => some n
  | c :: rest =>
    if c = '_' then gather? radix n rest
    else
      match digit? c with
      | none => none
      | some d => if d < radix then gather? radix (radix * n + d) rest else none

/-- The number that a text writes; the empty text is zero. -/
def ofChars? : List Char → Option Nat
  | '0' :: 'x' :: ds => gather? 16 0 ds
  | '0' :: 'X' :: ds => gather? 16 0 ds
  | '0' :: 'o' :: ds => gather? 8 0 ds
  | '0' :: 'O' :: ds => gather? 8 0 ds
  | '0' :: 'b' :: ds => gather? 2 0 ds
  | '0' :: 'B' :: ds => gather? 2 0 ds
  | ds => gather? 10 0 ds

/-- The number of a JSON value. -/
def ofJson? : Json → Option Nat
  | .num (.nat n) => some n.toNat
  | .str s => ofChars? s.toList
  | _ => none

/-! ## Sixty-four bits -/

/-- A quantity of 64 bits in JSON. -/
def ofUInt64 (n : UInt64) : Json := .str (text n.toNat)

/-- Reads a quantity of 64 bits. -/
def readUInt64 : Json.Read UInt64 := fun v =>
  match ofJson? v with
  | some n => if n < UInt64.size then .ok (UInt64.ofNat n) else .error .malformed
  | none => .error .malformed

/-! ## Words -/

/-- A word in JSON. -/
def ofWord (w : Word) : Json := .str (text w.toNat)

/-- Reads a word. -/
def readWord : Json.Read Word := fun v =>
  match ofJson? v with
  | some n => if n < Word.size then .ok (BitVec.ofNat 256 n) else .error .malformed
  | none => .error .malformed

end ChainAccess.Quantity
