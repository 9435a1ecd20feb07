import ChainAccess.Crypto.Keccak
import ChainAccess.Json.Record
-- Addresses, hashes and byte strings of the chain, and their JSON. All are
-- written as lower-case digits behind `0x`; a message shows an address with
-- the case of its letters drawn from a hash of its digits.

namespace ChainAccess

/-- The address of an account or a contract, twenty bytes. -/
structure Address where
  value : BitVec 160
  deriving DecidableEq, Repr, Inhabited

/-- A hash, thirty-two bytes. -/
structure Hash where
  value : BitVec 256
  deriving DecidableEq, Repr, Inhabited

/-! ## Bytes in JSON -/

namespace Bytes

/-- A byte string in JSON. -/
def toJson (bs : Bytes) : Json := .str (Hex.encode bs)

/-- A byte written as a whole number. -/
def ofNumber? : Json → Option UInt8
  | .num (.nat n) => if n.toNat < 256 then some (UInt8.ofNat n.toNat) else none
  | _ => none

/-- A byte string: digits with an optional marker, or a list of bytes. -/
def ofJson? : Json → Option Bytes
  | .str s => Hex.bytes? s
  | .arr items => items.mapM ofNumber?
  | _ => none

/-- Reads a byte string. -/
def read : Json.Read Bytes := fun v => (ofJson? v).elim (.error .malformed) .ok

end Bytes

/-! ## Addresses -/

namespace Address

/-- The address that writes zero. -/
def zero : Address := ⟨0⟩

/-- The address of twenty bytes. -/
def ofBytes? (bs : Bytes) : Option Address :=
  if bs.length = 20 then some ⟨BitVec.ofNat 160 bs.toNat⟩ else none

/-- The forty digits of an address. -/
def digits (a : Address) : List Char := Hex.ofNatWidth 40 a.value.toNat

/-- The digits behind `0x`. -/
def text (a : Address) : String := String.ofList ('0' :: 'x' :: a.digits)

/-- A letter goes to upper case where the hash of the digits has a half byte
of eight or more. -/
def checksummed (a : Address) : String :=
  let mask := Hex.digits (keccak256 (a.digits.map fun c => UInt8.ofNat c.toNat))
  let raise (c m : Char) : Char := if c.isAlpha && '8' ≤ m then c.toUpper else c
  String.ofList ('0' :: 'x' :: List.zipWith raise a.digits mask)

/-- The address that a text writes, with an optional marker. -/
def ofString? (s : String) : Option Address := (Hex.bytes? s).bind ofBytes?

/-- An address in JSON. -/
def toJson (a : Address) : Json := .str a.text

/-- Reads an address. -/
def read : Json.Read Address := fun v =>
  ((Bytes.ofJson? v).bind ofBytes?).elim (.error .malformed) .ok

end Address

/-! ## Hashes -/

namespace Hash

/-- The hash of thirty-two bytes. -/
def ofBytes? (bs : Bytes) : Option Hash :=
  if bs.length = 32 then some ⟨BitVec.ofNat 256 bs.toNat⟩ else none

/-- The digits behind `0x`. -/
def text (h : Hash) : String :=
  String.ofList ('0' :: 'x' :: Hex.ofNatWidth 64 h.value.toNat)

/-- A hash in JSON. -/
def toJson (h : Hash) : Json := .str h.text

/-- Reads a hash. -/
def read : Json.Read Hash := fun v =>
  ((Bytes.ofJson? v).bind ofBytes?).elim (.error .malformed) .ok

end Hash

end ChainAccess
