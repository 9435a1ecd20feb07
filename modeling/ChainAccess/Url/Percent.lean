import ChainAccess.Text.Hex
import ChainAccess.Text.Utf8
-- Percent signs in URLs: which characters each part of a URL may hold as
-- they are, and the two digits that stand for a byte of any other.

namespace ChainAccess.Url

/-! ## Writing -/

/-- A byte as a percent sign and two upper-case digits. -/
def percentByte (b : UInt8) : List Char := '%' :: (Hex.ofByte b).map Char.toUpper

/-- A character as it stands in a part of a URL: as it is when `plain` accepts
it, else its bytes behind percent signs. -/
def percentChar (plain : Char → Bool) (c : Char) : List Char :=
  if plain c then [c] else (Utf8.encode (String.singleton c)).flatMap percentByte

/-- A text as it stands in a part of a URL. -/
def percentEncode (plain : Char → Bool) (cs : List Char) : List Char :=
  cs.flatMap (percentChar plain)

/-- The visible characters of ASCII and the blank. -/
def isPrintable (c : Char) : Bool := 0x20 ≤ c.toNat && c.toNat ≤ 0x7e

/-- The characters but those of a list. -/
def printableBut (refused : String) (c : Char) : Bool :=
  isPrintable c && !refused.toList.contains c

/-- What a fragment holds as it is. -/
def isFragmentChar : Char → Bool := printableBut " \"<>\x60"

/-- What a query holds as it is. -/
def isQueryChar : Char → Bool := printableBut " \"#<>"

/-- What a query of a web address holds as it is. -/
def isWebQueryChar : Char → Bool := printableBut " \"#<>'"

/-- What a path holds as it is. -/
def isPathChar : Char → Bool := printableBut " \"<>\x60#?\x7b\x7d"

/-- What a user name or a password holds as it is. -/
def isUserChar : Char → Bool := printableBut " \"<>\x60#?\x7b\x7d/:;=@[\\]^|"

/-! ## Reading -/

/-- The bytes of a text, with percent signs and two digits resolved. -/
def percentDecode : List Char → Bytes
  | '%' :: a :: b :: rest =>
    match Hex.value? a, Hex.value? b with
    | some h, some l => UInt8.ofNat (16 * h + l) :: percentDecode rest
    | _, _ => 37 :: percentDecode (a :: b :: rest)
  | c :: rest => Utf8.encode (String.singleton c) ++ percentDecode rest
  | [] => []

end ChainAccess.Url
