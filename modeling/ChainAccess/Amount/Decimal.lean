import ChainAccess.Json.Record
-- Decimal numbers with at most 96 bits of digits and at most 28 places. A
-- number remembers its places, so that 1.50 and 1.5 are told apart; zero has
-- no sign.

namespace ChainAccess

/-- The first mantissa that 96 bits do not hold. -/
abbrev Decimal.bound : Nat := 0x1000000000000000000000000

/-- The most places a decimal has. -/
abbrev Decimal.maxScale : Nat := 28

/-- The number `mantissa / 10^scale`, below zero when `negative`. -/
structure Decimal where
  negative : Bool
  mantissa : Nat
  scale : Nat
  mantissa_lt : mantissa < Decimal.bound := by decide
  scale_le : scale ≤ Decimal.maxScale := by decide
  deriving DecidableEq, Repr

namespace Decimal

/-! ## Building -/

/-- One, without places. -/
def one : Decimal := ⟨false, 1, 0, by decide, by decide⟩

/-- The decimal of the parts, when they fit. -/
def ofParts? (negative : Bool) (mantissa scale : Nat) : Option Decimal :=
  if h : mantissa < bound ∧ scale ≤ maxScale then
    some ⟨negative && mantissa != 0, mantissa, scale, h.1, h.2⟩
  else none

/-- The decimal of a whole number, when it fits. -/
def ofInt? (n : Int) : Option Decimal := ofParts? (n < 0) n.natAbs 0

/-! ## Asking -/

/-- Whether the number is zero. -/
def isZero (d : Decimal) : Bool := d.mantissa = 0

/-- Whether the number is above zero. -/
def isPositive (d : Decimal) : Bool := !d.isZero && !d.negative

/-! ## Writing -/

/-- Decimal digits with `scale` of them behind a point. -/
def withPoint (scale : Nat) (ds : List Char) : List Char :=
  if scale = 0 then ds
  else
    let padded := List.replicate (scale + 1 - ds.length) '0' ++ ds
    padded.take (padded.length - scale) ++ '.' :: padded.drop (padded.length - scale)

/-- The text of a decimal: all its places, a minus sign below zero. -/
def chars (d : Decimal) : List Char :=
  (if d.negative then ['-'] else []) ++ withPoint d.scale (Nat.toDigits 10 d.mantissa)

/-- The text of a decimal. -/
def text (d : Decimal) : String := String.ofList d.chars

/-! ## Reading -/

/-- Where the reader of a plain decimal stands: the sign, the digits so far,
the places so far, whether the point was read, whether a digit was. -/
structure Scan where
  negative : Bool
  mantissa : Nat
  scale : Nat
  point : Bool
  digit : Bool

/-- The number that the digits so far make. -/
def Scan.close (s : Scan) : Option Decimal := ofParts? s.negative s.mantissa s.scale

/-- Rounds half up by the first digit that no longer fits; what follows it is
not read. A mantissa that grows out of its bits loses its last digit. -/
def Scan.round (s : Scan) (c : Char) : Option Decimal :=
  let up : Option Bool :=
    if c.isDigit then some (53 ≤ c.toNat) else if c = '_' || c = '.' then some false else none
  up.bind fun up =>
    let m := if up then s.mantissa + 1 else s.mantissa
    if m < bound then ofParts? s.negative m s.scale
    else if s.scale = 0 then none
    else ofParts? s.negative ((m + 4) / 10) (s.scale - 1)

/-- Reads digits, one point and separators behind a digit; a digit that finds
no place rounds. -/
def scan (s : Scan) : List Char → Option Decimal
  | [] => if s.digit then s.close else none
  | c :: rest =>
    if c.isDigit then
      let m := 10 * s.mantissa + (c.toNat - 48)
      if bound ≤ m then (if s.point then s.round c else none)
      else
        let s' : Scan := { s with mantissa := m, scale := s.scale + s.point.toNat, digit := true }
        match rest with
        | [] => s'.close
        | d :: _ => if s'.point && maxScale ≤ s'.scale then s'.round d else scan s' rest
    else if c = '.' && !s.point then scan { s with point := true } rest
    else if c = '_' && s.digit then scan s rest
    else none

/-- A decimal in positional notation with an optional sign. -/
def ofPlain? : List Char → Option Decimal
  | '-' :: rest => scan ⟨true, 0, 0, false, false⟩ rest
  | '+' :: rest => scan ⟨false, 0, 0, false, false⟩ rest
  | cs => scan ⟨false, 0, 0, false, false⟩ cs

/-- A number of 32 bits in decimal digits, with an optional plus sign. -/
def exponent? (cs : List Char) : Option Nat :=
  let ds := match cs with
    | '+' :: rest => rest
    | _ => cs
  if ds.isEmpty || !ds.all Char.isDigit then none
  else
    let n := ds.foldl (fun n c => 10 * n + (c.toNat - 48)) 0
    if n < UInt32.size then some n else none

/-- The decimal with `e` places fewer; missing digits are zeros. -/
def shiftUp? (d : Decimal) (e : Nat) : Option Decimal :=
  if e ≤ d.scale then ofParts? d.negative d.mantissa (d.scale - e)
  else if maxScale < e - d.scale then none
  else ofParts? d.negative (d.mantissa * Nat.pow 10 (e - d.scale)) 0

/-- A decimal in scientific notation, such as `1.5e3`. -/
def ofScientific? (cs : List Char) : Option Decimal :=
  let isMark (c : Char) : Bool := c = 'e' || c = 'E'
  match cs.dropWhile (!isMark ·) with
  | [] => none
  | _ :: exp =>
    (ofPlain? (cs.takeWhile (!isMark ·))).bind fun d =>
      match exp with
      | '-' :: ds => (exponent? ds).bind fun e => ofParts? d.negative d.mantissa (d.scale + e)
      | ds => (exponent? ds).bind d.shiftUp?

/-- The decimal that a text writes, positional or scientific. -/
def ofChars? (cs : List Char) : Option Decimal :=
  match ofPlain? cs with
  | some d => some d
  | none => ofScientific? cs

/-- The decimal that a text writes. -/
def ofString? (s : String) : Option Decimal := ofChars? s.toList

/-! ## JSON -/

/-- A decimal in JSON: its text, so that its places are kept. -/
def toJson (d : Decimal) : Json := .str d.text

/-- The decimal of a JSON value: a whole number, a double by its shortest
text, or the text of a decimal. -/
def ofJson? : Json → Option Decimal
  | .num (.nat n) => ofInt? n.toNat
  | .num (.neg n) => ofInt? n.toInt
  | .num (.float negative digits exponent) =>
    ofPlain? ((if negative then ['-'] else []) ++ Number.positional digits exponent)
  | .str s => ofString? s
  | _ => none

/-- Reads a decimal. -/
def read : Json.Read Decimal := fun v => (ofJson? v).elim (.error .malformed) .ok

end Decimal

end ChainAccess
