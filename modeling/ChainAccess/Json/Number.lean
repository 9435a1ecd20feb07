-- Numbers of JSON texts. A literal without fraction and exponent is kept
-- exactly when it fits 64 bits; every other literal is the double that the
-- first nineteen or so of its digits give, kept as its shortest decimal
-- text: the fewest digits that read back as the same double.

namespace ChainAccess

/-- A number of a JSON text. -/
inductive Number where
  /-- A whole number from 0 to 2^64 - 1. -/
  | nat (n : UInt64)
  /-- A whole number below zero, from -2^63. -/
  | neg (n : Int64)
  /-- A double, `digits * 10^exponent` with the fewest digits, or zero. -/
  | float (negative : Bool) (digits : Nat) (exponent : Int)
  /-- A literal that no double holds: only skipping accepts it. -/
  | beyond
  deriving Repr, DecidableEq

namespace Number

/-! ## The shortest decimal text of a double -/

/-- Searches the grids `10^k` from coarse to fine, `steps` of them, for a
point between `lo / den` and `hi / den`; of two such points the nearer to
`mid / den` is taken. -/
def onGrid (lo mid hi den : Nat) (closed : Bool) : Nat → Int → Nat × Int
  | 0, k => (0, k)
  | steps + 1, k =>
    let up := Nat.pow 10 k.toNat
    let down := Nat.pow 10 (-k).toNat
    let c := mid * down / (den * up)
    let holds (x : Nat) : Bool :=
      let p := x * up * den
      if closed then lo * down ≤ p && p ≤ hi * down else lo * down < p && p < hi * down
    match holds c, holds (c + 1) with
    | true, false => (c, k)
    | false, true => (c + 1, k)
    | true, true =>
      let below := mid * down - c * up * den
      let above := (c + 1) * up * den - mid * down
      if below < above then (c, k)
      else if above < below then (c + 1, k)
      else (if c % 2 = 0 then c else c + 1, k)
    | false, false => onGrid lo mid hi den closed steps (k - 1)

/-- The shortest decimal `digits * 10^exponent` that reads back as the
double `m * 2^q`, where `narrow` says that the gap below it is half the gap
above. -/
def shortest (m : Nat) (q : Int) (narrow : Bool) : Nat × Int :=
  let num := Nat.pow 2 (q - 2).toNat
  let den := Nat.pow 2 (2 - q).toNat
  let lo := if narrow then 4 * m - 1 else 4 * m - 2
  onGrid (lo * num) (4 * m * num) ((4 * m + 2) * num) den (m % 2 = 0) 700 310

/-- A finite double as a number. -/
def ofFloat (f : Float) : Number :=
  let bits := f.toBits.toNat
  let unit := Nat.pow 2 52
  let negative := Nat.pow 2 63 ≤ bits
  let e := bits / unit % 2048
  let frac := bits % unit
  if e = 0 ∧ frac = 0 then .float negative 0 0
  else
    let m := if e = 0 then frac else unit + frac
    let q : Int := (max e 1 : Nat) - 1075
    let (digits, exponent) := shortest m q (frac = 0 && 1 < e)
    .float negative digits exponent

/-! ## Literals -/

/-- The parts of a number literal: sign, digits before and after the point,
and the exponent with its sign. -/
structure Literal where
  negative : Bool
  whole : List Char
  fraction : Option (List Char)
  exponent : Option (Bool × List Char)
  deriving Repr

/-- Appends digits to a significand while it fits 64 bits; the digits left
over follow. -/
def gather (significand : Nat) : List Char → Nat × List Char
  | [] => (significand, [])
  | c :: rest =>
    let next := 10 * significand + (c.toNat - 48)
    if UInt64.size ≤ next then (significand, c :: rest) else gather next rest

/-- The number that digits write. -/
def digitsValue (cs : List Char) : Nat := cs.foldl (fun n c => 10 * n + (c.toNat - 48)) 0

/-- Divides by `10^308` while the exponent lies below any power kept. -/
def sinkBy (f : Float) : Nat → Int → Float × Int
  | 0, e => (f, e)
  | steps + 1, e =>
    if -308 ≤ e ∨ f == 0.0 then (f, e)
    else sinkBy (f / Float.ofScientific 1 false 308) steps (e + 308)

/-- `significand * 10^e` in doubles: one rounding for the significand and one
for each power; nothing when it is out of range. -/
def scaled (significand : Nat) (e : Int) : Option Float :=
  let f := Float.ofNat significand
  let (f, e) := sinkBy f 16 e
  if f == 0.0 then some f
  else if 0 ≤ e then
    if 308 < e then none
    else
      let g := f * Float.ofScientific 1 false e.toNat
      if g.isInf then none else some g
  else if -308 ≤ e then some (f / Float.ofScientific 1 false (-e).toNat)
  else some 0.0

/-- The double of a literal with a fraction, an exponent or too many digits. -/
def Literal.float (l : Literal) : Number :=
  let (s, dropped) := gather 0 l.whole
  let (s, left) := gather s (l.fraction.getD [])
  let used := (l.fraction.getD []).length - left.length
  let start : Int := (dropped.length : Int) - (used : Int)
  let close (f : Float) : Number := ofFloat (if l.negative then -f else f)
  match l.exponent with
  | none => (scaled s start).elim .beyond close
  | some (down, ds) =>
    let e := digitsValue ds
    if Nat.pow 2 31 ≤ e then (if s = 0 ∨ down then close 0.0 else .beyond)
    else (scaled s (if down then start - e else start + e)).elim .beyond close

/-- The number of a literal. -/
def ofLiteral (l : Literal) : Number :=
  let n := digitsValue l.whole
  if l.fraction.isNone && l.exponent.isNone then
    if l.negative then
      if 0 < n ∧ n ≤ Nat.pow 2 63 then .neg (Int64.ofInt (-(n : Int))) else l.float
    else if n < UInt64.size then .nat (UInt64.ofNat n) else l.float
  else l.float

/-! ## Views -/

/-- The number as a whole number from 0 to 2^64 - 1. -/
def toUInt64? : Number → Option UInt64
  | .nat n => some n
  | _ => none

/-- The number as a whole number of 64 bits with a sign. -/
def toInt? : Number → Option Int
  | .nat n => if n.toNat < Nat.pow 2 63 then some n.toNat else none
  | .neg n => some n.toInt
  | _ => none

/-- `digits * 10^exponent` in positional notation, without a point when
nothing stands behind it. -/
def positional (digits : Nat) (exponent : Int) : List Char :=
  let ds := (toString digits).toList
  if 0 ≤ exponent then
    if digits = 0 then ['0'] else ds ++ List.replicate exponent.toNat '0'
  else
    let places := (-exponent).toNat
    let ds := List.replicate (places + 1 - ds.length) '0' ++ ds
    ds.take (ds.length - places) ++ ['.'] ++ ds.drop (ds.length - places)

/-- A double in JSON: positional from 10^-5 up to 10^16, with `.0` behind a
whole number, and scientific outside. -/
def floatText (digits : Nat) (exponent : Int) : List Char :=
  let ds := (toString digits).toList
  let point : Int := ds.length + exponent
  if digits = 0 then ['0', '.', '0']
  else if 0 ≤ exponent ∧ point ≤ 16 then positional digits exponent ++ ['.', '0']
  else if -5 < point ∧ point ≤ 16 then positional digits exponent
  else
    let rest := ds.drop 1
    ds.take 1 ++ (if rest.isEmpty then [] else '.' :: rest) ++
      ['e'] ++ (toString (point - 1)).toList

/-- The text of a number in JSON. -/
def text : Number → String
  | .nat n => toString n.toNat
  | .neg n => toString n.toInt
  | .float negative digits exponent =>
    String.ofList ((if negative then ['-'] else []) ++ floatText digits exponent)
  | .beyond => "1e999"

end Number

end ChainAccess
