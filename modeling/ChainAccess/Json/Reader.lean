import ChainAccess.Json.Basic
import ChainAccess.Text.Utf8
-- Reading JSON text. One machine takes the text byte by byte; its stack holds
-- the lists and objects that are open. Where the text stops being JSON, what
-- the stack holds is the part that was read, and it is given out marked as
-- broken: a reader of records finds the first fault of the part that could be
-- read. So is a value that can be passed over and not be read: a string that
-- is no text, a list or an object inside too many others, an object with such
-- a string for a name. The text goes on behind it.

namespace ChainAccess.Json

/-! ## The machine -/

/-- A list or object that is open, its parts in reverse; an object may have
read the name of its next member. -/
inductive Frame where
  | list (done : List Json)
  | record (done : List (String × Json)) (name : Option String)
  /-- A list that can only be passed over. -/
  | passedList
  /-- An object that can only be passed over, behind a part that was read. -/
  | passedRecord (seen : Json) (named : Bool)

/-- Where a number literal stands. -/
inductive NumberPlace where
  | minus | zero | whole | point | fraction | exponent | exponentSign | exponentDigits
  deriving DecidableEq

/-- Where a string stands: in its text, behind a backslash, in the digits of
a code, or behind the first code of a pair. -/
inductive StringPlace where
  | text
  | escape
  | code (left value : Nat) (high : Option Nat)
  | pairEscape (high : Nat)
  | pairCode (high : Nat)

/-- What the machine expects next. -/
inductive Mode where
  /-- A value, or the end of an empty list. -/
  | value (mayClose : Bool)
  /-- A member name, or the end of an empty object. -/
  | name (mayClose : Bool)
  | colon
  /-- A value has just ended. -/
  | after (v : Json)
  /-- The rest of a word. -/
  | word (rest : List Char) (v : Json)
  /-- More of a number, its digits in reverse. -/
  | number (place : NumberPlace) (l : Number.Literal)
  /-- More of a string, a member name or a value, its bytes in reverse. -/
  | string (isName : Bool) (place : StringPlace) (done : List UInt8)
  /-- Something follows the whole value. -/
  | trailing (v : Json)
  /-- The text is no JSON, behind this value if one had just ended. -/
  | failed (last : Option Json)

/-- A state of the machine. -/
structure Reader where
  mode : Mode
  stack : List Frame

/-- The most lists and objects that may be open at once around a value that is
read. -/
def maxOpen : Nat := 127

/-- The blanks of JSON. -/
def isBlank (c : Char) : Bool := c = ' ' || c = '\n' || c = '\t' || c = '\r'

/-- The list or object when it can only be passed over. -/
def Frame.passed : Frame → Frame
  | .list _ => .passedList
  | .record .. => .passedRecord .null false
  | f => f

/-- The list or object with the name of its next member, if that is a text. -/
def Frame.withName (name : Option String) : Frame → Frame
  | .record done _ =>
    name.elim (.passedRecord (.obj done.reverse) true) fun k => .record done (some k)
  | .passedRecord seen _ => .passedRecord seen true
  | f => f

/-- The list or object with one more value. -/
def Frame.add (v : Json) : Frame → Frame
  | .list done => .list (v :: done)
  | .record done (some k) => .record ((k, v) :: done) none
  | .passedRecord seen _ => .passedRecord seen false
  | f => f

/-- What comes behind a comma. -/
def Frame.next : Frame → Mode
  | .list _ | .passedList => .value false
  | .record .. | .passedRecord .. => .name false

/-- The value of the list or object when this character ends it. -/
def Frame.ended? (c : Char) : Frame → Option Json
  | .list done => if c = ']' then some (.arr done.reverse) else none
  | .record done none => if c = '\x7d' then some (.obj done.reverse) else none
  | .passedList => if c = ']' then some (.broken .null) else none
  | .passedRecord seen false => if c = '\x7d' then some (.broken seen) else none
  | _ => none

/-- Opens a list or an object. -/
def Reader.push (r : Reader) (f : Frame) (m : Mode) : Reader :=
  ⟨m, (if r.stack.length < maxOpen then f else f.passed) :: r.stack⟩

/-- Ends an empty list or object. -/
def Reader.endEmpty (r : Reader) (mayClose : Bool) (c : Char) : Reader :=
  match mayClose, r.stack with
  | true, f :: stack => (f.ended? c).elim ⟨.failed none, r.stack⟩ fun v => ⟨.after v, stack⟩
  | _, _ => ⟨.failed none, r.stack⟩

/-- A character where a value may begin. -/
def Reader.startValue (r : Reader) (mayClose : Bool) (c : Char) : Reader :=
  let lit (whole : List Char) : Number.Literal := ⟨false, whole, none, none⟩
  if isBlank c then r
  else if c = '"' then ⟨.string false .text [], r.stack⟩
  else if c = '[' then r.push (.list []) (.value true)
  else if c = '\x7b' then r.push (.record [] none) (.name true)
  else if c = 't' then ⟨.word ['r', 'u', 'e'] (.bool true), r.stack⟩
  else if c = 'f' then ⟨.word ['a', 'l', 's', 'e'] (.bool false), r.stack⟩
  else if c = 'n' then ⟨.word ['u', 'l', 'l'] .null, r.stack⟩
  else if c = '-' then ⟨.number .minus ⟨true, [], none, none⟩, r.stack⟩
  else if c = '0' then ⟨.number .zero (lit [c]), r.stack⟩
  else if c.isDigit then ⟨.number .whole (lit [c]), r.stack⟩
  else r.endEmpty mayClose c

/-- A character behind the value `v`. -/
def Reader.afterValue (v : Json) (stack : List Frame) (c : Char) : Reader :=
  if isBlank c then ⟨.after v, stack⟩
  else
    match stack with
    | [] => ⟨.trailing v, []⟩
    | f :: rest =>
      let f := f.add v
      if c = ',' then ⟨f.next, f :: rest⟩
      else (f.ended? c).elim ⟨.failed (some v), stack⟩ fun w => ⟨.after w, rest⟩

/-- A character where a member name may begin. -/
def Reader.startName (r : Reader) (mayClose : Bool) (c : Char) : Reader :=
  if isBlank c then r
  else if c = '"' then ⟨.string true .text [], r.stack⟩
  else r.endEmpty mayClose c

/-- The end of a string that is this text, or none: a member name goes to its
object, a value is done. -/
def Reader.endString (isName : Bool) (s : Option String) (stack : List Frame) : Reader :=
  match isName, stack with
  | false, _ => ⟨.after (s.elim (.broken .null) .str), stack⟩
  | true, f :: rest => ⟨.colon, f.withName s :: rest⟩
  | true, [] => ⟨.failed none, []⟩

/-- The character of a one-letter escape. -/
def unescape? (c : Char) : Option Char :=
  if c = '"' then some '"'
  else if c = '\\' then some '\\'
  else if c = '/' then some '/'
  else if c = 'b' then some '\x08'
  else if c = 'f' then some '\x0c'
  else if c = 'n' then some '\n'
  else if c = 'r' then some '\r'
  else if c = 't' then some '\t'
  else none

/-- The value of a digit of a code. -/
def codeDigit? (c : Char) : Option Nat :=
  if '0' ≤ c ∧ c ≤ '9' then some (c.toNat - 48)
  else if 'a' ≤ c ∧ c ≤ 'f' then some (c.toNat - 87)
  else if 'A' ≤ c ∧ c ≤ 'F' then some (c.toNat - 55)
  else none

/-- The byte for half of a pair alone, which stands in no text. -/
def noText : UInt8 := 0xff

/-- Bytes in reverse with those of a character. -/
def addChar (done : List UInt8) (c : Char) : List UInt8 :=
  (String.utf8EncodeChar c).reverse ++ done

/-- What a whole code gives alone: a character, the first half of a pair, or
the second half without the first. -/
def endCode (isName : Bool) (done : List UInt8) (code : Nat) : Mode :=
  if 0xd800 ≤ code ∧ code ≤ 0xdbff then .string isName (.pairEscape code) done
  else if 0xdc00 ≤ code ∧ code ≤ 0xdfff then .string isName .text (noText :: done)
  else .string isName .text (addChar done (Char.ofNat code))

/-- What a whole code gives behind the first half of a pair. -/
def endPair (isName : Bool) (done : List UInt8) (high code : Nat) : Mode :=
  if 0xdc00 ≤ code ∧ code ≤ 0xdfff then
    .string isName .text
      (addChar done (Char.ofNat (0x10000 + (high - 0xd800) * 0x400 + (code - 0xdc00))))
  else endCode isName (noText :: done) code

/-- A character in the text of a string. -/
def Reader.inText (stack : List Frame) (isName : Bool) (done : List UInt8) (c : Char) : Reader :=
  if c = '"' then Reader.endString isName (Utf8.text? done.reverse) stack
  else if c = '\\' then ⟨.string isName .escape done, stack⟩
  else if c.toNat < 0x20 then ⟨.failed none, stack⟩
  else ⟨.string isName .text (UInt8.ofNat c.toNat :: done), stack⟩

/-- A character behind a backslash. -/
def Reader.inEscape (stack : List Frame) (isName : Bool) (done : List UInt8) (c : Char) : Reader :=
  if c = 'u' then ⟨.string isName (.code 4 0 none) done, stack⟩
  else
    match unescape? c with
    | some d => ⟨.string isName .text (addChar done d), stack⟩
    | none => ⟨.failed none, stack⟩

/-- A character inside a string. -/
def Reader.inString (stack : List Frame) (isName : Bool) (place : StringPlace) (done : List UInt8)
    (c : Char) : Reader :=
  match place with
  | .text => Reader.inText stack isName done c
  | .escape => Reader.inEscape stack isName done c
  | .code left value high =>
    match codeDigit? c with
    | none => ⟨.failed none, stack⟩
    | some d =>
      if left ≤ 1 then
        ⟨high.elim (endCode isName done) (endPair isName done) (16 * value + d), stack⟩
      else ⟨.string isName (.code (left - 1) (16 * value + d) high) done, stack⟩
  | .pairEscape high =>
    if c = '\\' then ⟨.string isName (.pairCode high) done, stack⟩
    else Reader.inText stack isName (noText :: done) c
  | .pairCode high =>
    if c = 'u' then ⟨.string isName (.code 4 0 (some high)) done, stack⟩
    else Reader.inEscape stack isName (noText :: done) c

/-- Whether a literal may end where it stands. -/
def NumberPlace.mayEnd : NumberPlace → Bool
  | .zero | .whole | .fraction | .exponentDigits => true
  | _ => false

/-- A literal whose digits were gathered in reverse. -/
def inOrder (l : Number.Literal) : Number.Literal :=
  { l with
    whole := l.whole.reverse
    fraction := l.fraction.map List.reverse
    exponent := l.exponent.map fun (down, ds) => (down, ds.reverse) }

/-- The next place of a literal and its parts, when `c` belongs to it. -/
def numberStep (place : NumberPlace) (l : Number.Literal) (c : Char) :
    Option (NumberPlace × Number.Literal) :=
  let openExponent := some (NumberPlace.exponent, { l with exponent := some (false, []) })
  let addFraction := some (NumberPlace.fraction, { l with fraction := l.fraction.map (c :: ·) })
  let exponent := l.exponent.map fun (down, ds) => (down, c :: ds)
  let addExponent := some (NumberPlace.exponentDigits, { l with exponent := exponent })
  match place with
  | .minus =>
    if c = '0' then some (.zero, { l with whole := [c] })
    else if c.isDigit then some (.whole, { l with whole := [c] })
    else none
  | .zero | .whole =>
    if c = '.' then some (.point, { l with fraction := some [] })
    else if c = 'e' || c = 'E' then openExponent
    else if place = .whole && c.isDigit then some (.whole, { l with whole := c :: l.whole })
    else none
  | .point => if c.isDigit then addFraction else none
  | .fraction =>
    if c.isDigit then addFraction else if c = 'e' || c = 'E' then openExponent else none
  | .exponent =>
    if c = '+' then some (.exponentSign, l)
    else if c = '-' then some (.exponentSign, { l with exponent := some (true, []) })
    else if c.isDigit then addExponent
    else none
  | .exponentSign | .exponentDigits => if c.isDigit then addExponent else none

/-- A character inside a number; one that does not belong to it ends it. -/
def Reader.inNumber (stack : List Frame) (place : NumberPlace) (l : Number.Literal) (c : Char) :
    Reader :=
  match numberStep place l c with
  | some (place', l') => ⟨.number place' l', stack⟩
  | none =>
    if place.mayEnd && !(place = .zero && c.isDigit) then
      Reader.afterValue (.num (.ofLiteral (inOrder l))) stack c
    else ⟨.failed none, stack⟩

/-- One character of the text. -/
def Reader.step (r : Reader) (c : Char) : Reader :=
  match r.mode with
  | .value mayClose => r.startValue mayClose c
  | .name mayClose => r.startName mayClose c
  | .colon =>
    if isBlank c then r
    else if c = ':' then ⟨.value false, r.stack⟩
    else ⟨.failed none, r.stack⟩
  | .after v => Reader.afterValue v r.stack c
  | .word (d :: rest) v =>
    if c = d then (if rest.isEmpty then ⟨.after v, r.stack⟩ else ⟨.word rest v, r.stack⟩)
    else ⟨.failed none, r.stack⟩
  | .word [] _ => ⟨.failed none, r.stack⟩
  | .number place l => Reader.inNumber r.stack place l c
  | .string isName place done => Reader.inString r.stack isName place done c
  | .trailing _ => r
  | .failed _ => r

/-! ## Documents -/

/-- What was read in an open list or object, with the part inside it. -/
def Frame.close (inner : Option Json) : Frame → Json
  | .list done => .broken (.arr (done.reverse ++ inner.toList))
  | .record done none => .broken (.obj done.reverse)
  | .record done (some k) => .broken (.obj (done.reverse ++ [(k, inner.getD (.broken .null))]))
  | .passedList => .broken .null
  | .passedRecord seen _ => .broken seen

/-- What was read when the text broke off behind `last`. -/
def salvage (last : Option Json) : List Frame → Json
  | [] => .broken .null
  | f :: outer => outer.foldl (fun inner g => g.close (some inner)) (f.close last)

/-- A text read as JSON. -/
structure Document where
  /-- The value, broken where the text stops being JSON inside it. -/
  value : Json
  /-- Whether only blanks follow the value. -/
  clean : Bool

/-- The document at the end of the text. -/
def Reader.finish (r : Reader) : Document :=
  match r.mode, r.stack with
  | .after v, [] => ⟨v, true⟩
  | .trailing v, _ => ⟨v, false⟩
  | .number place l, [] =>
    if place.mayEnd then ⟨.num (.ofLiteral (inOrder l)), true⟩ else ⟨.broken .null, true⟩
  | .after v, stack => ⟨salvage (some v) stack, true⟩
  | .failed last, stack => ⟨salvage last stack, true⟩
  | .number place l, stack =>
    ⟨salvage (if place.mayEnd then some (.num (.ofLiteral (inOrder l))) else none) stack, true⟩
  | _, stack => ⟨salvage none stack, true⟩

/-- Reads bytes. -/
def readBytes (bs : List UInt8) : Document :=
  ((bs.map Utf8.letter).foldl Reader.step ⟨.value false, []⟩).finish

/-- Reads a text. -/
def read (s : String) : Document := readBytes (Utf8.encode s)

/-- The value of a text that is JSON, in normal form. -/
def parse? (s : String) : Option Json :=
  let d := read s
  if d.clean && !d.value.isFaulty then some d.value.normal else none

end ChainAccess.Json
