-- Bytes as text. A machine reads one byte at a time and knows which bytes
-- may follow; where a byte fits nowhere, the characters begun so far become
-- one replacement character and the byte is tried again from the start.

namespace ChainAccess.Utf8

/-- The character that stands for bytes that are no text. -/
def replacement : Char := '\ufffd'

/-- Where the machine stands between two bytes: between characters, or
inside one with `need` bytes to come, the next of them from `lo` to `hi`,
and `value` the bits read so far. -/
inductive State where
  | start
  | inside (need lo hi value : Nat)
  deriving Repr, DecidableEq

/-- The state after the first byte of a character: a character, a longer
character begun, or nothing that text can start with. -/
inductive First where
  | whole (c : Char)
  | opens (s : State)
  | bad

/-- What a byte begins when it stands between characters. -/
def first (b : Nat) : First :=
  if b ≤ 0x7f then .whole (Char.ofNat b)
  else if 0xc2 ≤ b ∧ b ≤ 0xdf then .opens (.inside 1 0x80 0xbf (b - 0xc0))
  else if b = 0xe0 then .opens (.inside 2 0xa0 0xbf 0)
  else if b = 0xed then .opens (.inside 2 0x80 0x9f 0xd)
  else if 0xe1 ≤ b ∧ b ≤ 0xef then .opens (.inside 2 0x80 0xbf (b - 0xe0))
  else if b = 0xf0 then .opens (.inside 3 0x90 0xbf 0)
  else if b = 0xf4 then .opens (.inside 3 0x80 0x8f 4)
  else if 0xf1 ≤ b ∧ b ≤ 0xf3 then .opens (.inside 3 0x80 0xbf (b - 0xf0))
  else .bad

/-- The byte `b` between characters: the state after it and what it yields. -/
def stepStart (b : Nat) : State × List Char :=
  match first b with
  | .whole c => (.start, [c])
  | .opens s => (s, [])
  | .bad => (.start, [replacement])

/-- One byte: the state after it and the characters it completes. -/
def step : State → Nat → State × List Char
  | .start, b => stepStart b
  | .inside need lo hi value, b =>
    if lo ≤ b ∧ b ≤ hi then
      let v := 64 * value + (b - 0x80)
      if need ≤ 1 then (.start, [Char.ofNat v]) else (.inside (need - 1) 0x80 0xbf v, [])
    else
      let (s, cs) := stepStart b
      (s, replacement :: cs)

/-- The characters of bytes read from state `s`. -/
def decodeFrom : State → List UInt8 → List Char
  | .start, [] => []
  | .inside .., [] => [replacement]
  | s, b :: rest =>
    let (s', cs) := step s b.toNat
    cs ++ decodeFrom s' rest

/-- Any bytes as text, with a replacement character for what is no text. -/
def lossy (bs : List UInt8) : String := String.ofList (decodeFrom .start bs)

/-- A byte as the character of its number. -/
def letter (b : UInt8) : Char := Char.ofNat b.toNat

/-- The bytes of a text. -/
def encode (s : String) : List UInt8 := s.toUTF8.toList

/-- Bytes as text when they are text. -/
def text? (bs : List UInt8) : Option String := String.fromUTF8? ⟨bs.toArray⟩

end ChainAccess.Utf8
