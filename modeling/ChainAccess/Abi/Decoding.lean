import ChainAccess.Abi.Encoding
-- Return data as values. Nothing is checked but that the data is long enough
-- and that offsets and lengths fit 64 bits; any offset inside the data is
-- followed, and the zeros that fill up the last word of a byte string may be
-- missing. Sixteen levels may be nested.

namespace ChainAccess.Abi

/-- A place in a part of the data, and how many levels it lies deep. -/
structure Cursor where
  data : Bytes
  place : Nat
  depth : Nat

namespace Cursor

/-- The most levels that may be nested. -/
def maxDepth : Nat := 16

/-- The whole words between the place and the end. -/
def wordsLeft (c : Cursor) : Nat := (c.data.length - c.place) / 32

/-- The next `n` bytes, and the place behind them. -/
def take (c : Cursor) (n : Nat) : Except Fault (Bytes × Cursor) :=
  if c.place + n ≤ c.data.length then
    .ok ((c.data.drop c.place).take n, { c with place := c.place + n })
  else .error .overrun

/-- The next word. -/
def takeWord (c : Cursor) : Except Fault (Word × Cursor) := do
  let (bs, c) ← c.take 32
  return (BitVec.ofNat 256 bs.toNat, c)

/-- The next word as an offset or a length. -/
def takeOffset (c : Cursor) : Except Fault (Nat × Cursor) := do
  let (w, c) ← c.takeWord
  if w.toNat < UInt64.size then return (w.toNat, c) else throw (.badOffset w)

/-- The part of the data from an offset on, one level deeper. -/
def inner (c : Cursor) (offset : Nat) : Except Fault Cursor :=
  if maxDepth ≤ c.depth then .error .tooDeep
  else if offset ≤ c.data.length then .ok ⟨c.data.drop offset, 0, c.depth + 1⟩
  else .error .overrun

/-- The part of the data that the next word points to. -/
def follow (c : Cursor) : Except Fault (Cursor × Cursor) := do
  let (offset, c) ← c.takeOffset
  return (← c.inner offset, c)

/-- The bytes behind their length in a part of the data. -/
def takeBytes (c : Cursor) : Except Fault (Bytes × Cursor) := do
  let (part, c) ← c.follow
  let (n, part) ← part.takeOffset
  let (bs, _) ← part.take n
  return (bs, c)

end Cursor

/-- Reads `n` values one after another. -/
def times (read : Cursor → Except Fault (Value × Cursor)) :
    Nat → Cursor → Except Fault (List Value × Cursor)
  | 0, c => .ok ([], c)
  | n + 1, c => do
    let (v, c) ← read c
    let (vs, c) ← times read n c
    return (v :: vs, c)

/-- Reads a list of parts in place, or where the next word points to. -/
def inPart (dynamic : Bool) (c : Cursor)
    (read : Cursor → Except Fault (List Value × Cursor)) :
    Except Fault (List Value × Cursor) := do
  if dynamic then
    let (part, c) ← c.follow
    let (vs, _) ← read part
    return (vs, c)
  else
    let part ← c.inner c.place
    let (vs, part) ← read part
    return (vs, { c with place := c.place + part.place })

mutual

/-- The value of a kind whose values say nothing. -/
def blank : Kind → Value
  | .fixedArray k n => .fixedArray (List.replicate n (blank k))
  | .tuple ks => .tuple (blanks ks)
  | _ => .array []

/-- The values of kinds whose values say nothing. -/
def blanks : List Kind → List Value
  | [] => []
  | k :: rest => blank k :: blanks rest

end

mutual

/-- Reads a value of the kind. -/
def decodeValue : Kind → Cursor → Except Fault (Value × Cursor)
  | .bool, c => do
    let (w, c) ← c.takeWord
    return (.bool (w != 0), c)
  | .uint bits, c => do
    let (w, c) ← c.takeWord
    return (.uint w bits, c)
  | .int bits, c => do
    let (w, c) ← c.takeWord
    return (.int w bits, c)
  | .fixedBytes size, c => do
    let (w, c) ← c.takeWord
    return (.fixedBytes w size, c)
  | .address, c => do
    let (w, c) ← c.takeWord
    return (.address ⟨w.setWidth 160⟩, c)
  | .function, c => do
    let (w, c) ← c.takeWord
    return (.function ((w >>> 64).setWidth 192), c)
  | .bytes, c => do
    let (bs, c) ← c.takeBytes
    return (.bytes bs, c)
  | .string, c => do
    let (bs, c) ← c.takeBytes
    return (.string (Utf8.lossy bs), c)
  | .array k, c => do
    let (part, c) ← c.follow
    let (n, part) ← part.takeOffset
    if n = 0 then return (.array [], c)
    let part ← part.inner part.place
    if k.isEmpty then return (.array [], c)
    if part.wordsLeft < n * k.leastWords then throw .overrun
    let (vs, _) ← times (decodeValue k) n part
    return (.array vs, c)
  | .fixedArray k n, c => do
    let (vs, c) ← inPart k.isDynamic c (times (decodeValue k) n)
    return (.fixedArray vs, c)
  | .tuple ks, c => do
    let (vs, c) ← inPart (Kind.anyDynamic ks) c (decodeAll ks)
    return (.tuple vs, c)

/-- Reads a value of each kind, one after another. -/
def decodeAll : List Kind → Cursor → Except Fault (List Value × Cursor)
  | [], c => .ok ([], c)
  | k :: rest, c => do
    let (v, c) ← decodeValue k c
    let (vs, c) ← decodeAll rest c
    return (v :: vs, c)

end

/-- Reads a value that stands at the top of the data. -/
def decodeTop (k : Kind) (c : Cursor) : Except Fault (Value × Cursor) :=
  if k.isEmpty then .ok (blank k, c)
  else if c.wordsLeft < k.leastWords then .error .overrun
  else decodeValue k c

/-- The data of a call or an answer from its start. -/
def Cursor.start (data : Bytes) : Cursor := ⟨data, 0, 0⟩

end ChainAccess.Abi
