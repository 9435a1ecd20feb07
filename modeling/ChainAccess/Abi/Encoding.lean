import ChainAccess.Abi.Value
import ChainAccess.Text.Utf8
-- Values as call data. Values of fixed length stand in the head of their
-- list; for each other one the head holds how far behind the start of the
-- head its data begins.

namespace ChainAccess.Abi

/-- A word as 32 bytes. -/
def wordBytes (w : Word) : Bytes := Bytes.ofNat 32 w.toNat

/-- A number as a word of 32 bytes. -/
def natBytes (n : Nat) : Bytes := Bytes.ofNat 32 n

/-- The length rounded up to whole words. -/
def roundUp (n : Nat) : Nat := (n + 31) / 32 * 32

/-- Bytes with zeros behind them up to whole words. -/
def padded (bs : Bytes) : Bytes := bs ++ List.replicate (roundUp bs.length - bs.length) 0

/-- The data of a value, and whether the value is one of varying length. -/
structure Piece where
  dynamic : Bool
  data : Bytes

/-- The bytes that a piece takes in the head. -/
def Piece.headSize (p : Piece) : Nat := if p.dynamic then 32 else p.data.length

/-- The head and the data behind it, `next` being where the next data begins. -/
def layOut (next : Nat) : List Piece → Bytes × Bytes
  | [] => ([], [])
  | p :: rest =>
    if p.dynamic then
      let (head, tail) := layOut (next + p.data.length) rest
      (natBytes next ++ head, p.data ++ tail)
    else
      let (head, tail) := layOut next rest
      (p.data ++ head, tail)

/-- Pieces put together. -/
def joinPieces (ps : List Piece) : Bytes :=
  let (head, tail) := layOut (ps.foldr (·.headSize + ·) 0) ps
  head ++ tail

namespace Value

mutual

/-- The piece of a value. -/
def piece : Value → Piece
  | .bool b => ⟨false, natBytes b.toNat⟩
  | .uint w _ | .int w _ | .fixedBytes w _ => ⟨false, wordBytes w⟩
  | .address a => ⟨false, natBytes a.value.toNat⟩
  | .function f => ⟨false, natBytes (f.toNat <<< 64)⟩
  | .bytes bs => ⟨true, natBytes bs.length ++ padded bs⟩
  | .string s =>
    let bs := Utf8.encode s
    ⟨true, natBytes bs.length ++ padded bs⟩
  | .array items => ⟨true, natBytes items.length ++ joinPieces (pieces items)⟩
  | .fixedArray items | .tuple items =>
    let ps := pieces items
    ⟨ps.any (·.dynamic), joinPieces ps⟩

/-- The pieces of values. -/
def pieces : List Value → List Piece
  | [] => []
  | v :: rest => piece v :: pieces rest

end

end Value

/-- Values as the data of a call, without a selector. -/
def encode (vs : List Value) : Bytes := joinPieces (Value.pieces vs)

end ChainAccess.Abi
