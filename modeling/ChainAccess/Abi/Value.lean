import ChainAccess.Abi.Kind
import ChainAccess.Chain.Address
import ChainAccess.Text.Quoted
-- The values that call data holds. Numbers and fixed bytes are whole words,
-- whatever their kind could hold; the number of bits only names the kind.

namespace ChainAccess.Abi

/-- A value of call data. -/
inductive Value where
  | bool (b : Bool)
  | uint (word : Word) (bits : Nat)
  | int (word : Word) (bits : Nat)
  | fixedBytes (word : Word) (size : Nat)
  | address (a : Address)
  /-- An address and a selector, 24 bytes. -/
  | function (f : BitVec 192)
  | bytes (bs : Bytes)
  | string (s : String)
  | array (items : List Value)
  | fixedArray (items : List Value)
  | tuple (parts : List Value)
  deriving Repr, BEq, Inhabited

namespace Value

/-! ## Kinds -/

mutual

/-- The name of the kind of a value; a list has the kind of its first item,
and what holds an empty list has none. -/
def kindName? : Value → Option String
  | .bool _ => some "bool"
  | .uint _ bits => some ("uint" ++ toString bits)
  | .int _ bits => some ("int" ++ toString bits)
  | .fixedBytes _ size => some ("bytes" ++ toString size)
  | .address _ => some "address"
  | .function _ => some "function"
  | .bytes _ => some "bytes"
  | .string _ => some "string"
  | .array items => (firstKindName? items).map (· ++ "[]")
  | .fixedArray items =>
    (firstKindName? items).map (· ++ "[" ++ toString items.length ++ "]")
  | .tuple [v] => (kindName? v).map fun n => "(" ++ n ++ ",)"
  | .tuple vs => (kindNames? vs).map fun n => "(" ++ n ++ ")"

/-- The name of the kind of the first value. -/
def firstKindName? : List Value → Option String
  | [] => none
  | v :: _ => kindName? v

/-- The names of the kinds of values with commas between them. -/
def kindNames? : List Value → Option String
  | [] => some ""
  | [v] => kindName? v
  | v :: rest => (kindName? v).bind fun n => (kindNames? rest).map fun m => n ++ "," ++ m

end

mutual

/-- Whether a value is of the kind. -/
def hasKind : Value → Kind → Bool
  | .bool _, .bool => true
  | .uint _ bits, .uint n => bits = n
  | .int _ bits, .int n => bits = n
  | .fixedBytes _ size, .fixedBytes n => size = n
  | .address _, .address => true
  | .function _, .function => true
  | .bytes _, .bytes => true
  | .string _, .string => true
  | .array items, .array k => allHaveKind items k
  | .fixedArray items, .fixedArray k n => items.length = n && allHaveKind items k
  | .tuple vs, .tuple ks => haveKinds vs ks
  | _, _ => false

/-- Whether all values are of the kind. -/
def allHaveKind : List Value → Kind → Bool
  | [], _ => true
  | v :: rest, k => hasKind v k && allHaveKind rest k

/-- Whether the values are of the kinds, one by one. -/
def haveKinds : List Value → List Kind → Bool
  | [], [] => true
  | v :: vs, k :: ks => hasKind v k && haveKinds vs ks
  | _, _ => false

end

/-! ## Text -/

/-- The bytes of a text in brackets, as numbers. -/
def bytesText (bs : Bytes) : String :=
  "[" ++ ", ".intercalate (bs.map fun b => toString b.toNat) ++ "]"

mutual

/-- A value as a log shows it. -/
def text : Value → String
  | .bool b => "Bool(" ++ toString b ++ ")"
  | .uint w bits => "Uint(" ++ toString w.toNat ++ ", " ++ toString bits ++ ")"
  | .int w bits => "Int(" ++ toString w.toInt ++ ", " ++ toString bits ++ ")"
  | .fixedBytes w size =>
    "FixedBytes(0x" ++ String.ofList (Hex.ofNatWidth 64 w.toNat) ++ ", " ++ toString size ++ ")"
  | .address a => "Address(" ++ a.text ++ ")"
  | .function f => "Function(0x" ++ String.ofList (Hex.ofNatWidth 48 f.toNat) ++ ")"
  | .bytes bs => "Bytes(" ++ bytesText bs ++ ")"
  | .string s => "String(" ++ Quoted.string s ++ ")"
  | .array items => "Array([" ++ texts items ++ "])"
  | .fixedArray items => "FixedArray([" ++ texts items ++ "])"
  | .tuple parts => "Tuple([" ++ texts parts ++ "])"

/-- Values as a log shows them, with commas between them. -/
def texts : List Value → String
  | [] => ""
  | [v] => text v
  | v :: rest => text v ++ ", " ++ texts rest

end

end Value

end ChainAccess.Abi
