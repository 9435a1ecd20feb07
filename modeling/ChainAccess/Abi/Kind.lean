import ChainAccess.Amount.Word
import ChainAccess.Text.Hex
-- The kinds of values that call data holds, and what can go wrong between
-- values and call data.

namespace ChainAccess.Abi

/-! ## Faults -/

/-- Why values are no call data, or call data no values. -/
inductive Fault where
  | countMismatch (expected actual : Nat)
  | kindMismatch (expected actual : String)
  | badSize (name : String)
  | badName (name : String)
  | overrun
  | badOffset (word : Word)
  | tooDeep
  deriving DecidableEq, Repr

/-! ## Kinds -/

/-- A kind of values. -/
inductive Kind where
  | bool
  | uint (bits : Nat)
  | int (bits : Nat)
  | fixedBytes (size : Nat)
  | address
  | function
  | bytes
  | string
  | array (item : Kind)
  | fixedArray (item : Kind) (size : Nat)
  | tuple (parts : List Kind)
  deriving Repr, BEq, Inhabited

namespace Kind

mutual

/-- The name of a kind; a tuple of one part has a comma behind it. -/
def name : Kind → String
  | .bool => "bool"
  | .uint bits => "uint" ++ toString bits
  | .int bits => "int" ++ toString bits
  | .fixedBytes size => "bytes" ++ toString size
  | .address => "address"
  | .function => "function"
  | .bytes => "bytes"
  | .string => "string"
  | .array k => name k ++ "[]"
  | .fixedArray k size => name k ++ "[" ++ toString size ++ "]"
  | .tuple [k] => "(" ++ name k ++ ",)"
  | .tuple ks => "(" ++ names ks ++ ")"

/-- The names of kinds with commas between them. -/
def names : List Kind → String
  | [] => ""
  | [k] => name k
  | k :: rest => name k ++ "," ++ names rest

end

mutual

/-- Whether values of the kind differ in length. -/
def isDynamic : Kind → Bool
  | .bytes | .string | .array _ => true
  | .fixedArray k _ => isDynamic k
  | .tuple ks => anyDynamic ks
  | _ => false

/-- Whether values of one of the kinds differ in length. -/
def anyDynamic : List Kind → Bool
  | [] => false
  | k :: rest => isDynamic k || anyDynamic rest

end

mutual

/-- The fewest words that a value of the kind takes. -/
def leastWords : Kind → Nat
  | .fixedArray k size => size * leastWords k
  | .tuple ks => sumWords ks
  | _ => 1

/-- The fewest words that values of the kinds take together. -/
def sumWords : List Kind → Nat
  | [] => 0
  | k :: rest => leastWords k + sumWords rest

end

mutual

/-- Whether values of the kind say nothing: tuples without parts, and lists of
such. -/
def isEmpty : Kind → Bool
  | .array k => isEmpty k
  | .fixedArray k _ => isEmpty k
  | .tuple ks => allEmpty ks
  | _ => false

/-- Whether values of all the kinds say nothing. -/
def allEmpty : List Kind → Bool
  | [] => true
  | k :: rest => isEmpty k && allEmpty rest

end

end Kind

/-! ## The words for a fault -/

/-- The words for a fault. -/
def Fault.message : Fault → String
  | .countMismatch expected actual =>
    "encode length mismatch: expected " ++ toString expected ++ " types, got " ++ toString actual
  | .kindMismatch expected actual =>
    "type mismatch: expected type \"" ++ expected ++ "\", got value with type \"" ++ actual ++ "\""
  | .badSize name => "invalid size for type: " ++ name
  | .badName name => "invalid type string: " ++ name
  | .overrun => "ABI decoding failed: buffer overrun while deserializing"
  | .badOffset word =>
    "type check failed for \"offset (usize)\" with data: " ++
      String.ofList (Hex.ofNatWidth 64 word.toNat)
  | .tooDeep => "ABI decoding failed: recursion limit of 16 exceeded during decoding"

end ChainAccess.Abi
