import ChainAccess.Abi.Kind
-- Specifiers: kinds as an interface writes them. A specifier is a name or a
-- list in parentheses, with any number of brackets behind it. Whether the name
-- is one of a kind is only looked at when the kind is needed.

namespace ChainAccess.Abi

/-- A specifier; the sizes are those of the brackets from left to right. -/
inductive Specifier where
  | named (name : String) (sizes : List (Option Nat))
  | listed (parts : List Specifier) (sizes : List (Option Nat))
  deriving Repr, Inhabited

namespace Specifier

/-! ## Reading -/

/-- A character that a name may start with. -/
def isNameStart (c : Char) : Bool := c.isAlpha || c = '_' || c = '$'

/-- A character that a name may hold. -/
def isNameChar (c : Char) : Bool := isNameStart c || c.isDigit

/-- Whether a text is a name. -/
def isName : List Char → Bool
  | [] => false
  | c :: rest => isNameStart c && rest.all isNameChar

/-- The name at the front. A name with points in it is one of a library, whose
kinds are numbers of eight bits. -/
def takeName (cs : List Char) : Option (String × List Char) :=
  match cs with
  | c :: _ =>
    if !isNameStart c then none
    else
      let name := cs.takeWhile isNameChar
      let rest := cs.dropWhile isNameChar
      match rest with
      | '.' :: _ => some ("uint8", rest.dropWhile fun c => isNameChar c || c = '.')
      | _ => some (String.ofList name, rest)
  | [] => none

/-- One pair of brackets at the front, with a size above zero or without. -/
def takeBrackets (cs : List Char) : Option (Option Nat × List Char) :=
  match cs with
  | '[' :: rest =>
    let ds := rest.takeWhile Char.isDigit
    match rest.dropWhile Char.isDigit with
    | ']' :: rest =>
      if ds.isEmpty then some (none, rest)
      else
        let n := ds.foldl (fun n c => 10 * n + (c.toNat - 48)) 0
        if 0 < n && n < UInt64.size then some (some n, rest) else none
    | _ => none
  | _ => none

/-- All brackets at the front. -/
def takeSizes : Nat → List Char → Option (List (Option Nat) × List Char)
  | 0, _ => none
  | fuel + 1, cs =>
    match cs with
    | '[' :: _ =>
      (takeBrackets cs).bind fun (size, rest) =>
        (takeSizes fuel rest).map fun (sizes, rest) => (size :: sizes, rest)
    | _ => some ([], cs)

/-- Drops blanks from the front. -/
def skipBlanks (cs : List Char) : List Char := cs.dropWhile (· = ' ')

mutual

/-- A specifier at the front; the fuel bounds the characters. -/
def take : Nat → List Char → Option (Specifier × List Char)
  | 0, _ => none
  | fuel + 1, cs =>
    let inList (rest : List Char) : Option (Specifier × List Char) :=
      (takeParts fuel (skipBlanks rest)).bind fun (parts, rest) =>
        (takeSizes (rest.length + 1) rest).map fun (sizes, rest) => (.listed parts sizes, rest)
    match cs with
    | '(' :: rest => inList rest
    | 't' :: 'u' :: 'p' :: 'l' :: 'e' :: '(' :: rest => inList rest
    | _ =>
      (takeName cs).bind fun (name, rest) =>
        (takeSizes (rest.length + 1) rest).map fun (sizes, rest) => (.named name sizes, rest)

/-- The parts of a list up to its closing parenthesis. -/
def takeParts : Nat → List Char → Option (List Specifier × List Char)
  | 0, _ => none
  | fuel + 1, cs =>
    match cs with
    | ')' :: rest => some ([], rest)
    | _ =>
      (take fuel cs).bind fun (s, rest) =>
        match skipBlanks rest with
        | ',' :: rest => (takeParts fuel (skipBlanks rest)).map fun (ss, rest) => (s :: ss, rest)
        | ')' :: rest => some ([s], rest)
        | _ => none

end

/-- The specifier that a text writes. -/
def ofChars? (cs : List Char) : Option Specifier :=
  match take (2 * cs.length + 2) cs with
  | some (s, []) => some s
  | _ => none

/-- The specifier that a text writes. -/
def ofString? (s : String) : Option Specifier := ofChars? s.toList

/-- The sizes of the brackets. -/
def sizes : Specifier → List (Option Nat)
  | .named _ sizes => sizes
  | .listed _ sizes => sizes

/-! ## Kinds -/

/-- The number of bits or bytes behind a name, when it has the right form. -/
def sizeOf (name : String) (digits : List Char) (ok : Nat → Bool) : Except Fault Nat :=
  if !digits.isEmpty && digits.all Char.isDigit then
    let n := digits.foldl (fun n c => 10 * n + (c.toNat - 48)) 0
    if ok n then .ok n else .error (.badSize name)
  else .error (.badSize name)

/-- Whether a number has so many bits. -/
def isBitCount (n : Nat) : Bool := n != 0 && n ≤ 256 && n % 8 = 0

/-- Whether a string of fixed bytes has so many bytes. -/
def isByteCount (n : Nat) : Bool := n != 0 && n ≤ 32

/-- The kind of a name. -/
def kindOfName (name : String) : Except Fault Kind :=
  if name = "address" then .ok .address
  else if name = "function" then .ok .function
  else if name = "bool" then .ok .bool
  else if name = "string" then .ok .string
  else if name = "bytes" then .ok .bytes
  else if name = "uint" then .ok (.uint 256)
  else if name = "int" then .ok (.int 256)
  else
    match name.toList with
    | 'b' :: 'y' :: 't' :: 'e' :: 's' :: ds => (sizeOf name ds isByteCount).map .fixedBytes
    | 'u' :: 'i' :: 'n' :: 't' :: ds => (sizeOf name ds isBitCount).map .uint
    | 'i' :: 'n' :: 't' :: ds => (sizeOf name ds isBitCount).map .int
    | _ => .error (.badName name)

/-- The kind of lists of a kind, one list for each pair of brackets. -/
def wrap (k : Kind) (sizes : List (Option Nat)) : Kind :=
  sizes.foldl (fun k size => size.elim (.array k) (.fixedArray k)) k

mutual

/-- The kind of a specifier. -/
def kind : Specifier → Except Fault Kind
  | .named name sizes => (kindOfName name).map (wrap · sizes)
  | .listed parts sizes => (kinds parts).map fun ks => wrap (.tuple ks) sizes

/-- The kinds of specifiers. -/
def kinds : List Specifier → Except Fault (List Kind)
  | [] => .ok []
  | s :: rest => do
    let k ← kind s
    let ks ← kinds rest
    return k :: ks

end

end Specifier

end ChainAccess.Abi
