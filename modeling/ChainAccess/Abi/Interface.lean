import ChainAccess.Abi.Decoding
import ChainAccess.Abi.Specifier
import ChainAccess.Json.Record
import ChainAccess.Rpc.Error
-- Interfaces of contracts: their functions with the kinds of what goes in and
-- comes out, read from JSON. Several functions may share a name; the number of
-- arguments picks one of them.

namespace ChainAccess.Abi

/-- What goes into a function or comes out of it. -/
inductive Param where
  | mk (name specifier : String) (components : List Param)
  deriving Repr, Inhabited

/-- A function of a contract. -/
structure Function where
  name : String
  inputs : List Param
  outputs : List Param
  deriving Repr, Inhabited

/-- The functions of a contract in the order of the document. -/
structure Interface where
  functions : List Function
  deriving Repr

/-! ## Kinds and signatures -/

namespace Param

mutual

/-- The kind of a parameter. -/
def kind : Param → Except Fault Kind
  | .mk _ text [] =>
    match Specifier.ofString? text with
    | some s => s.kind
    | none => .error (.badName text)
  | .mk _ text components =>
    match Specifier.ofString? text with
    | some s => (kindsOf components).map fun ks => Specifier.wrap (.tuple ks) s.sizes
    | none => .error (.badName text)

/-- The kinds of parameters. -/
def kindsOf : List Param → Except Fault (List Kind)
  | [] => .ok []
  | p :: rest => do
    let k ← kind p
    let ks ← kindsOf rest
    return k :: ks

end

mutual

/-- A parameter as a signature shows it. -/
def signature : Param → String
  | .mk _ text [] => text
  | .mk _ text components =>
    "(" ++ signatures components ++ ")" ++ (text.drop "tuple".length).toString

/-- Parameters as a signature shows them. -/
def signatures : List Param → String
  | [] => ""
  | [p] => signature p
  | p :: rest => signature p ++ "," ++ signatures rest

end

end Param

namespace Function

/-- The name of a function with the kinds of its arguments. -/
def signature (f : Function) : String := f.name ++ "(" ++ Param.signatures f.inputs ++ ")"

/-- The first four bytes of the hash of the signature. -/
def selector (f : Function) : Bytes := (keccak256 (Utf8.encode f.signature)).take 4

/-! ## Calls -/

/-- The first argument that is not of the kind of its parameter. -/
def checkKinds : List Param → List Value → Except Fault Unit
  | p :: ps, v :: vs => do
    let k ← p.kind
    if v.hasKind k then checkKinds ps vs
    else throw (.kindMismatch k.name ((v.kindName?).getD "<none>"))
  | _, _ => .ok ()

/-- The data of a call with the arguments. -/
def encodeCall (f : Function) (args : List Value) : Except Fault Bytes :=
  if args.length ≠ f.inputs.length then
    .error (.countMismatch f.inputs.length args.length)
  else (checkKinds f.inputs args).map fun _ => f.selector ++ encode args

/-- Reads a value for each parameter. -/
def decodeParams : List Param → Cursor → Except Fault (List Value)
  | [], _ => .ok []
  | p :: rest, c => do
    let k ← p.kind
    let (v, c) ← decodeTop k c
    let vs ← decodeParams rest c
    return v :: vs

/-- The values of the data that a call returned. -/
def decodeOutput (f : Function) (data : Bytes) : Except Fault (List Value) :=
  decodeParams f.outputs (.start data)

/-- `encodeCall` with the name of the function before the fault. -/
def callData (f : Function) (args : List Value) : Except RpcError Bytes :=
  (f.encodeCall args).mapError fun e => .encoding (f.name ++ ": " ++ e.message)

/-- `decodeOutput` with the name of the function before the fault. -/
def returned (f : Function) (data : Bytes) : Except RpcError (List Value) :=
  (f.decodeOutput data).mapError fun e => .decoding (f.name ++ ": " ++ e.message)

end Function

namespace Interface

/-! ## Looking up -/

/-- The functions with a name, in the order of the document. -/
def overloads (i : Interface) (method : String) : List Function :=
  i.functions.filter (·.name = method)

/-- The function with the name and so many arguments; the first one with the
name when none takes so many, or when no number is given. -/
def find (i : Interface) (method : String) (arity : Option Nat) : Except RpcError Function :=
  match i.overloads method with
  | [] => .error (.methodNotFound method)
  | first :: rest =>
    match arity with
    | none => .ok first
    | some n => .ok (((first :: rest).find? (·.inputs.length = n)).getD first)

/-- The functions by name, those that share one in the order of the document. -/
def sorted (i : Interface) : List Function :=
  i.functions.mergeSort fun a b => a.name ≤ b.name

/-- The names of the functions, each once, in order. -/
def names (i : Interface) : List String := (i.sorted.map (·.name)).eraseDups

/-- The data of a call of a method. -/
def callData (i : Interface) (method : String) (args : List Value) : Except RpcError Bytes := do
  let f ← i.find method (some args.length)
  f.callData args

/-- The values of the data that a call of a method returned; of several
methods with the name the first is taken. -/
def returned (i : Interface) (method : String) (data : Bytes) : Except RpcError (List Value) := do
  let f ← i.find method none
  f.returned data

/-! ## Reading -/

/-- A name, or nothing. -/
def isNameOrEmpty (s : String) : Bool := s.isEmpty || Specifier.isName s.toList

/-- Reads a name, which may be empty. -/
def readName : Json.Read String := fun v => do
  let s ← Json.readString v
  if isNameOrEmpty s then return s else throw .malformed

/-- Reads a truth value. -/
def readBool : Json.Read Bool
  | .bool b => .ok b
  | _ => .error .malformed

/-- Whether the text of a parameter has the right form: any specifier without
components, and one of a tuple with them. -/
def isWellFormed (text : String) (components : List Param) : Bool :=
  if components.isEmpty then (Specifier.ofString? text).isSome else text.startsWith "tuple"

/-- Reads a parameter, `deep` levels of components at most. Parameters of
events say whether they are indexed, others do not. -/
def readParam (ofEvent : Bool) : Nat → Json.Read Param
  | 0, _ => .error .malformed
  | deep + 1, v => do
    let components : Json.Read (List Param) := Json.readList (readParam false deep)
    let shape : Json.Shape :=
      ⟨[Json.defaultedField "name" Json.readString, Json.field "type" Json.readString,
        Json.nullableField "indexed" readBool, Json.nullableField "internalType" Json.readString,
        Json.defaultedField "components" components], false⟩
    let r ← shape.read v
    let indexed ← r.get? "indexed" readBool
    let name ← r.getD "name" readName ""
    let text ← r.get "type" Json.readString
    let parts ← r.getD "components" components []
    if indexed.isSome = ofEvent && isWellFormed text parts then return .mk name text parts
    else throw .malformed

/-- More levels than a document can nest. -/
def paramDepth : Nat := 128

/-- Reads a list of parameters. -/
def readParams (ofEvent : Bool) : Json.Read (List Param) :=
  Json.readList (readParam ofEvent paramDepth)

/-- Reads how a function treats the state: one of four words. -/
def readMutability : Json.Read Unit
  | .str "pure" | .str "view" | .str "nonpayable" | .str "payable" => .ok ()
  | _ => .error .malformed

/-- The fields that say how a function treats the state. -/
def mutability : List Json.Field :=
  [Json.defaultedField "stateMutability" (Json.readOption readMutability),
   Json.defaultedField "payable" (Json.readOption readBool),
   Json.defaultedField "constant" (Json.readOption readBool)]

/-- What an item of an interface is. -/
inductive Item where
  | function (f : Function)
  | constructor
  | other

/-- Reads an item by its `type`. -/
def readItem : Json.Read Item := fun v => do
  let shape (fields : List Json.Field) : Json.Shape :=
    ⟨Json.field "type" Json.readString :: fields, false⟩
  let kind ← match v with
    | .obj members => (Json.lookup "type" members).elim (.error (.missing "type")) Json.readString
    | _ => .error .malformed
  let name := Json.field "name" readName
  let inputs := Json.field "inputs" (readParams false)
  if kind = "function" then
    let r ← (shape ([name, inputs, Json.field "outputs" (readParams false)] ++ mutability)).read v
    return .function ⟨← r.get "name" readName, ← r.get "inputs" (readParams false),
      ← r.get "outputs" (readParams false)⟩
  else if kind = "constructor" then
    let _ ← (shape (inputs :: mutability)).read v
    return .constructor
  else if kind = "fallback" ∨ kind = "receive" then
    let _ ← (shape mutability).read v
    return .other
  else if kind = "error" then
    let _ ← (shape [name, inputs]).read v
    return .other
  else if kind = "event" then
    let _ ← (shape [name, Json.field "inputs" (readParams true),
      Json.field "anonymous" readBool]).read v
    return .other
  else throw .malformed

/-- The function of an item. -/
def Item.function? : Item → Option Function
  | .function f => some f
  | _ => none

/-- Whether an item is a constructor. -/
def Item.isConstructor : Item → Bool
  | .constructor => true
  | _ => false

/-- Reads an interface; it has one constructor at most. -/
def read : Json.Read Interface := fun v => do
  let items ← Json.readList readItem v
  if 1 < (items.filter Item.isConstructor).length then throw .malformed
  else return ⟨items.filterMap Item.function?⟩

/-- The interface that a text writes. -/
def ofString? (s : String) : Option Interface :=
  let d := Json.read s
  if d.value.isFaulty then none else (d.as read).toOption

end Interface

end ChainAccess.Abi
