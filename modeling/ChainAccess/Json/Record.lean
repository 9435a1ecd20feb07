import ChainAccess.Json.Reader
-- Reading records. The members of an object are looked at in the order of
-- the text: a name that came before, a name that a closed record does not
-- know and a value of the wrong kind are found where they stand, names that
-- never came after the end, in the order of the fields. A record may also be
-- a list of its fields in order.

namespace ChainAccess.Json

/-! ## Faults -/

/-- Why a value is no record, list or scalar of the wanted kind. -/
inductive Fault where
  | malformed
  | missing (field : String)
  | unknown (field : String)
  | duplicate (field : String)
  deriving Repr, DecidableEq

/-- The words for a fault that names a field. -/
def Fault.message? : Fault → Option String
  | .malformed => none
  | .missing f => some ("missing field \x60" ++ f ++ "\x60")
  | .unknown f => some ("unknown field \x60" ++ f ++ "\x60")
  | .duplicate f => some ("duplicate field \x60" ++ f ++ "\x60")

/-- Reads a value of one kind. -/
abbrev Read (α : Type) := Json → Except Fault α

/-! ## Scalars and lists -/

/-- A string. -/
def readString : Read String
  | .str s => .ok s
  | _ => .error .malformed

/-- A whole number of 64 bits. -/
def readUInt64 : Read UInt64
  | .num (.nat n) => .ok n
  | _ => .error .malformed

/-- A whole number of 32 bits. -/
def readUInt32 : Read UInt32
  | .num (.nat n) => if n.toNat < UInt32.size then .ok n.toUInt32 else .error .malformed
  | _ => .error .malformed

/-- A value, or none for `null`. -/
def readOption {α : Type} (read : Read α) : Read (Option α)
  | .null => .ok none
  | v => (read v).map some

/-- The items of a list, the first fault first. -/
def readItems {α : Type} (read : Read α) : List Json → Except Fault (List α)
  | [] => .ok []
  | v :: rest => do
    let a ← read v
    let as ← readItems read rest
    return a :: as

/-- A list. -/
def readList {α : Type} (read : Read α) : Read (List α)
  | .arr items => readItems read items
  | .broken (.arr items) => do
    let _ ← readItems read items
    throw .malformed
  | _ => .error .malformed

/-! ## Records -/

/-- What a record does without a field. -/
inductive Absence where
  /-- The field must be there. -/
  | required
  /-- A member may be left out and is then none; in a list of fields it must
  be there. -/
  | nullable
  /-- The field has a default. -/
  | defaulted
  deriving DecidableEq

/-- A field of a record: its name, what its value must be, what happens
without it. -/
structure Field where
  name : String
  check : Json → Except Fault Unit
  absence : Absence

/-- A field that must be there. -/
def field {α : Type} (name : String) (read : Read α) : Field :=
  ⟨name, fun v => (read v).map fun _ => (), .required⟩

/-- A field that is none when it is left out. -/
def nullableField {α : Type} (name : String) (read : Read α) : Field :=
  ⟨name, fun v => (readOption read v).map fun _ => (), .nullable⟩

/-- A field with a default. -/
def defaultedField {α : Type} (name : String) (read : Read α) : Field :=
  ⟨name, fun v => (read v).map fun _ => (), .defaulted⟩

/-- The fields of a record, and whether it refuses other names. -/
structure Shape where
  fields : List Field
  closed : Bool

/-- The members of a record that were read. -/
abbrev Record := List (String × Json)

/-- Looks at the members in order, `seen` being the names that came before. -/
def Shape.scan (s : Shape) (seen : List String) : List (String × Json) → Except Fault Unit
  | [] => .ok ()
  | (k, v) :: rest =>
    match s.fields.find? (·.name == k) with
    | none => if s.closed then .error (.unknown k) else s.scan seen rest
    | some f =>
      if seen.contains k then .error (.duplicate k)
      else do
        f.check v
        s.scan (k :: seen) rest

/-- The first field that must be there and is not. -/
def Shape.absent? (s : Shape) (members : List (String × Json)) : Option String :=
  (s.fields.find? fun f => f.absence = .required && !(members.any (·.1 == f.name))).map (·.name)

/-- The fields in order as a list writes them. -/
def zipFields : List Field → List Json → Except Fault Record
  | [], [] => .ok []
  | [], _ :: _ => .error .malformed
  | f :: fs, [] => if f.absence = .defaulted then zipFields fs [] else .error .malformed
  | f :: fs, v :: vs => do
    f.check v
    let rest ← zipFields fs vs
    return (f.name, v) :: rest

/-- Looks at the items of a list of fields that broke off. -/
def checkItems : List Field → List Json → Except Fault Unit
  | f :: fs, v :: vs => do
    f.check v
    checkItems fs vs
  | _, _ => .ok ()

/-- Reads a record of the shape. -/
def Shape.read (s : Shape) : Read Record
  | .obj members => do
    s.scan [] members
    match s.absent? members with
    | some name => throw (.missing name)
    | none => return members
  | .broken (.obj members) => do
    s.scan [] members
    throw .malformed
  | .arr items => zipFields s.fields items
  | .broken (.arr items) => do
    checkItems s.fields items
    throw .malformed
  | _ => .error .malformed

/-- The value of a field. -/
def Record.get {α : Type} (r : Record) (name : String) (read : Read α) : Except Fault α :=
  match r.find? (·.1 == name) with
  | some (_, v) => read v
  | none => .error (.missing name)

/-- The value of a field, or its default. -/
def Record.getD {α : Type} (r : Record) (name : String) (read : Read α) (default : α) :
    Except Fault α :=
  match r.find? (·.1 == name) with
  | some (_, v) => read v
  | none => .ok default

/-- The value of a field that may be left out or `null`. -/
def Record.get? {α : Type} (r : Record) (name : String) (read : Read α) :
    Except Fault (Option α) :=
  r.getD name (readOption read) none

/-- Reads a document: the faults of its value come before what follows it. -/
def Document.as {α : Type} (d : Document) (read : Read α) : Except Fault α := do
  let a ← read d.value
  if d.clean then return a else throw .malformed

end ChainAccess.Json
