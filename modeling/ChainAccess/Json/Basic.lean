import ChainAccess.Json.Number
-- JSON values. The members of an object keep the order of the text, names
-- may repeat, and of a text that cannot be read as JSON what can be is kept.
-- `normal` gives the value that messages carry: names sorted, the last
-- member of a repeated name alone.

namespace ChainAccess

/-- A JSON value. -/
inductive Json where
  | null
  | bool (b : Bool)
  | num (n : Number)
  | str (s : String)
  | arr (items : List Json)
  | obj (members : List (String × Json))
  /-- What was read of a list, an object or another value before its text
  stopped being JSON, or went on so that it can only be passed over. -/
  | broken (seen : Json)
  deriving Repr, BEq, Inhabited

namespace Json

/-! ## Building and looking up -/

/-- A whole number. -/
def ofUInt64 (n : UInt64) : Json := .num (.nat n)

/-- A value, or `null` for none. -/
def ofOption {α : Type} (write : α → Json) : Option α → Json
  | none => .null
  | some a => write a

/-- The value of the last member called `name`. -/
def lookup (name : String) (members : List (String × Json)) : Option Json :=
  (members.reverse.find? (·.1 == name)).map (·.2)

/-- The member `name` of an object. -/
def get? (v : Json) (name : String) : Option Json :=
  match v with
  | .obj members => lookup name members
  | _ => none

/-- The text of a string. -/
def asStr? : Json → Option String
  | .str s => some s
  | _ => none

/-- A whole number from 0 to 2^64 - 1. -/
def asUInt64? : Json → Option UInt64
  | .num n => n.toUInt64?
  | _ => none

/-- A whole number of 64 bits with a sign. -/
def asInt? : Json → Option Int
  | .num n => n.toInt?
  | _ => none

/-- Whether the value is `null`. -/
def isNull : Json → Bool
  | .null => true
  | _ => false

/-! ## Normal form -/

/-- Puts a member into a list sorted by name, in the place of one of its
name. -/
def insert (name : String) (v : Json) : List (String × Json) → List (String × Json)
  | [] => [(name, v)]
  | (k, w) :: rest =>
    if name < k then (name, v) :: (k, w) :: rest
    else if name = k then (name, v) :: rest
    else (k, w) :: insert name v rest

mutual

/-- The value with the members of every object sorted by name, the last of a
repeated name alone. -/
def normal : Json → Json
  | .arr items => .arr (normalItems items)
  | .obj members => .obj (normalMembers [] members)
  | .broken seen => .broken (normal seen)
  | v => v

/-- `normal` on every item. -/
def normalItems : List Json → List Json
  | [] => []
  | v :: rest => normal v :: normalItems rest

/-- `normal` on every member, put in order behind those of `sorted`. -/
def normalMembers (sorted : List (String × Json)) : List (String × Json) → List (String × Json)
  | [] => sorted
  | (k, v) :: rest => normalMembers (insert k (normal v) sorted) rest

end

/-! ## Values that can only be passed over -/

mutual

/-- Whether some part of the value is broken, or a number out of range. -/
def isFaulty : Json → Bool
  | .num .beyond => true
  | .arr items => areItemsFaulty items
  | .obj members => areMembersFaulty members
  | .broken _ => true
  | _ => false

/-- `isFaulty` for some item. -/
def areItemsFaulty : List Json → Bool
  | [] => false
  | v :: rest => isFaulty v || areItemsFaulty rest

/-- `isFaulty` for some member. -/
def areMembersFaulty : List (String × Json) → Bool
  | [] => false
  | (_, v) :: rest => isFaulty v || areMembersFaulty rest

end

end Json

end ChainAccess
