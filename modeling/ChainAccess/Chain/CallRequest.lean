import ChainAccess.Chain.Address
import ChainAccess.Amount.Quantity
-- Calls of a contract that a node runs without a transaction.

namespace ChainAccess

/-- A call to be run or to be estimated. -/
structure CallRequest where
  sender : Option Address
  target : Address
  gasPrice : Option Word
  value : Option Word
  data : Bytes
  deriving DecidableEq, Repr

namespace CallRequest

/-- A call that only reads. -/
def reading (target : Address) (data : Bytes) : CallRequest := ⟨none, target, none, none, data⟩

/-- The fields of a call. -/
def shape : Json.Shape :=
  ⟨[Json.nullableField "from" Address.read, Json.field "to" Address.read,
    Json.nullableField "gasPrice" Quantity.readWord, Json.nullableField "value" Quantity.readWord,
    Json.field "data" Bytes.read], false⟩

/-- Reads a call. -/
def read : Json.Read CallRequest := fun v => do
  let r ← shape.read v
  return {
    sender := ← r.get? "from" Address.read
    target := ← r.get "to" Address.read
    gasPrice := ← r.get? "gasPrice" Quantity.readWord
    value := ← r.get? "value" Quantity.readWord
    data := ← r.get "data" Bytes.read }

/-- A member for a value, left out when there is none. -/
def optionMember {α : Type} (name : String) (write : α → Json) : Option α → List (String × Json)
  | none => []
  | some a => [(name, write a)]

/-- A call in JSON; what it does not say is left out. -/
def toJson (c : CallRequest) : Json :=
  .obj (optionMember "from" Address.toJson c.sender ++ [("to", c.target.toJson)]
    ++ optionMember "gasPrice" Quantity.ofWord c.gasPrice
    ++ optionMember "value" Quantity.ofWord c.value ++ [("data", c.data.toJson)])

end CallRequest

end ChainAccess
