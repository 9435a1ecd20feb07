import ChainAccess.Chain.Address
import ChainAccess.Amount.Quantity
-- What a workflow reads of the receipt of a transaction.

namespace ChainAccess

/-- The receipt of a mined transaction. -/
structure Receipt where
  transactionHash : Hash
  blockNumber : Option UInt64
  gasUsed : Option UInt64
  status : Option UInt64
  deriving DecidableEq, Repr

namespace Receipt

/-- Whether the transaction ran to its end. -/
def isSuccess (r : Receipt) : Bool := r.status = some 1

/-- The fields of a receipt. -/
def shape : Json.Shape :=
  ⟨[Json.field "transactionHash" Hash.read,
    Json.defaultedField "blockNumber" (Json.readOption Quantity.readUInt64),
    Json.defaultedField "gasUsed" (Json.readOption Quantity.readUInt64),
    Json.defaultedField "status" (Json.readOption Quantity.readUInt64)], false⟩

/-- Reads a receipt. -/
def read : Json.Read Receipt := fun v => do
  let r ← shape.read v
  return {
    transactionHash := ← r.get "transactionHash" Hash.read
    blockNumber := ← r.get? "blockNumber" Quantity.readUInt64
    gasUsed := ← r.get? "gasUsed" Quantity.readUInt64
    status := ← r.get? "status" Quantity.readUInt64 }

/-- A receipt in JSON. -/
def toJson (r : Receipt) : Json :=
  .obj [("transactionHash", r.transactionHash.toJson),
    ("blockNumber", .ofOption Quantity.ofUInt64 r.blockNumber),
    ("gasUsed", .ofOption Quantity.ofUInt64 r.gasUsed),
    ("status", .ofOption Quantity.ofUInt64 r.status)]

end Receipt

end ChainAccess
