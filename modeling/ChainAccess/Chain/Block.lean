import ChainAccess.Chain.Address
import ChainAccess.Amount.Quantity
-- What a workflow reads of a block.

namespace ChainAccess

/-- The header of a block. -/
structure BlockHeader where
  number : UInt64
  hash : Option Hash
  gasLimit : UInt64
  timestamp : UInt64
  deriving DecidableEq, Repr

namespace BlockHeader

/-- The fields of a header. -/
def shape : Json.Shape :=
  ⟨[Json.field "number" Quantity.readUInt64,
    Json.defaultedField "hash" (Json.readOption Hash.read),
    Json.field "gasLimit" Quantity.readUInt64, Json.field "timestamp" Quantity.readUInt64], false⟩

/-- Reads a header. -/
def read : Json.Read BlockHeader := fun v => do
  let r ← shape.read v
  return {
    number := ← r.get "number" Quantity.readUInt64
    hash := ← r.get? "hash" Hash.read
    gasLimit := ← r.get "gasLimit" Quantity.readUInt64
    timestamp := ← r.get "timestamp" Quantity.readUInt64 }

/-- A header in JSON. -/
def toJson (b : BlockHeader) : Json :=
  .obj [("number", Quantity.ofUInt64 b.number), ("hash", .ofOption Hash.toJson b.hash),
    ("gasLimit", Quantity.ofUInt64 b.gasLimit), ("timestamp", Quantity.ofUInt64 b.timestamp)]

end BlockHeader

end ChainAccess
