import ChainAccess.Chain.Address
import ChainAccess.Amount.Quantity
-- Logs of contracts, and the filters that ask for them.

namespace ChainAccess

/-- A log entry of a contract. -/
structure LogEntry where
  address : Address
  topics : List Hash
  data : Bytes
  blockNumber : Option UInt64
  transactionHash : Option Hash
  logIndex : Option UInt64
  deriving DecidableEq, Repr

namespace LogEntry

/-- The fields of a log entry. -/
def shape : Json.Shape :=
  ⟨[Json.field "address" Address.read, Json.field "topics" (Json.readList Hash.read),
    Json.field "data" Bytes.read,
    Json.defaultedField "blockNumber" (Json.readOption Quantity.readUInt64),
    Json.defaultedField "transactionHash" (Json.readOption Hash.read),
    Json.defaultedField "logIndex" (Json.readOption Quantity.readUInt64)], false⟩

/-- Reads a log entry. -/
def read : Json.Read LogEntry := fun v => do
  let r ← shape.read v
  return {
    address := ← r.get "address" Address.read
    topics := ← r.get "topics" (Json.readList Hash.read)
    data := ← r.get "data" Bytes.read
    blockNumber := ← r.get? "blockNumber" Quantity.readUInt64
    transactionHash := ← r.get? "transactionHash" Hash.read
    logIndex := ← r.get? "logIndex" Quantity.readUInt64 }

/-- A log entry in JSON. -/
def toJson (l : LogEntry) : Json :=
  .obj [("address", l.address.toJson), ("topics", .arr (l.topics.map Hash.toJson)),
    ("data", l.data.toJson), ("blockNumber", .ofOption Quantity.ofUInt64 l.blockNumber),
    ("transactionHash", .ofOption Hash.toJson l.transactionHash),
    ("logIndex", .ofOption Quantity.ofUInt64 l.logIndex)]

end LogEntry

/-- Which log entries to ask for. A gap among the topics stands for any. -/
structure LogFilter where
  fromBlock : UInt64
  toBlock : UInt64
  address : List Address
  topics : List (Option Hash)
  deriving DecidableEq, Repr

namespace LogFilter

/-- The entries of a contract between two blocks, both included. -/
def ofContract (address : Address) (first last : UInt64) : LogFilter :=
  ⟨first, last, [address], []⟩

/-- The fields of a filter. -/
def shape : Json.Shape :=
  ⟨[Json.field "fromBlock" Quantity.readUInt64, Json.field "toBlock" Quantity.readUInt64,
    Json.defaultedField "address" (Json.readList Address.read),
    Json.defaultedField "topics" (Json.readList (Json.readOption Hash.read))], false⟩

/-- Reads a filter. -/
def read : Json.Read LogFilter := fun v => do
  let r ← shape.read v
  return {
    fromBlock := ← r.get "fromBlock" Quantity.readUInt64
    toBlock := ← r.get "toBlock" Quantity.readUInt64
    address := ← r.getD "address" (Json.readList Address.read) []
    topics := ← r.getD "topics" (Json.readList (Json.readOption Hash.read)) [] }

/-- A member for a list, left out when the list is empty. -/
def listMember (name : String) (items : List Json) : List (String × Json) :=
  if items.isEmpty then [] else [(name, .arr items)]

/-- A filter in JSON; empty lists are left out. -/
def toJson (f : LogFilter) : Json :=
  .obj ([("fromBlock", Quantity.ofUInt64 f.fromBlock), ("toBlock", Quantity.ofUInt64 f.toBlock)]
    ++ listMember "address" (f.address.map Address.toJson)
    ++ listMember "topics" (f.topics.map (Json.ofOption Hash.toJson)))

end LogFilter

end ChainAccess
