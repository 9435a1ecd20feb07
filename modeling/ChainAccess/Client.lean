import ChainAccess.Chain.Block
import ChainAccess.Chain.CallRequest
import ChainAccess.Chain.Log
import ChainAccess.Chain.Receipt
import ChainAccess.Transport
-- The calls that a node understands: the state of the chain, calls of
-- contracts, sending a transaction, and batches of calls. Each is sent once.

namespace ChainAccess.Transport

open Workflow

variable {σ α : Type}

/-! ## Single calls -/

/-- Sends a request and reads the result of its answer. -/
def ask (t : Transport σ) (method : String) (params : List Json) (read : Json.Read α) :
    Workflow σ RpcError α := do
  let answer ← t.sendRequest method (some (.arr params))
  let result ← ofExcept (Rpc.result answer)
  match read result with
  | .ok a => pure a
  | .error f =>
    fail (.request ("Failed to parse " ++ method ++ " result: " ++
      (f.message?.getD "unexpected value")))

/-- The id of the chain. -/
def chainId (t : Transport σ) : Workflow σ RpcError UInt64 :=
  t.ask "eth_chainId" [] Quantity.readUInt64

/-- The number of the most recent block. -/
def blockNumber (t : Transport σ) : Workflow σ RpcError UInt64 :=
  t.ask "eth_blockNumber" [] Quantity.readUInt64

/-- The header of the most recent block. -/
def latestBlock (t : Transport σ) : Workflow σ RpcError BlockHeader := do
  let block ← t.ask "eth_getBlockByNumber" [.str Rpc.latest, .bool false]
    (Json.readOption BlockHeader.read)
  match block with
  | some b => pure b
  | none => fail (.blockNotFound Rpc.latest)

/-- The balance of an account at the most recent block. -/
def balance (t : Transport σ) (address : Address) : Workflow σ RpcError Word :=
  t.ask "eth_getBalance" [address.toJson, .str Rpc.latest] Quantity.readWord

/-- The next nonce of an account, its pending transactions counted. -/
def pendingNonce (t : Transport σ) (address : Address) : Workflow σ RpcError UInt64 :=
  t.ask "eth_getTransactionCount" [address.toJson, .str Rpc.pending] Quantity.readUInt64

/-- The gas price that the node suggests. -/
def gasPrice (t : Transport σ) : Workflow σ RpcError Word :=
  t.ask "eth_gasPrice" [] Quantity.readWord

/-- The gas that a call would use. -/
def estimateGas (t : Transport σ) (request : CallRequest) : Workflow σ RpcError UInt64 :=
  t.ask "eth_estimateGas" [request.toJson] Quantity.readUInt64

/-- The return data of a call at the most recent block. -/
def call (t : Transport σ) (request : CallRequest) : Workflow σ RpcError Bytes :=
  t.ask "eth_call" [request.toJson, .str Rpc.latest] Bytes.read

/-- The log entries that a filter asks for. -/
def logs (t : Transport σ) (filter : LogFilter) : Workflow σ RpcError (List LogEntry) :=
  t.ask "eth_getLogs" [filter.toJson] (Json.readList LogEntry.read)

/-- Hands a signed transaction to the node. -/
def sendRawTransaction (t : Transport σ) (raw : Bytes) : Workflow σ RpcError Hash :=
  t.ask "eth_sendRawTransaction" [raw.toJson] Hash.read

/-- The receipt of a transaction, none while it is pending. -/
def receipt (t : Transport σ) (hash : Hash) : Workflow σ RpcError (Option Receipt) :=
  t.ask "eth_getTransactionReceipt" [hash.toJson] (Json.readOption Receipt.read)

/-! ## Batches -/

/-- The requests of a batch, numbered from zero. -/
def batchRequests (calls : List Rpc.BatchElement) : List Json :=
  calls.zipIdx.map fun (call, id) => call.request id

/-- The element that an answer belongs to. -/
def answeredIndex? (count : Nat) (answer : Json) : Option Nat :=
  (((answer.get? "id").bind Json.asUInt64?).map UInt64.toNat).filter (· < count)

/-- An element with an answer filled in: its error, or else its result. -/
def fill (call : Rpc.BatchElement) (answer : Json) : Rpc.BatchElement :=
  match Rpc.errorMember? answer with
  | some error => { call with error := some (Rpc.nodeError error).message }
  | none => { call with result := answer.get? "result" }

/-- Fills in the answers one after another; each element comes with whether it
has been answered. -/
def fillAll : List (Rpc.BatchElement × Bool) → List Json →
    Except RpcError (List (Rpc.BatchElement × Bool))
  | slots, [] => .ok slots
  | slots, answer :: rest =>
    match answeredIndex? slots.length answer with
    | none => .error (.request "Batch response with unknown id")
    | some i => fillAll (slots.modify i fun (call, _) => (fill call answer, true)) rest

/-- An element that got no answer has failed. -/
def settle : Rpc.BatchElement × Bool → Rpc.BatchElement
  | (call, true) => call
  | (call, false) => { call with error := some "no response for batch element" }

/-- Sends every element in one batch and fills in what the node answers. -/
def sendBatchElements (t : Transport σ) (calls : List Rpc.BatchElement) :
    Workflow σ RpcError (List Rpc.BatchElement) := do
  let answers ← t.sendRequests (batchRequests calls)
  let slots ← ofExcept (fillAll (calls.map (·, false)) answers)
  return slots.map settle

end ChainAccess.Transport
