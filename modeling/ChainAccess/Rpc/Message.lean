import ChainAccess.Json.Basic
import ChainAccess.Json.Printer
import ChainAccess.Rpc.Error
import ChainAccess.Chain.Address
-- The messages of JSON-RPC: requests, answers, batches and the errors that
-- an answer may carry.

namespace ChainAccess.Rpc

/-! ## Requests -/

/-- A single request; without parameters it carries `null`. -/
def request (method : String) (params : Option Json) : Json :=
  .obj [("jsonrpc", .str "2.0"), ("id", .ofUInt64 1), ("method", .str method),
    ("params", params.getD .null)]

/-- The request that checks whether an endpoint answers at all. -/
def healthCheck : Json :=
  .obj [("id", .ofUInt64 1), ("jsonrpc", .str "2.0"), ("method", .str "eth_chainId"),
    ("params", .arr [])]

/-- The tag of the most recent block. -/
def latest : String := "latest"

/-- The tag of the state with all pending transactions. -/
def pending : String := "pending"

/-! ## Answers -/

/-- The error that an answer carries; `null` stands for none. -/
def errorMember? (answer : Json) : Option Json :=
  (answer.get? "error").filter (!·.isNull)

/-- An error of the node; data that comes with it follows in parentheses. -/
def nodeError (error : Json) : RpcError :=
  let code := ((error.get? "code").bind Json.asInt?).getD 0
  let words := ((error.get? "message").bind Json.asStr?).getD "unknown error"
  match (error.get? "data").bind Json.asStr? with
  | some data => .node code (words ++ " (" ++ data ++ ")")
  | none => .node code words

/-- The result of an answer. -/
def result (answer : Json) : Except RpcError Json :=
  match errorMember? answer with
  | some error => .error (nodeError error)
  | none =>
    match answer.get? "result" with
    | some v => .ok v
    | none => .error (.request "Missing 'result' field")

/-- The answers of a batch. A node that refuses the whole batch answers with
one object; an error in it, `null` too, is an error of the node. -/
def batchAnswers (answer : Json) : Except RpcError (List Json) :=
  match answer with
  | .arr items => .ok items
  | .obj members =>
    match Json.lookup "error" members with
    | some error =>
      .error (.node (((error.get? "code").bind Json.asInt?).getD 0)
        (((error.get? "message").bind Json.asStr?).getD ""))
    | none => .error (.request "Batch response is not an array")
  | _ => .error (.request "Batch response is not an array")

/-! ## Elements of a batch -/

/-- A call inside a batch, with the places for its result or its error. -/
structure BatchElement where
  method : String
  args : List Json
  result : Option Json
  error : Option String
  deriving BEq, Repr

/-- A call of a contract at the most recent block. -/
def BatchElement.ethCall (target : Address) (data : Bytes) : BatchElement :=
  ⟨"eth_call", [.obj [("to", target.toJson), ("data", data.toJson)], .str latest], none, none⟩

/-- The request for an element with the number `id`. -/
def BatchElement.request (e : BatchElement) (id : Nat) : Json :=
  .obj [("jsonrpc", .str "2.0"), ("id", .ofUInt64 (UInt64.ofNat id)), ("method", .str e.method),
    ("params", .arr e.args)]

end ChainAccess.Rpc
