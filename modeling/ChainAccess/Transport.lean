import ChainAccess.Rpc.Message
import ChainAccess.Workflow.Basic
-- A transport carries requests to a node and answers back. It is told how
-- much time is left for the answer; one that takes longer is cut off, and
-- the transport then stands where it was left.

namespace ChainAccess

/-- What comes of a call through a transport: the answer unless the time ran
out first, the time taken, and the transport afterwards. -/
structure Reply (σ α : Type) where
  answer : Option (Except RpcError α)
  elapsed : Nat
  node : σ

/-- A way to a node, with `σ` for everything that changes on it. -/
structure Transport (σ : Type) where
  /-- The endpoint that requests go to. -/
  url : σ → String
  /-- Makes sure that the endpoint answers, changing to another if need be. -/
  connect : Option Nat → σ → Reply σ Unit
  send : Json → Option Nat → σ → Reply σ Json
  sendBatch : List Json → Option Nat → σ → Reply σ (List Json)
  /-- Tells that a request to the endpoint got no answer in time. -/
  report : String → Option Nat → σ → Reply σ Unit

namespace Transport

variable {σ α : Type}

open Workflow

/-- A call through a transport under the deadline of the workflow. -/
def exchange (call : Option Nat → σ → Reply σ α) : Workflow σ RpcError α := fun deadline w =>
  let left := deadline.map (· - w.clock)
  let r := call left w.node
  let clock := w.clock + left.elim r.elapsed (min r.elapsed)
  let w := { w with clock := clock, node := r.node }
  match r.answer with
  | some (.ok a) => (.done a, w)
  | some (.error e) => (.failed e, w)
  | none => (.expired, w)

/-- The endpoint that requests go to now. -/
def currentUrl (t : Transport σ) : Workflow σ RpcError String := do
  return t.url (← world).node

/-- Makes sure that the endpoint answers. -/
def ensureConnected (t : Transport σ) : Workflow σ RpcError Unit := do
  match ← (exchange t.connect).caught with
  | .ok () => note (.connect true)
  | .error e => do
    note (.connect false)
    fail e

/-- Sends a request and gives back the whole answer. -/
def sendRequest (t : Transport σ) (method : String) (params : Option Json) :
    Workflow σ RpcError Json := do
  let request := Rpc.request method params
  note (.send request)
  exchange (t.send request)

/-- Sends a batch and gives back the answers, in any order. -/
def sendRequests (t : Transport σ) (requests : List Json) : Workflow σ RpcError (List Json) := do
  note (.sendBatch requests)
  exchange (t.sendBatch requests)

/-- Tells that a request to the endpoint got no answer in time. -/
def reportFailure (t : Transport σ) (url : String) : Workflow σ RpcError Unit := do
  note (.report url)
  exchange (t.report url)

/-! ## A transport without a pool -/

/-- A transport that only sends: it has no endpoints to choose from, counts as
connected, and ignores reports. -/
def ofSend (url : String) (send : Json → Option Nat → σ → Reply σ Json)
    (sendBatch : List Json → Option Nat → σ → Reply σ (List Json)) : Transport σ where
  url _ := url
  connect _ s := ⟨some (.ok ()), 0, s⟩
  send := send
  sendBatch := sendBatch
  report _ _ s := ⟨some (.ok ()), 0, s⟩

end Transport

end ChainAccess
