import ChainAccess.Client
import ChainAccess.Workflow.Attempts
-- A handle on a node: a transport, the time for one attempt, and the policy
-- of attempts. Each attempt first makes sure that the endpoint answers. An
-- attempt that runs out of time reports the endpoint it started on, so that
-- the next one goes elsewhere.

namespace ChainAccess

/-- A handle on a node. -/
structure Handle (σ : Type) where
  transport : Transport σ
  /-- The time for one attempt, in milliseconds. -/
  timeout : Nat
  backoff : Backoff

namespace Handle

open Workflow

variable {σ α : Type}

/-- The handle with another time for one attempt. -/
def withTimeout (h : Handle σ) (ms : Nat) : Handle σ := { h with timeout := ms }

/-- The handle with another policy of attempts. -/
def withBackoff (h : Handle σ) (b : Backoff) : Handle σ := { h with backoff := b }

/-- Makes sure that an endpoint answers, and names it. -/
def bestUrl (h : Handle σ) : Workflow σ RpcError String := do
  h.transport.ensureConnected
  h.transport.currentUrl

/-- What happens when an attempt that began on `url` runs out of time. -/
def expire (h : Handle σ) (url : String) : Workflow σ RpcError α := do
  let _ ← (h.transport.reportFailure url).caught
  fail (.timeout h.timeout)

/-- One attempt at an operation. -/
def attempt (h : Handle σ) (op : Workflow σ RpcError α) : Workflow σ RpcError α := do
  let url ← h.bestUrl
  op.within h.timeout (h.expire url)

/-- Attempts an operation under the policy; a final failure ends it at once. -/
def retrying (h : Handle σ) (op : Workflow σ RpcError α) : Workflow σ RpcError α :=
  h.backoff.run RpcError.isPassing (h.attempt op)

/-! ## Calls of a node -/

/-- The id of the chain. -/
def chainId (h : Handle σ) : Workflow σ RpcError UInt64 := h.retrying h.transport.chainId

/-- The number of the most recent block. -/
def blockNumber (h : Handle σ) : Workflow σ RpcError UInt64 := h.retrying h.transport.blockNumber

/-- The header of the most recent block. -/
def latestBlock (h : Handle σ) : Workflow σ RpcError BlockHeader :=
  h.retrying h.transport.latestBlock

/-- The balance of an account. -/
def balance (h : Handle σ) (address : Address) : Workflow σ RpcError Word :=
  h.retrying (h.transport.balance address)

/-- The next nonce of an account; the node is asked every time. -/
def pendingNonce (h : Handle σ) (address : Address) : Workflow σ RpcError UInt64 :=
  h.retrying (h.transport.pendingNonce address)

/-- The gas price that the node suggests. -/
def suggestedGasPrice (h : Handle σ) : Workflow σ RpcError Word := h.retrying h.transport.gasPrice

/-- The gas that a call would use. -/
def estimateGas (h : Handle σ) (request : CallRequest) : Workflow σ RpcError UInt64 :=
  h.retrying (h.transport.estimateGas request)

/-- The return data of a call. -/
def call (h : Handle σ) (request : CallRequest) : Workflow σ RpcError Bytes :=
  h.retrying (h.transport.call request)

/-- The log entries that a filter asks for. -/
def logs (h : Handle σ) (filter : LogFilter) : Workflow σ RpcError (List LogEntry) :=
  h.retrying (h.transport.logs filter)

/-- The receipt of a transaction, none while it is pending. -/
def receipt (h : Handle σ) (hash : Hash) : Workflow σ RpcError (Option Receipt) :=
  h.retrying (h.transport.receipt hash)

end Handle

end ChainAccess
