import ChainAccess.Gas.Estimator
import ChainAccess.Transaction.Prepared
-- From a plan to a mined transaction. A build asks for the key, the pending
-- nonce, the gas price and the gas limit, in this order, and asks the node
-- anew every time. Sending signs once and repeats only the broadcast; a node
-- that has the transaction already counts as reached.

namespace ChainAccess

open Workflow
open Secp256k1 (PrivateKey)

/-- What unlocks the key of an account: by its address, its password and the
place of the keystores. -/
abbrev AccountProvider : Type := Address → String → String → Except AccountError PrivateKey

/-- What builds transactions. -/
structure TransactionBuilder where
  accounts : AccountProvider
  /-- The contract that knows how many values a staker has to reveal. -/
  assignments : Option Contract

namespace TransactionBuilder

variable {σ : Type}

/-- The estimator for the gas settings of a plan. -/
def estimator (b : TransactionBuilder) (plan : TransactionPlan) : Gas.Estimator :=
  ⟨plan.gas, b.assignments⟩

/-- Makes a plan ready to be signed. -/
def build (b : TransactionBuilder) (h : Handle σ) (plan : TransactionPlan) :
    Workflow σ TransactionError PreparedTransaction := do
  let key ← ofExcept ((b.accounts plan.account plan.password plan.keystorePath).mapError .account)
  let nonce ← (h.pendingNonce plan.account).withError .rpc
  let price ← (b.estimator plan).price h
  let limit ← (b.estimator plan).limit h plan price
  return ⟨key.address, nonce, price, limit, plan.value.getD 0, plan.chainId, key⟩

/-- Broadcasts a signed transaction once. -/
def broadcast (t : Transport σ) (hash : Hash) (raw : Bytes) : Workflow σ RpcError Hash := do
  match ← (t.sendRawTransaction raw).caught with
  | .ok sent => pure sent
  | .error e => if e.isAlreadyKnown then pure hash else fail e

/-- Builds, signs and broadcasts a plan. -/
def submit (b : TransactionBuilder) (h : Handle σ) (plan : TransactionPlan) :
    Workflow σ TransactionError Hash := do
  let prepared ← b.build h plan
  let data ← ofExcept (plan.callData.mapError .rpc)
  let (hash, raw) ← ofExcept (prepared.sign plan.contract data)
  (h.retrying (broadcast h.transport hash raw)).withError .rpc

/-! ## Confirmation -/

/-- Asks for the receipt until there is one; `left` reads are still to come,
and the waits lie between them. -/
def pollFrom (h : Handle σ) (hash : Hash) (polls : UInt32) (interval : Nat) :
    Nat → Workflow σ TransactionError Receipt
  | 0 => fail (.unconfirmed hash polls)
  | left + 1 => do
    match ← (h.receipt hash).withError .rpc with
    | some receipt => pure receipt
    | none => do
      if left = 0 then pure () else sleep interval
      pollFrom h hash polls interval left

/-- Waits for the receipt of a transaction, asking so many times at most. -/
def waitForReceipt (h : Handle σ) (hash : Hash) (polls : UInt32) (interval : Nat) :
    Workflow σ TransactionError Receipt :=
  pollFrom h hash polls interval polls.toNat

end TransactionBuilder

end ChainAccess
