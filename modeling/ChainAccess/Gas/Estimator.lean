import ChainAccess.Amount.Scaling
import ChainAccess.Contract.Binding
import ChainAccess.Transaction.Error
import ChainAccess.Transaction.Plan
-- The gas price and the gas limit of a transaction. A price that the node does
-- not suggest is replaced by the configured floor. A limit that cannot be
-- estimated is replaced in steps: behind a failing gateway by the last known
-- estimate or the override, capped at the limit of the latest block; after any
-- other failure by the override; and without an override the failure stands.

namespace ChainAccess.Gas

open Workflow

variable {σ : Type}

/-- What estimates gas: the settings, and the contract that knows how many
values a staker has to reveal. -/
structure Estimator where
  policy : Policy
  assignments : Option Contract

/-- The gas of a plain transfer. -/
def transferLimit : UInt64 := 21000

/-- The method whose gas grows with the number of assigned values. -/
def revealMethod : String := "reveal"

/-- The method that tells the number of assigned values. -/
def assignmentMethod : String := "toAssign"

/-! ## Price -/

/-- The larger of the floor and the suggested price. -/
def basePrice (floor : Word) : Option Word → Word
  | none => floor
  | some price => if price.toNat ≤ floor.toNat then floor else price

namespace Estimator

/-- The price of a unit of gas; it never fails. -/
def price (e : Estimator) (h : Handle σ) : Workflow σ TransactionError Word := do
  let suggested ← h.suggestedGasPrice.caught
  return (basePrice (gweiToWei e.policy.floorGwei) suggested.toOption).scale e.policy.priceFactor

/-! ## Limit -/

/-- The contract that tells the number of assigned values: the one given, or
the one called if it has the method. -/
def assignmentSource? (e : Estimator) (plan : TransactionPlan) : Option Contract :=
  match e.assignments with
  | some c => some c
  | none =>
    if (plan.interface.overloads assignmentMethod).isEmpty then none
    else some ⟨"reveal target", plan.contract, plan.interface⟩

/-- The number of assigned values among what the method returned. -/
def assignmentCount : List Abi.Value → Except RpcError UInt64
  | .uint word _ :: _ => .ok word.toUInt64Sat
  | _ => .error (.decoding "toAssign did not return an integer")

/-- The gas that a reveal needs for the values assigned to the staker. -/
def surcharge (e : Estimator) (h : Handle σ) (plan : TransactionPlan) :
    Workflow σ RpcError UInt64 := do
  match e.assignmentSource? plan with
  | none => pure 0
  | some c =>
    let values ← c.callRetrying h assignmentMethod []
    let count ← ofExcept (assignmentCount values)
    pure (mulSat count e.policy.gasPerAssignment)

/-- The call that is estimated for a plan. -/
def simulated (plan : TransactionPlan) (price : Word) (data : Bytes) : CallRequest :=
  ⟨some plan.account, plan.contract, some price, plan.value, data⟩

/-- The estimate of a plan before any factor, with what a reveal needs beyond
the call itself. -/
def estimate (e : Estimator) (h : Handle σ) (plan : TransactionPlan) (price : Word)
    (data : Bytes) : Workflow σ RpcError UInt64 := do
  let gas ← h.estimateGas (simulated plan price data)
  if plan.method = revealMethod then
    let more ← e.surcharge h plan
    pure (addSat gas more)
  else pure gas

/-- The limit behind a failing gateway. -/
def behindGateway (e : Estimator) (h : Handle σ) (method : String) :
    Workflow σ TransactionError UInt64 := do
  match ← h.latestBlock.caught with
  | .error failure =>
    match e.policy.limitOverride with
    | some limit => pure limit
    | none => fail (.gasEstimation ("Failed to fetch latest block: " ++ failure.message))
  | .ok block =>
    let known := (← world).estimates.get? method
    let base := (known <|> e.policy.limitOverride).getD block.gasLimit
    pure (raise base e.policy.limitFactor block.gasLimit)

/-- The gas limit of a plan at a price. -/
def limit (e : Estimator) (h : Handle σ) (plan : TransactionPlan) (price : Word) :
    Workflow σ TransactionError UInt64 := do
  if plan.isTransfer then pure transferLimit
  else
    let data ← ofExcept (plan.callData.mapError .rpc)
    match ← (e.estimate h plan price data).caught with
    | .ok gas => do
      change fun w => { w with estimates := w.estimates.record plan.method gas }
      pure (scale gas e.policy.limitFactor)
    | .error failure =>
      if failure.isGateway then e.behindGateway h plan.method
      else
        match e.policy.limitOverride with
        | some limit => pure limit
        | none => fail (.rpc failure)

end Estimator

end ChainAccess.Gas
