import ChainAccess.Abi.Interface
import ChainAccess.Gas.Policy
-- Plans of transactions: who calls which method of which contract with what,
-- on which chain, under which gas settings. A plan without a method is a plain
-- transfer. Shown in a log, a plan hides its password.

namespace ChainAccess

/-- A transaction to be made. -/
structure TransactionPlan where
  account : Address
  password : String
  keystorePath : String
  contract : Address
  interface : Abi.Interface
  method : String
  args : List Abi.Value
  chainId : UInt64
  gas : Gas.Policy
  /-- The wei that go with the call. -/
  value : Option Word

namespace TransactionPlan

/-- Whether the plan is a plain transfer. -/
def isTransfer (p : TransactionPlan) : Bool := p.method.isEmpty

/-- The data of the call; a plain transfer has none. -/
def callData (p : TransactionPlan) : Except RpcError Bytes :=
  if p.isTransfer then .ok [] else p.interface.callData p.method p.args

/-- An optional value as a log shows it. -/
def optionText {α : Type} (text : α → String) : Option α → String
  | none => "None"
  | some a => "Some(" ++ text a ++ ")"

/-- A number of 64 bits as a log shows it. -/
def numberText (n : UInt64) : String := toString n.toNat

/-- Fields with their values as a log shows them. -/
def recordText (name : String) (fields : List (String × String)) (more : Bool) : String :=
  name ++ " \x7b " ++ ", ".intercalate (fields.map fun (k, v) => k ++ ": " ++ v) ++
    (if more then ", .. \x7d" else " \x7d")

/-- Gas settings as a log shows them. -/
def policyText (g : Gas.Policy) : String :=
  recordText "GasConfig"
    [("gas_multiplier", g.priceFactor.text), ("gas_price_gwei", numberText g.floorGwei),
     ("gas_limit_multiplier", g.limitFactor.text),
     ("gas_limit_override", optionText numberText g.limitOverride),
     ("reveal_gas_per_assignment", numberText g.gasPerAssignment)] false

/-- The plan as a log shows it. -/
def text (p : TransactionPlan) : String :=
  recordText "TransactionOptions"
    [("account", p.account.text), ("password", "\"<redacted>\""),
     ("keystore_path", Quoted.string p.keystorePath), ("contract_address", p.contract.text),
     ("method_name", Quoted.string p.method), ("parameters", "[" ++ Abi.Value.texts p.args ++ "]"),
     ("chain_id", numberText p.chainId), ("gas", policyText p.gas),
     ("value", optionText (fun w : Word => toString w.toNat) p.value)] false

end TransactionPlan

end ChainAccess
