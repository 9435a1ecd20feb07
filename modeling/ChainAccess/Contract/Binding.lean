import ChainAccess.Abi.Interface
import ChainAccess.Handle
-- A contract on the chain: where it is and what its functions are. A call
-- picks the function by name and number of arguments, encodes the arguments,
-- and decodes what comes back by the same function.

namespace ChainAccess

/-- A contract on the chain. -/
structure Contract where
  name : String
  address : Address
  interface : Abi.Interface
  deriving Repr

namespace Contract

open Workflow

variable {σ : Type}

/-- A contract with the interface that a text writes. -/
def ofText (name : String) (address : Address) (text : String) : Except RpcError Contract :=
  match Abi.Interface.ofString? text with
  | some i => .ok ⟨name, address, i⟩
  | none => .error (.config ("Invalid ABI for " ++ name ++ ": not an interface"))

/-- Calls a method once. -/
def call (c : Contract) (t : Transport σ) (method : String) (args : List Abi.Value) :
    Workflow σ RpcError (List Abi.Value) := do
  let f ← ofExcept (c.interface.find method (some args.length))
  let data ← ofExcept (f.callData args)
  let output ← t.call (.reading c.address data)
  ofExcept (f.returned output)

/-- Calls a method under the policy of attempts. -/
def callRetrying (c : Contract) (h : Handle σ) (method : String) (args : List Abi.Value) :
    Workflow σ RpcError (List Abi.Value) :=
  h.retrying (c.call h.transport method args)

end Contract

end ChainAccess
