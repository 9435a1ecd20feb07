import ChainAccess.Http.Status
import ChainAccess.Json.Reader
import ChainAccess.Rpc.Error
-- The pool of endpoints: which there are, which one is in use, what is known
-- of each, and whether the one in use passed a check since it last failed.
-- Every change of the pool is one of the operations below.

namespace ChainAccess

/-- An endpoint and what was last seen of it. -/
structure Endpoint where
  url : String
  weight : UInt32
  /-- Cleared when a request or a check fails. -/
  healthy : Bool
  /-- How long its last successful check took, in milliseconds. -/
  latency : Option Nat
  deriving DecidableEq, Repr

/-- A pool of endpoints in order of preference. -/
structure Pool where
  endpoints : List Endpoint
  /-- The place of the endpoint in use. -/
  active : Nat
  /-- Whether the endpoint in use passed a check since it last failed. -/
  verified : Bool
  deriving DecidableEq, Repr

namespace Pool

/-- A pool of the endpoints, the first in use and none checked; there must be
one. -/
def ofUrls (urls : List (String × UInt32)) : Except RpcError Pool :=
  if urls.isEmpty then .error (.config "No RPC endpoints configured")
  else .ok ⟨urls.map fun (url, weight) => ⟨url, weight, true, none⟩, 0, false⟩

/-- The URL of the endpoint at a place. -/
def urlAt (p : Pool) (i : Nat) : String := (p.endpoints[i]?.map (·.url)).getD ""

/-- The URL of the endpoint in use. -/
def activeUrl (p : Pool) : String := p.urlAt p.active

/-- The places of all endpoints. -/
def places (p : Pool) : List Nat := List.range p.endpoints.length

/-- Whether the endpoint at a place counts as healthy. -/
def isHealthy (p : Pool) (i : Nat) : Bool := (p.endpoints[i]?.map (·.healthy)).getD false

/-! ## Candidates -/

/-- The endpoint in use, then the others in order. -/
def activeFirst (p : Pool) : List Nat :=
  p.places.filter (· = p.active) ++ p.places.filter (· ≠ p.active)

/-- The endpoints but the one in use, the healthy ones first. -/
def alternatives (p : Pool) : List Nat :=
  let others := p.places.filter (· ≠ p.active)
  others.filter p.isHealthy ++ others.filter (!p.isHealthy ·)

/-! ## Changes -/

/-- The endpoint in use has failed. -/
def demote (p : Pool) : Pool :=
  { p with
    endpoints := p.endpoints.modify p.active fun e => { e with healthy := false }
    verified := false }

/-- An endpoint passed its check. -/
def markReached (p : Pool) (i : Nat) (elapsed : Nat) : Pool :=
  { p with
    endpoints := p.endpoints.modify i fun e =>
      { e with healthy := true, latency := some elapsed } }

/-- An endpoint failed its check. -/
def markFailed (p : Pool) (i : Nat) : Pool :=
  { p with endpoints := p.endpoints.modify i fun e => { e with healthy := false } }

/-- Takes an endpoint that passed its check into use. -/
def activate (p : Pool) (i : Nat) : Pool := { p with active := i, verified := true }

end Pool

/-! ## Answers of endpoints -/

namespace Http

/-- What comes back for a request: nothing, or a status and a body. -/
inductive Answer where
  | failed (message : String)
  | answered (status : Nat) (body : String)
  deriving DecidableEq, Repr

/-- What an answer means to the sender of a request. -/
inductive Verdict where
  /-- The call ends with this result. -/
  | final (result : Except RpcError Json)
  /-- Another endpoint should be asked; this is the failure of this one. -/
  | leave (failure : RpcError)

/-- Judges an answer of the endpoint at `url`. -/
def Answer.verdict (url : String) : Answer → Verdict
  | .failed message => .leave (.connection (url ++ ": " ++ message))
  | .answered status body =>
    if isSuccess status then
      match Json.parse? body with
      | some v => .final (.ok v)
      | none => .final (.error (.request "Failed to parse JSON response: not a JSON text"))
    else
      let failure := RpcError.http status (statusText status body)
      if leavingStatuses.contains status then .leave failure else .final (.error failure)

end Http

end ChainAccess
