import ChainAccess.Gas.Estimator
import ChainAccess.Pool.Http
-- A diagnosis of a network: what a staker would work with. It is a list of
-- sections, each of which asks the node and gives findings; the first section
-- that fails ends it, and the findings before it stay.

namespace ChainAccess

/-! ## Findings -/

/-- How grave a finding is, the gravest first; `off` is graver than all. -/
inductive Level where
  | off | error | warn | info | debug | trace
  deriving DecidableEq, Repr

namespace Level

/-- The place of a level among all. -/
def rank : Level → Nat
  | .off => 0
  | .error => 1
  | .warn => 2
  | .info => 3
  | .debug => 4
  | .trace => 5

/-- The name of a level. -/
def name : Level → String
  | .off => "OFF"
  | .error => "ERROR"
  | .warn => "WARN"
  | .info => "INFO"
  | .debug => "DEBUG"
  | .trace => "TRACE"

/-- All levels. -/
def all : List Level := [.off, .error, .warn, .info, .debug, .trace]

/-- The level that a text writes, by name in any case or by rank. -/
def ofString? (s : String) : Option Level :=
  all.find? fun l => s.toUpper = l.name || s = toString l.rank

end Level

/-- A finding: a message and the values that belong to it. -/
structure Finding where
  level : Level
  message : String
  fields : List (String × String)
  deriving DecidableEq, Repr

/-- The finding in one line. -/
def Finding.line (f : Finding) : String :=
  " ".intercalate (f.level.name :: f.message :: f.fields.map fun (k, v) => k ++ "=" ++ v)

/-- Whether the finding is shown when `least` is the least grave level shown. -/
def Finding.isShown (least : Level) (f : Finding) : Bool := f.level.rank ≤ least.rank

/-! ## Sections -/

namespace Diagnosis

open Workflow

variable {ω : Type}

/-- What asks the node through a pool. -/
abbrev Inquiry (ω α : Type) : Type := Workflow (Pool.Site ω) RpcError α

/-- The endpoint in use. -/
def connection (h : Handle (Pool.Site ω)) : Inquiry ω (List Finding) := do
  let url ← h.bestUrl
  return [⟨.info, "Connected", [("endpoint", url)]⟩]

/-- Whether the node is on the configured chain. -/
def chain (n : Network) (h : Handle (Pool.Site ω)) : Inquiry ω (List Finding) := do
  let id ← h.chainId
  if id = n.chainId then
    return [⟨.info, "Chain id matches configuration", [("chain_id", toString id.toNat)]⟩]
  else
    return [⟨.warn, "Endpoint reports a different chain id",
      [("configured", toString n.chainId.toNat), ("reported", toString id.toNat)]⟩]

/-- The most recent block. -/
def block (h : Handle (Pool.Site ω)) : Inquiry ω (List Finding) := do
  let b ← h.latestBlock
  return [⟨.info, "Latest block",
    [("number", toString b.number.toNat), ("gas_limit", toString b.gasLimit.toNat),
     ("timestamp", toString b.timestamp.toNat)]⟩]

/-- The gas price that a transaction would pay. -/
def gasPrice (n : Network) (h : Handle (Pool.Site ω)) : Inquiry ω (List Finding) := do
  let estimator : Gas.Estimator := ⟨n.gas, none⟩
  match ← (estimator.price h).caught with
  | .ok price => return [⟨.info, "Gas price", [("gas_price", toString price.toNat)]⟩]
  | .error _ => return []

/-- The balance and the next nonce of the account, if one is given. -/
def account (h : Handle (Pool.Site ω)) : Option Address → Inquiry ω (List Finding)
  | none => return []
  | some a => do
    let balance ← h.balance a
    let nonce ← h.pendingNonce a
    return [⟨.info, "Account",
      [("account", a.checksummed), ("balance", toString balance.toNat),
       ("nonce", toString nonce.toNat)]⟩]

/-- An endpoint and what is known of it; a latency never measured is left
out. -/
def ofEndpoint (e : Endpoint) : Finding :=
  ⟨.info, "Endpoint",
    [("url", e.url), ("weight", toString e.weight.toNat), ("healthy", toString e.healthy)] ++
      (e.latency.map fun ms => ("latency_ms", toString ms)).toList⟩

/-- All endpoints of the pool. -/
def endpoints : Inquiry ω (List Finding) := do
  return (← world).node.pool.endpoints.map ofEndpoint

/-- The sections in order. -/
def sections (n : Network) (h : Handle (Pool.Site ω)) (a : Option Address) :
    List (Inquiry ω (List Finding)) :=
  [connection h, chain n h, block h, gasPrice n h, account h a, endpoints]

/-! ## The whole diagnosis -/

/-- Runs sections in a world: their findings, and the failure that ended
them. -/
def report : List (Inquiry ω (List Finding)) → World (Pool.Site ω) → List Finding × Option RpcError
  | [], _ => ([], none)
  | s :: rest, w =>
    match s.run w with
    | (.done found, w) =>
      let (more, failure) := report rest w
      (found ++ more, failure)
    | (.failed e, _) => ([], some e)
    | (.expired, _) => ([], none)

/-- Diagnoses a network over a line. -/
def run (n : Network) (a : Option Address) (l : Pool.Line ω) (w : ω) :
    List Finding × Option RpcError :=
  match Handle.ofNetwork n l w with
  | .error e => ([], some e)
  | .ok (h, site) => report (sections n h a) (.start site)

end Diagnosis

end ChainAccess
