import ChainAccess.Backoff
import ChainAccess.Gas.Policy
-- The settings of a network: its chain, its endpoints with their weights, the
-- gas settings and how calls are repeated. `validate` refuses settings that no
-- workflow could run with, the first flaw in a fixed order.

namespace ChainAccess

/-- A configured endpoint. -/
structure RpcUrl where
  kind : String
  url : String
  weight : UInt32
  deriving DecidableEq, Repr

namespace RpcUrl

/-- The fields of an endpoint. -/
def shape : Json.Shape :=
  ⟨[Json.field "type_" Json.readString, Json.field "url" Json.readString,
    Json.field "weight" Json.readUInt32], false⟩

/-- Reads an endpoint. -/
def read : Json.Read RpcUrl := fun v => do
  let r ← shape.read v
  return ⟨← r.get "type_" Json.readString, ← r.get "url" Json.readString,
    ← r.get "weight" Json.readUInt32⟩

/-- An endpoint in JSON. -/
def toJson (u : RpcUrl) : Json :=
  .obj [("type_", .str u.kind), ("url", .str u.url), ("weight", .ofUInt64 u.weight.toUInt64)]

/-- Whether requests can go to the endpoint. -/
def isUsable (u : RpcUrl) : Bool := u.kind = "rpc" && 0 < u.weight

end RpcUrl

/-- The settings of a network. -/
structure Network where
  slug : String
  name : String
  chainId : UInt64
  rpcUrls : List RpcUrl
  gas : Gas.Policy
  backoff : Backoff
  /-- The longest that one attempt may take, in milliseconds. -/
  timeout : UInt64
  deriving DecidableEq, Repr

namespace Network

/-- The time for one attempt where none is set. -/
def defaultTimeout : UInt64 := 10000

/-! ## JSON -/

/-- The fields of a network. -/
def shape : Json.Shape :=
  ⟨[Json.field "slug" Json.readString, Json.field "name" Json.readString,
    Json.field "chain_id" Json.readUInt64, Json.field "rpc_urls" (Json.readList RpcUrl.read),
    Json.defaultedField "gas" Gas.Policy.read, Json.defaultedField "retry" Backoff.read,
    Json.defaultedField "rpc_timeout_ms" Json.readUInt64], false⟩

/-- Reads the settings of a network. -/
def read : Json.Read Network := fun v => do
  let r ← shape.read v
  return {
    slug := ← r.get "slug" Json.readString
    name := ← r.get "name" Json.readString
    chainId := ← r.get "chain_id" Json.readUInt64
    rpcUrls := ← r.get "rpc_urls" (Json.readList RpcUrl.read)
    gas := ← r.getD "gas" Gas.Policy.read .default
    backoff := ← r.getD "retry" Backoff.read .default
    timeout := ← r.getD "rpc_timeout_ms" Json.readUInt64 defaultTimeout }

/-- The settings in JSON. -/
def toJson (n : Network) : Json :=
  .obj [("slug", .str n.slug), ("name", .str n.name), ("chain_id", .ofUInt64 n.chainId),
    ("rpc_urls", .arr (n.rpcUrls.map RpcUrl.toJson)), ("gas", n.gas.toJson),
    ("retry", n.backoff.toJson), ("rpc_timeout_ms", .ofUInt64 n.timeout)]

/-! ## Endpoints -/

/-- The endpoints that requests can go to, the heavier ones first and in the
configured order among equals. -/
def usableUrls (n : Network) : List RpcUrl :=
  (n.rpcUrls.filter RpcUrl.isUsable).mergeSort fun a b => b.weight ≤ a.weight

/-! ## Flaws -/

/-- What makes the settings of a network unusable. -/
inductive Flaw where
  | slug | chainId | urlKind | urlScheme | urlWeight | noUsableUrl | gasFactor | limitOverride
  | attempts | initialDelay | timeout
  deriving DecidableEq, Repr

/-- The words for a flaw. -/
def Flaw.message : Flaw → String
  | .slug => "Slug must contain only lowercase letters, numbers, and underscores"
  | .chainId => "Chain id must be greater than 0"
  | .urlKind => "RPC URL type must be one of: rpc"
  | .urlScheme => "All RPC URLs must start with http:// or https://"
  | .urlWeight => "All RPC URL weights must be between 0 and 100"
  | .noUsableUrl => "At least one RPC URL with a non-zero weight is required"
  | .gasFactor => "Gas multipliers must be positive"
  | .limitOverride => "Gas limit override must be greater than 0"
  | .attempts => "Retry budget must allow at least one attempt"
  | .initialDelay => "Initial retry delay must not exceed the maximum delay"
  | .timeout => "RPC timeout must be greater than 0"

/-- Whether a character may stand in a slug. -/
def isSlugChar (c : Char) : Bool := c.isLower || c.isDigit || c = '_'

/-- Whether the settings have the flaw. -/
def has (n : Network) : Flaw → Bool
  | .slug => n.slug.isEmpty || !n.slug.toList.all isSlugChar
  | .chainId => n.chainId = 0
  | .urlKind => !n.rpcUrls.all (·.kind = "rpc")
  | .urlScheme => !n.rpcUrls.all fun u => u.url.startsWith "http://" || u.url.startsWith "https://"
  | .urlWeight => !n.rpcUrls.all (·.weight ≤ 100)
  | .noUsableUrl => n.usableUrls.isEmpty
  | .gasFactor => !n.gas.priceFactor.isPositive || !n.gas.limitFactor.isPositive
  | .limitOverride => n.gas.limitOverride = some 0
  | .attempts => n.backoff.attempts = 0
  | .initialDelay => n.backoff.cap < n.backoff.initial
  | .timeout => n.timeout = 0

/-- Every flaw, in the order in which they are looked for. -/
def flaws : List Flaw :=
  [.slug, .chainId, .urlKind, .urlScheme, .urlWeight, .noUsableUrl, .gasFactor, .limitOverride,
   .attempts, .initialDelay, .timeout]

/-- Refuses settings with a flaw, by the first one. -/
def validate (n : Network) : Except Flaw Unit :=
  match flaws.find? n.has with
  | some flaw => .error flaw
  | none => .ok ()

end Network

end ChainAccess
