import ChainAccess.Text.Lower
-- What can go wrong between a workflow and a node. Every failure is either
-- passing, so that another attempt may succeed, or final; and some failures
-- are those of a gateway in front of the node.

namespace ChainAccess

/-- A failure of a call to a node. -/
inductive RpcError where
  /-- The pool of endpoints is empty or wrongly set up. -/
  | config (message : String)
  /-- No endpoint passed its connectivity check. -/
  | noHealthyEndpoint
  /-- No answer came back. -/
  | connection (message : String)
  /-- The answer had another status than success. -/
  | http (status : Nat) (message : String)
  /-- The answer could not be understood. -/
  | request (message : String)
  /-- The node answered with an error of its own. -/
  | node (code : Int) (message : String)
  /-- An attempt took longer than allowed. -/
  | timeout (ms : Nat)
  /-- No operation has this name. -/
  | methodNotFound (name : String)
  /-- Arguments could not be turned into call data. -/
  | encoding (message : String)
  /-- Return data could not be turned into values. -/
  | decoding (message : String)
  /-- Some element of a batch failed. -/
  | batch (message : String)
  /-- An element of a batch came back without data. -/
  | emptyBatchResult
  /-- The node knows no such block. -/
  | blockNotFound (tag : String)
  /-- Something failed on this side. -/
  | internal (message : String)
  deriving DecidableEq, Repr, Inhabited

/-- A span of milliseconds in words: seconds from one second on, with the
shortest fraction. -/
def durationText (ms : Nat) : String :=
  if ms = 0 then "0ns"
  else if ms < 1000 then toString ms ++ "ms"
  else
    let digits := (Nat.toDigits 10 (1000 + ms % 1000)).drop 1
    let fraction := Text.trimEnd (· = '0') digits
    toString (ms / 1000) ++ String.ofList (if fraction.isEmpty then [] else '.' :: fraction) ++ "s"

namespace RpcError

/-- The words for a failure. -/
def message : RpcError → String
  | .config m => "Configuration error: " ++ m
  | .noHealthyEndpoint => "No healthy RPC endpoint available"
  | .connection m => "Connection error: " ++ m
  | .http status m => "HTTP " ++ toString status ++ " " ++ m
  | .request m => "Request error: " ++ m
  | .node code m => "RPC error " ++ toString code ++ ": " ++ m
  | .timeout ms => "Request timed out after " ++ durationText ms
  | .methodNotFound name => "Method not found: " ++ name
  | .encoding m => "Encoding error: " ++ m
  | .decoding m => "Decoding error: " ++ m
  | .batch m => "Batch call error: " ++ m
  | .emptyBatchResult => "empty batch call result"
  | .blockNotFound tag => "Block not found: " ++ tag
  | .internal m => "Internal error: " ++ m

/-- Whether another attempt may succeed. Failures of the setup, of a name, of
the ABI and of this side come again every time. -/
def isPassing : RpcError → Bool
  | .config _ | .methodNotFound _ | .encoding _ | .decoding _ | .emptyBatchResult
  | .internal _ => false
  | _ => true

/-- Words that a gateway in front of a node uses for its failures. -/
def gatewayWords : List String :=
  ["502 bad gateway", "503 service unavailable", "504 gateway timeout", "gateway timeout",
   "bad gateway"]

/-- Whether the words of a failure are those of a gateway, in any case. -/
def isGateway (e : RpcError) : Bool := Text.mentions gatewayWords e.message

/-- Words that a node uses for a transaction it already has. -/
def knownWords : List String := ["already known", "known transaction"]

/-- Whether the words of a failure say that the node has the transaction. -/
def isAlreadyKnown (e : RpcError) : Bool := Text.mentions knownWords e.message

end RpcError

end ChainAccess
