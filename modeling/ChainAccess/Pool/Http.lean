import ChainAccess.Handle
import ChainAccess.Network.Basic
import ChainAccess.Pool.Run
import ChainAccess.Url.Basic
-- The pool over HTTP. A request that meets a failing server, or no answer, is
-- sent again to the same endpoint, as often as the settings say, before the pool
-- hears of it; a throttled one is not. Connectivity checks are sent once.

namespace ChainAccess

/-- Brings a URL into its one form, without slashes at the end. -/
def Url.normalized (s : String) : Except RpcError String :=
  match Url.ofString s with
  | .error f => .error (.config ("Invalid URL " ++ s ++ ": " ++ f.message))
  | .ok u => .ok (String.ofList (Text.trimEnd (· = '/') u.chars))

namespace Pool

/-- What carries a single request over HTTP, with `ω` for all that changes. -/
structure Line (ω : Type) where
  post : Url → Json → ω → Timed ω Http.Answer

/-- The line on which no request gets through. -/
def Line.unreachable : Line Unit := ⟨fun _ _ w => ⟨.failed "error sending request", 0, w⟩⟩

/-- What comes of sending the same request again. -/
inductive Retryable where
  /-- It may fare better. -/
  | transient
  /-- It fares no better. -/
  | fatal
  deriving DecidableEq, Repr

/-- What the library makes of an answer: nothing of a success, and of the failures those pass
that the endpoint may be over with. Every failure of the network passes here; to the library
some do not, such as a certificate that is refused. -/
def Retryable.byDefault? : Http.Answer → Option Retryable
  | .failed _ => some .transient
  | .answered status _ =>
    if 500 ≤ status && status < 600 then some .transient
    else if status = 408 || status = 429 then some .transient
    else if 200 ≤ status && status < 300 then none
    else some .fatal

/-- How a line sends requests again. -/
structure Resending where
  /-- How often at most, the first time apart. -/
  retries : UInt32
  /-- What is worth sending again. -/
  strategy : Http.Answer → Option Retryable

/-- Once, and not to an endpoint that throttles: that is left to the choice of another one. -/
def Resending.default : Resending where
  retries := 1
  strategy
    | .answered 429 _ => some .fatal
    | answer => Retryable.byDefault? answer

/-- Checks an endpoint over a line. -/
def Line.check {ω : Type} (l : Line ω) (url : String) (w : ω) : Timed ω (Except RpcError Unit) :=
  match Url.ofString url with
  | .error _ => ⟨.error (.config ("Invalid URL: " ++ url)), 0, w⟩
  | .ok u =>
    let t := l.post u Rpc.healthCheck w
    let answer : Except RpcError Unit :=
      match t.answer with
      | .failed m => .error (.connection ("Failed to connect to " ++ u.text ++ ": " ++ m))
      | .answered status _ =>
        if Http.isFailure status then
          .error (.connection
            ("Health check failed for " ++ u.text ++ ": status " ++ toString status))
        else .ok ()
    ⟨answer, t.elapsed, t.wire⟩

/-- Sends a request over a line, up to `retries` more times while `again` says
so of the answer. The rest before each of them is no part of this: it is drawn at
random. -/
def Line.resend {ω : Type} (l : Line ω) (again : Http.Answer → Bool) (u : Url) (body : Json) :
    Nat → ω → Timed ω Http.Answer
  | 0, w => l.post u body w
  | retries + 1, w =>
    let first := l.post u body w
    if again first.answer then
      let rest := l.resend again u body retries first.wire
      ⟨rest.answer, first.elapsed + rest.elapsed, rest.wire⟩
    else first

/-- Whether an answer is worth sending the request again. -/
def Resending.again (r : Resending) (answer : Http.Answer) : Bool :=
  r.strategy answer = some .transient

/-- Sends a request over a line, and again as the settings say. -/
def Line.send {ω : Type} (l : Line ω) (r : Resending) (url : String) (body : Json) (w : ω) :
    Timed ω Http.Answer :=
  match Url.ofString url with
  | .error _ => ⟨.failed "builder error", 0, w⟩
  | .ok u => l.resend r.again u body r.retries.toNat w

/-- The wire over a line. -/
def Line.wire {ω : Type} (l : Line ω) : Wire ω where
  check := l.check
  update url w := ⟨(Url.normalized url).map fun _ => (), 0, w⟩
  post := l.send .default

/-- The pool of the usable endpoints of a network. -/
def ofNetwork (n : Network) : Except RpcError Pool :=
  if n.usableUrls.isEmpty then
    .error (.config ("Network " ++ n.slug ++ " has no usable RPC endpoints"))
  else do
    let urls ← n.usableUrls.mapM fun u => (Url.normalized u.url).map fun url => (url, u.weight)
    ofUrls urls

/-- A pool at a wire, nothing asked yet. -/
def site {ω : Type} (p : Pool) (w : ω) : Site ω := ⟨p, w, 0, []⟩

end Pool

/-- A client of a network over a line: the transport through its pool, and the pool as it
starts. -/
def Transport.ofNetwork {ω : Type} (n : Network) (l : Pool.Line ω) (w : ω) :
    Except RpcError (Transport (Pool.Site ω) × Pool.Site ω) := do
  let pool ← Pool.ofNetwork n
  return (Pool.transport l.wire, pool.site w)

/-- The handle on a network over a line, and its pool as it starts. -/
def Handle.ofNetwork {ω : Type} (n : Network) (l : Pool.Line ω) (w : ω) :
    Except RpcError (Handle (Pool.Site ω) × Pool.Site ω) := do
  let (transport, site) ← Transport.ofNetwork n l w
  return (⟨transport, n.timeout.toNat, n.backoff⟩, site)

end ChainAccess
