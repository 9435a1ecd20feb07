import ChainAccess.Pool.Routine
import ChainAccess.Transport
-- Running the routines of a pool. A wire answers checks, updates and requests
-- and tells how long each takes. One routine alone runs to its end or to a
-- deadline, where it is dropped at the wait it stands in.

namespace ChainAccess.Pool

/-! ## Wires -/

/-- An answer of a wire, the milliseconds it took, and the wire after it. -/
structure Timed (ω α : Type) where
  answer : α
  elapsed : Nat
  wire : ω

/-- What answers the routines of a pool, with `ω` for all that changes. -/
structure Wire (ω : Type) where
  check : String → ω → Timed ω (Except RpcError Unit)
  update : String → ω → Timed ω (Except RpcError Unit)
  post : String → Json → ω → Timed ω Http.Answer

/-- What a routine asked of the wire. -/
inductive Contact where
  | checked (url : String)
  | updated (url : String)
  | posted (url : String) (body : Json)
  deriving BEq, Repr

/-! ## One routine alone -/

/-- A pool at its wire, with a clock and everything asked so far. -/
structure Site (ω : Type) where
  pool : Pool
  wire : ω
  clock : Nat
  log : List Contact

/-- The site with one more question asked and its answer awaited. -/
def Site.after {ω α : Type} (s : Site ω) (c : Contact) (t : Timed ω α) : Site ω :=
  { s with wire := t.wire, clock := s.clock + t.elapsed, log := s.log ++ [c] }

/-- Whether a deadline lies behind the clock. -/
def Site.isLate {ω : Type} (s : Site ω) (deadline : Option Nat) : Bool :=
  deadline.any (· < s.clock)

/-- Runs a routine that has the pool for itself; none when the deadline drops
it. -/
def Routine.run {ω α : Type} (w : Wire ω) (deadline : Option Nat) :
    Routine α → Site ω → Option α × Site ω
  | .done a, s => (some a, s)
  | .step change next, s => (next s.pool).run w deadline { s with pool := change s.pool }
  | .acquire next, s => next.run w deadline s
  | .release next, s => next.run w deadline s
  | .check _ url next, s =>
    let t := w.check url s.wire
    let s := s.after (.checked url) t
    if s.isLate deadline then (none, s)
    else (next (t.answer.map fun _ => t.elapsed)).run w deadline s
  | .update url next, s =>
    let t := w.update url s.wire
    let s := s.after (.updated url) t
    if s.isLate deadline then (none, s) else (next t.answer).run w deadline s
  | .post url body next, s =>
    let t := w.post url body s.wire
    let s := s.after (.posted url body) t
    if s.isLate deadline then (none, s) else (next t.answer).run w deadline s

/-! ## The pool as a transport -/

/-- A routine as a call through a transport. -/
def replyOf {ω α : Type} (w : Wire ω) (r : Routine (Except RpcError α)) (left : Option Nat)
    (s : Site ω) : Reply (Site ω) α :=
  let deadline := left.map (s.clock + ·)
  let (answer, s') := r.run w deadline s
  let clock := deadline.elim s'.clock (min s'.clock)
  ⟨answer, clock - s.clock, { s' with clock := clock }⟩

/-- Sends a batch and takes its answer apart. -/
def sendBatch (requests : List Json) : Routine (Except RpcError (List Json)) := do
  match ← send (.arr requests) with
  | .ok answer => pure (Rpc.batchAnswers answer)
  | .error e => pure (.error e)

/-- The transport over a pool at a wire. -/
def transport {ω : Type} (w : Wire ω) : Transport (Site ω) where
  url s := s.pool.activeUrl
  connect := replyOf w ensureConnected
  send request := replyOf w (send request)
  sendBatch requests := replyOf w (sendBatch requests)
  report url := replyOf w (rotate url)

/-! ## The calls on a pool -/

/-- What a task asks of a pool. -/
inductive Call where
  | ensure
  | rotate (url : String)
  | send (request : Json)
  | sendBatch (requests : List Json)

/-- What a call brings back. -/
inductive Gain where
  | nothing
  | answer (v : Json)
  | answers (vs : List Json)

/-- The steps of a call. -/
def Call.routine : Call → Routine (Except RpcError Gain)
  | .ensure => do return (← ensureConnected).map fun _ => .nothing
  | .rotate url => do return (← Pool.rotate url).map fun _ => .nothing
  | .send request => do return (← Pool.send request).map .answer
  | .sendBatch requests => do return (← Pool.sendBatch requests).map .answers

end ChainAccess.Pool
