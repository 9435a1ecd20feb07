import ChainAccess.Pool.Basic
-- What a task does with the pool: it looks at the pool and changes it in
-- steps that nobody else can come between, it holds a lock while it searches
-- for an endpoint, and it waits for endpoints. Between two steps other tasks
-- may run, and a task may be dropped.

namespace ChainAccess.Pool

/-- The steps still before a task. -/
inductive Routine (α : Type) where
  | done (a : α)
  /-- Changes the pool and goes on by what it was before. -/
  | step (change : Pool → Pool) (next : Pool → Routine α)
  /-- Waits for the lock of the search. -/
  | acquire (next : Routine α)
  /-- Gives the lock back. -/
  | release (next : Routine α)
  /-- Checks the endpoint at a place by its URL; a pass tells how long it took. -/
  | check (place : Nat) (url : String) (next : Except RpcError Nat → Routine α)
  /-- Points the client to an endpoint. -/
  | update (url : String) (next : Except RpcError Unit → Routine α)
  /-- Sends a request to an endpoint. -/
  | post (url : String) (body : Json) (next : Http.Answer → Routine α)

namespace Routine

variable {α β : Type}

/-- Goes on with the value of the first part. -/
def andThen : Routine α → (α → Routine β) → Routine β
  | .done a, k => k a
  | .step change next, k => .step change fun p => (next p).andThen k
  | .acquire next, k => .acquire (next.andThen k)
  | .release next, k => .release (next.andThen k)
  | .check place url next, k => .check place url fun r => (next r).andThen k
  | .update url next, k => .update url fun r => (next r).andThen k
  | .post url body next, k => .post url body fun r => (next r).andThen k

instance : Monad Routine where
  pure := .done
  bind := andThen

/-! ## Single steps -/

/-- Looks at the pool. -/
def view (f : Pool → α) : Routine α := .step id fun p => .done (f p)

/-- Changes the pool. -/
def change (f : Pool → Pool) : Routine Unit := .step f fun _ => .done ()

/-- Waits for the lock of the search. -/
def lock : Routine Unit := .acquire (.done ())

/-- Gives the lock back. -/
def unlock : Routine Unit := .release (.done ())

/-- Checks the endpoint at a place. -/
def tryUrl (place : Nat) (url : String) : Routine (Except RpcError Nat) := .check place url .done

/-- Points the client to an endpoint. -/
def pointTo (url : String) : Routine (Except RpcError Unit) := .update url .done

/-- Sends a request to an endpoint. -/
def postTo (url : String) (body : Json) : Routine Http.Answer := .post url body .done

end Routine

open Routine

/-! ## The search for an endpoint -/

/-- Checks the candidates one after another and finds the first that passes. -/
def probe : List Nat → Routine (Option Nat)
  | [] => pure none
  | i :: rest => do
    let url ← view (·.urlAt i)
    match ← tryUrl i url with
    | .ok elapsed => do
      Routine.change (·.markReached i elapsed)
      pure (some i)
    | .error _ => do
      Routine.change (·.markFailed i)
      probe rest

/-- Takes the endpoint at a place into use. -/
def takeUp (i : Nat) : Routine (Except RpcError Unit) := do
  let url ← view (·.urlAt i)
  match ← pointTo url with
  | .error e => pure (.error e)
  | .ok () => do
    Routine.change (·.activate i)
    pure (.ok ())

/-- Takes the first candidate into use that passes its check. -/
def search (candidates : List Nat) : Routine (Except RpcError Unit) := do
  match ← probe candidates with
  | some i => takeUp i
  | none => pure (.error .noHealthyEndpoint)

/-! ## What callers ask for -/

/-- Makes sure that the endpoint in use passed a check; if it did not, it is
checked first and the others after it. -/
def ensureConnected : Routine (Except RpcError Unit) := do
  if ← view (·.verified) then pure (.ok ())
  else do
    lock
    match ← view (fun p => if p.verified then none else some p.activeFirst) with
    | none => do
      unlock
      pure (.ok ())
    | some candidates => do
      let found ← search candidates
      unlock
      pure found

/-- The candidates of a rotation away from `url`; none when another endpoint
is in use already. -/
def rotationFrom? (url : String) (p : Pool) : Option (List Nat) :=
  if p.activeUrl = url then some p.demote.alternatives else none

/-- The pool after a failure at `url`: when that endpoint is in use it counts
as failed. -/
def afterFailureAt (url : String) (p : Pool) : Pool :=
  if p.activeUrl = url then p.demote else p

/-- Leaves the endpoint at `url` for another one that passes its check, unless
another one is in use already. -/
def rotate (url : String) : Routine (Except RpcError Unit) := do
  lock
  match ← Routine.step (afterFailureAt url) (fun p => .done (rotationFrom? url p)) with
  | none => do
    unlock
    pure (.ok ())
  | some candidates => do
    match ← search candidates with
    | .ok () => do
      let _ ← view (·.activeUrl)
      unlock
      pure (.ok ())
    | .error e => do
      unlock
      pure (.error e)

/-- Sends a request to the endpoint in use once: the URL it went to and what
its answer means. -/
def sendOnce (body : Json) : Routine (String × Http.Verdict) := do
  let url ← view (·.activeUrl)
  let answer ← postTo url body
  pure (url, answer.verdict url)

/-- Sends a request to the endpoint in use. When it gets no answer, or one of
a throttled or failing gateway, the pool leaves the endpoint and the request
goes out again, at most `rotations` times. -/
def sendWithin (body : Json) : Nat → Routine (Except RpcError Json)
  | 0 => do
    match ← sendOnce body with
    | (_, .final result) => pure result
    | (_, .leave failure) => pure (.error failure)
  | rotations + 1 => do
    match ← sendOnce body with
    | (_, .final result) => pure result
    | (url, .leave failure) => do
      match ← rotate url with
      | .ok () => sendWithin body rotations
      | .error _ => pure (.error failure)

/-- Sends a request, leaving failing endpoints at most once for each other
endpoint of the pool. -/
def send (body : Json) : Routine (Except RpcError Json) := do
  let rotations ← view (·.endpoints.length - 1)
  sendWithin body rotations

end ChainAccess.Pool
