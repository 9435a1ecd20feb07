import ChainAccess.Backoff
import ChainAccess.Workflow.Basic
-- Repeating a workflow under a policy of attempts.

namespace ChainAccess.Backoff

open Workflow

variable {σ ε α : Type}

/-- Runs the operation again and again, `n` attempts having failed before.
The failure of the last attempt is the failure of all; `left` bounds the
attempts still to come after the next one. -/
def attemptsFrom (b : Backoff) (again : ε → Bool) (op : Workflow σ ε α) :
    Nat → UInt32 → Workflow σ ε α
  | 0, _ => op
  | left + 1, n => do
    match ← op.caught with
    | .ok a => pure a
    | .error e =>
      let n := n + 1
      if !again e then fail e
      else if b.attempts ≤ n then fail e
      else do
        sleep (b.delay n)
        attemptsFrom b again op left n

/-- Runs the operation until it succeeds, fails with a failure that `again`
refuses, or the attempts are used up. -/
def run (b : Backoff) (again : ε → Bool) (op : Workflow σ ε α) : Workflow σ ε α :=
  attemptsFrom b again op b.attempts.toNat 0

end ChainAccess.Backoff
