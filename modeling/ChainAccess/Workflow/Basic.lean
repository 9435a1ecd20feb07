import ChainAccess.Gas.Estimates
import ChainAccess.Json.Basic
-- Workflows: runs of calls to a node on a clock. A workflow may have a
-- deadline; a wait that reaches beyond it stops the clock there and cuts the
-- rest of the workflow off. What a workflow does is kept in a log.

namespace ChainAccess

/-! ## The world of a workflow -/

/-- What a workflow does that others can see. -/
inductive Event where
  /-- The endpoints were asked for one that answers. -/
  | connect (passed : Bool)
  | send (request : Json)
  | sendBatch (requests : List Json)
  /-- A request to the endpoint got no answer in time. -/
  | report (url : String)
  | sleep (ms : Nat)
  deriving BEq, Repr

/-- What workflows share: a clock in milliseconds, the log, the last known gas
estimates, and the node with everything between. -/
structure World (σ : Type) where
  clock : Nat
  log : List (Nat × Event)
  estimates : Gas.Estimates
  node : σ

/-- A fresh world around a node. -/
def World.start {σ : Type} (node : σ) : World σ := ⟨0, [], .empty, node⟩

/-- The world with one more event in its log. -/
def World.note {σ : Type} (w : World σ) (e : Event) : World σ :=
  { w with log := w.log ++ [(w.clock, e)] }

/-! ## Workflows -/

/-- How a workflow ends: with a value, with a failure, or cut off. -/
inductive Outcome (ε α : Type) where
  | done (a : α)
  | failed (e : ε)
  | expired

/-- A run in a world, under a deadline if there is one. -/
def Workflow (σ ε α : Type) : Type := Option Nat → World σ → Outcome ε α × World σ

namespace Workflow

variable {σ ε ε' α β : Type}

/-- Ends with a value at once. -/
def value (a : α) : Workflow σ ε α := fun _ w => (.done a, w)

/-- Ends with a failure at once. -/
def fail (e : ε) : Workflow σ ε α := fun _ w => (.failed e, w)

/-- Goes on with the value of the first part. -/
def andThen (m : Workflow σ ε α) (k : α → Workflow σ ε β) : Workflow σ ε β := fun deadline w =>
  match m deadline w with
  | (.done a, w') => k a deadline w'
  | (.failed e, w') => (.failed e, w')
  | (.expired, w') => (.expired, w')

instance : Monad (Workflow σ ε) where
  pure := value
  bind := andThen

/-- Ends as a computed result says. -/
def ofExcept : Except ε α → Workflow σ ε α
  | .ok a => value a
  | .error e => fail e

/-- Makes a failure of the first part a value. -/
def caught (m : Workflow σ ε α) : Workflow σ ε' (Except ε α) := fun deadline w =>
  match m deadline w with
  | (.done a, w') => (.done (.ok a), w')
  | (.failed e, w') => (.done (.error e), w')
  | (.expired, w') => (.expired, w')

/-- Fails with another kind of failure. -/
def withError (f : ε → ε') (m : Workflow σ ε α) : Workflow σ ε' α := fun deadline w =>
  match m deadline w with
  | (.done a, w') => (.done a, w')
  | (.failed e, w') => (.failed (f e), w')
  | (.expired, w') => (.expired, w')

/-- The world as it is. -/
def world : Workflow σ ε (World σ) := fun _ w => (.done w, w)

/-- Changes the world. -/
def change (f : World σ → World σ) : Workflow σ ε Unit := fun _ w => (.done (), f w)

/-- Writes an event into the log. -/
def note (e : Event) : Workflow σ ε Unit := change (·.note e)

/-- Lets time pass; a deadline before its end cuts the workflow off there, and
one at its very end does not. -/
def pass (ms : Nat) : Workflow σ ε Unit := fun deadline w =>
  match deadline with
  | some d =>
    if d < w.clock + ms then (.expired, { w with clock := max w.clock d })
    else (.done (), { w with clock := w.clock + ms })
  | none => (.done (), { w with clock := w.clock + ms })

/-- Waits. -/
def sleep (ms : Nat) : Workflow σ ε Unit := do
  note (.sleep ms)
  pass ms

/-- Runs the workflow for at most `ms` milliseconds; when it is cut off there,
`late` goes on in its place. -/
def within (m : Workflow σ ε α) (ms : Nat) (late : Workflow σ ε α) : Workflow σ ε α :=
  fun deadline w =>
    let own := w.clock + ms
    match m (some (deadline.elim own (min own))) w with
    | (.expired, w') =>
      if deadline.all (own ≤ ·) then late deadline w' else (.expired, w')
    | ended => ended

/-- Runs a workflow without a deadline. -/
def run (m : Workflow σ ε α) (w : World σ) : Outcome ε α × World σ := m none w

end Workflow

end ChainAccess
