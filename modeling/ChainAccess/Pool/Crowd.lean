import ChainAccess.Pool.Run
-- Many routines on one pool. Each runs until it waits for an endpoint or for
-- the lock; the lock goes to the one that has waited longest. When all wait,
-- the clock moves to the first answer.

namespace ChainAccess.Pool

variable {ω α : Type}

/-- A task: the steps still before it, and when it can take the next one. -/
structure Member (α : Type) where
  routine : Routine α
  wake : Nat

/-- What the tasks share: the site, who holds the lock, and who waits for it. -/
structure Shared (ω : Type) where
  site : Site ω
  holder : Option Nat
  waiting : List Nat

/-- Hands the lock to the one that has waited longest. -/
def Shared.handOver (s : Shared ω) : Shared ω :=
  { s with holder := s.waiting.head?, waiting := s.waiting.drop 1 }

/-- Whether task `i` may take the lock or has been handed it. -/
def Shared.mayLock (s : Shared ω) (i : Nat) : Bool :=
  s.holder = some i || (s.holder = none && s.waiting.isEmpty)

/-- Puts task `i` among those that wait for the lock. -/
def Shared.enqueue (s : Shared ω) (i : Nat) : Shared ω :=
  if s.waiting.contains i then s else { s with waiting := s.waiting ++ [i] }

/-- A question of a task that is under way; its answer is there at the time
given. -/
def Shared.ask {β : Type} (s : Shared ω) (c : Contact) (t : Timed ω β) : Shared ω × Nat :=
  ({ s with site := { s.site with wire := t.wire, log := s.site.log ++ [c] } },
    s.site.clock + t.elapsed)

/-- Runs task `i` until it waits. -/
def Routine.advance (w : Wire ω) (i : Nat) : Routine α → Shared ω → Member α × Shared ω
  | .done a, s => (⟨.done a, s.site.clock⟩, s)
  | .step change next, s =>
    (next s.site.pool).advance w i { s with site := { s.site with pool := change s.site.pool } }
  | .acquire next, s =>
    if s.mayLock i then next.advance w i { s with holder := some i }
    else (⟨.acquire next, s.site.clock⟩, s.enqueue i)
  | .release next, s => next.advance w i s.handOver
  | .check _ url next, s =>
    let t := w.check url s.site.wire
    let (s, wake) := s.ask (.checked url) t
    let next := next (t.answer.map fun _ => t.elapsed)
    if t.elapsed = 0 then next.advance w i s else (⟨next, wake⟩, s)
  | .update url next, s =>
    let t := w.update url s.site.wire
    let (s, wake) := s.ask (.updated url) t
    if t.elapsed = 0 then (next t.answer).advance w i s else (⟨next t.answer, wake⟩, s)
  | .post url body next, s =>
    let t := w.post url body s.site.wire
    let (s, wake) := s.ask (.posted url body) t
    if t.elapsed = 0 then (next t.answer).advance w i s else (⟨next t.answer, wake⟩, s)

/-- Many tasks and what they share. -/
structure Crowd (ω α : Type) where
  shared : Shared ω
  members : List (Member α)

namespace Crowd

/-- Tasks that are all about to start. -/
def start (s : Site ω) (routines : List (Routine α)) : Crowd ω α :=
  ⟨⟨s, none, []⟩, routines.map fun r => ⟨r, s.clock⟩⟩

/-- Whether task `i` can take a step now. -/
def isReady (c : Crowd ω α) (i : Nat) (m : Member α) : Bool :=
  match m.routine with
  | .done _ => false
  | .acquire _ => m.wake ≤ c.shared.site.clock && c.shared.mayLock i
  | _ => m.wake ≤ c.shared.site.clock

/-- Lets task `i` run until it waits. -/
def turn (w : Wire ω) (c : Crowd ω α) (i : Nat) : Crowd ω α :=
  match c.members[i]? with
  | none => c
  | some m =>
    if c.shared.site.clock < m.wake then c
    else
      let (m', s) := m.routine.advance w i c.shared
      ⟨s, c.members.set i m'⟩

/-- Lets every task run in order. -/
def round (w : Wire ω) (c : Crowd ω α) : Crowd ω α :=
  (List.range c.members.length).foldl (turn w) c

/-- When the next answer comes, if one is on its way. -/
def nextWake? (c : Crowd ω α) : Option Nat :=
  ((c.members.map (·.wake)).filter (c.shared.site.clock < ·)).min?

/-- The crowd at a later time. -/
def movedTo (c : Crowd ω α) (clock : Nat) : Crowd ω α :=
  { c with shared := { c.shared with site := { c.shared.site with clock := clock } } }

/-- Runs all tasks for so many rounds at most. -/
def run (w : Wire ω) : Nat → Crowd ω α → Crowd ω α
  | 0, c => c
  | rounds + 1, c =>
    if c.members.zipIdx.any fun (m, i) => c.isReady i m then (c.round w).run w rounds
    else
      match c.nextWake? with
      | some clock => (c.movedTo clock).run w rounds
      | none => c

/-- Rounds that suffice for any number of tasks: each waits at most for every
endpoint in every rotation, and for everyone else. -/
def enoughRounds (tasks endpoints : Nat) : Nat :=
  8 * (tasks + 1) * (tasks + 1) * (endpoints + 1) * (endpoints + 1)

/-- The values of the tasks that have ended. -/
def results (c : Crowd ω α) : List (Option α) :=
  c.members.map fun m =>
    match m.routine with
    | .done a => some a
    | _ => none

end Crowd

/-- Runs the routines side by side. -/
def runTogether (w : Wire ω) (s : Site ω) (routines : List (Routine α)) :
    List (Option α) × Site ω :=
  let rounds := Crowd.enoughRounds routines.length s.pool.endpoints.length
  let c := (Crowd.start s routines).run w rounds
  (c.results, c.shared.site)

end ChainAccess.Pool
