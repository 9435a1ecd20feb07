import ChainAccess.Pool.Run
import ChainAccess.Proofs.Pool.Changes
import Mathlib.Data.List.Basic
import Mathlib.Tactic.Common
-- What a routine meets that has the pool for itself: the outcomes of its
-- checks, updates and requests, in order. What it does to the pool and what it
-- ends with follow from them, and every such story is told over some wire.

namespace ChainAccess.Pool

variable {ω α β : Type}

/-! ## Stories -/

/-- The outcome of a check, of an update of the client, or of a request. -/
inductive Encounter where
  | checked (place : Nat) (answer : Except RpcError Nat)
  | updated (url : String) (answer : Except RpcError Unit)
  /-- A request to the endpoint in use, which is the one at the place. -/
  | posted (place : Nat) (answer : Http.Answer)
  deriving DecidableEq

namespace Routine

/-- What a routine that has the pool for itself meets over a wire. -/
def story (w : Wire ω) : Routine α → Site ω → List Encounter
  | .done _, _ => []
  | .step change next, s => (next s.pool).story w { s with pool := change s.pool }
  | .acquire next, s => next.story w s
  | .release next, s => next.story w s
  | .check place url next, s =>
    let t := w.check url s.wire
    let answer := t.answer.map fun _ => t.elapsed
    .checked place answer :: (next answer).story w (s.after (.checked url) t)
  | .update url next, s =>
    let t := w.update url s.wire
    .updated url t.answer :: (next t.answer).story w (s.after (.updated url) t)
  | .post url body next, s =>
    let t := w.post url body s.wire
    .posted s.pool.active t.answer :: (next t.answer).story w (s.after (.posted url body) t)

/-- A routine that has the pool `p` for itself may meet `es`, leave the pool
`q`, and end with `b`. -/
def Tells : Routine α → Pool → List Encounter → Pool → α → Prop
  | .done a, p, es, q, b => es = [] ∧ q = p ∧ b = a
  | .step change next, p, es, q, b => (next p).Tells (change p) es q b
  | .acquire next, p, es, q, b => next.Tells p es q b
  | .release next, p, es, q, b => next.Tells p es q b
  | .check place _ next, p, es, q, b =>
    ∃ r fs, es = .checked place r :: fs ∧ (next r).Tells p fs q b
  | .update url next, p, es, q, b =>
    ∃ r fs, es = .updated url r :: fs ∧ (next r).Tells p fs q b
  | .post _ _ next, p, es, q, b =>
    ∃ a fs, es = .posted p.active a :: fs ∧ (next a).Tells p fs q b

/-! ## Stories and wires -/

/-- Without a deadline a routine ends with a value, and tells its story. -/
theorem tells_story (w : Wire ω) (r : Routine α) (s : Site ω) :
    ∃ a, (r.run w none s).1 = some a ∧
      r.Tells s.pool (r.story w s) (r.run w none s).2.pool a := by
  induction r generalizing s with
  | done a => exact ⟨a, rfl, rfl, rfl, rfl⟩
  | step change next ih => exact ih _ _
  | acquire next ih => exact ih _
  | release next ih => exact ih _
  | check place url next ih =>
    obtain ⟨a, ha, ht⟩ := ih _ (s.after (.checked url) (w.check url s.wire))
    exact ⟨a, ha, _, _, rfl, ht⟩
  | update url next ih =>
    obtain ⟨a, ha, ht⟩ := ih _ (s.after (.updated url) (w.update url s.wire))
    exact ⟨a, ha, _, _, rfl, ht⟩
  | post url body next ih =>
    obtain ⟨a, ha, ht⟩ := ih _ (s.after (.posted url body) (w.post url body s.wire))
    exact ⟨a, ha, _, _, rfl, ht⟩

end Routine

/-- The wire that gives the answers of a story in order. -/
def replay : Wire (List Encounter) where
  check _
    | .checked _ (.ok ms) :: es => ⟨.ok (), ms, es⟩
    | .checked _ (.error e) :: es => ⟨.error e, 0, es⟩
    | es => ⟨.error .noHealthyEndpoint, 0, es⟩
  update _
    | .updated _ r :: es => ⟨r, 0, es⟩
    | es => ⟨.error .noHealthyEndpoint, 0, es⟩
  post _ _
    | .posted _ a :: es => ⟨a, 0, es⟩
    | es => ⟨.failed "", 0, es⟩

namespace Routine

/-- Over its own replay a routine tells the story again. -/
theorem story_replay {r : Routine α} {s : Site (List Encounter)} {es fs : List Encounter}
    {q : Pool} {a : α} (h : r.Tells s.pool es q a) (hs : s.wire = es ++ fs) :
    r.story replay s = es ∧ (r.run replay none s).1 = some a ∧
      (r.run replay none s).2.pool = q := by
  induction r generalizing s es with
  | done b =>
    obtain ⟨rfl, rfl, rfl⟩ := h
    exact ⟨rfl, rfl, rfl⟩
  | step change next ih => exact ih _ (s := { s with pool := change s.pool }) h hs
  | acquire next ih => exact ih h hs
  | release next ih => exact ih h hs
  | check place url next ih =>
    obtain ⟨r, gs, rfl, h⟩ := h
    have ht : (replay.check url s.wire).answer.map
        (fun _ => (replay.check url s.wire).elapsed) = r ∧
        (replay.check url s.wire).wire = gs ++ fs := by
      rw [hs]
      cases r <;> exact ⟨rfl, rfl⟩
    obtain ⟨h1, h2⟩ := ih r (s := s.after (.checked url) (replay.check url s.wire)) h ht.2
    simp only [story, run, ht.1, h1]
    exact ⟨trivial, h2⟩
  | update url next ih =>
    obtain ⟨r, gs, rfl, h⟩ := h
    have ht : (replay.update url s.wire).answer = r ∧
        (replay.update url s.wire).wire = gs ++ fs := by
      rw [hs]; exact ⟨rfl, rfl⟩
    obtain ⟨h1, h2⟩ := ih r (s := s.after (.updated url) (replay.update url s.wire)) h ht.2
    simp only [story, run, ht.1, h1]
    exact ⟨trivial, h2⟩
  | post url body next ih =>
    obtain ⟨a, gs, rfl, h⟩ := h
    have ht : (replay.post url body s.wire).answer = a ∧
        (replay.post url body s.wire).wire = gs ++ fs := by
      rw [hs]; exact ⟨rfl, rfl⟩
    obtain ⟨h1, h2⟩ := ih a (s := s.after (.posted url body) (replay.post url body s.wire)) h ht.2
    simp only [story, run, ht.1, h1]
    exact ⟨trivial, h2⟩

end Routine

end ChainAccess.Pool
