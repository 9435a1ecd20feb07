import ChainAccess.Proofs.Handle.Attempts
import Mathlib.Order.Bounds.Defs
import Mathlib.Tactic.Common
-- The schedule of a policy. An operation is run until it does not fail, fails
-- with a failure not worth another attempt, or has been run as often as the
-- policy allows. Between two runs lies the rest for the number of the failed
-- one, and nothing follows the last. To count the runs, an operation can be put
-- on record: then it does what it did, and each of its runs is kept.

namespace ChainAccess

variable {σ ε α : Type}

/-! ## Runs on record -/

/-- One run of an operation: where it began, what it came to, what it left. -/
structure OperationRun (σ ε α : Type) where
  start : World σ
  outcome : Outcome ε α
  finish : World σ

/-- What changes on a node, and the runs of an operation on it. -/
structure Recorded (σ ε α : Type) where
  node : σ
  runs : List (OperationRun σ ε α)

def World.recorded (w : World σ) (runs : List (OperationRun σ ε α)) : World (Recorded σ ε α) :=
  ⟨w.clock, w.log, w.estimates, ⟨w.node, runs⟩⟩

/-- The world without the record. -/
def World.plain (w : World (Recorded σ ε α)) : World σ :=
  ⟨w.clock, w.log, w.estimates, w.node.node⟩

namespace Workflow

/-- The run of an operation from a world on. -/
def runFrom (op : Workflow σ ε α) (w : World σ) : OperationRun σ ε α :=
  ⟨w, (op.run w).1, (op.run w).2⟩

/-- The operation with a record of its runs. -/
def recorded (op : Workflow σ ε α) : Workflow (Recorded σ ε α) ε α := fun d w =>
  let r := op d w.plain
  (r.1, r.2.recorded (w.node.runs ++ [⟨w.plain, r.1, r.2⟩]))

theorem recorded_run (op : Workflow σ ε α) (w : World (Recorded σ ε α)) :
    op.recorded.run w =
      ((op.run w.plain).1, (op.run w.plain).2.recorded (w.node.runs ++ [op.runFrom w.plain])) :=
  rfl

end Workflow

namespace Backoff

open Workflow

variable {b : Backoff} {again : ε → Bool} {op : Workflow σ ε α} {w₀ w : World σ} {m n : Nat}

/-- The runs of an operation that a policy makes. -/
def runs (b : Backoff) (again : ε → Bool) (op : Workflow σ ε α) (w₀ : World σ) :
    List (OperationRun σ ε α) :=
  ((b.run again op.recorded).run (w₀.recorded [])).2.node.runs

/-! ## Attempts by their number -/

/-- The attempt after `n` others, whatever came of them: it begins where the last
of them ended, after the rest for so many failures. -/
def attemptAfter (b : Backoff) (op : Workflow σ ε α) (w₀ : World σ) : Nat → OperationRun σ ε α
  | 0 => op.runFrom w₀
  | n + 1 =>
    op.runFrom ((b.attemptAfter op w₀ n).finish.rested (b.delay (UInt32.ofNat (n + 1))))

/-- The attempt of number `k` is one to end with: it does not fail, it fails with
a failure that is refused, or no more are allowed. -/
def EndsWith (b : Backoff) (again : ε → Bool) (op : Workflow σ ε α) (w₀ : World σ) (k : Nat) :
    Prop :=
  0 < k ∧ ((∀ e, (b.attemptAfter op w₀ (k - 1)).outcome = .failed e → again e = false) ∨
    max 1 b.attempts.toNat ≤ k)

/-- The policy runs the operation `k` times and comes to what the last run came
to. Its counter stands at the number of failed attempts before each, and one more
still fits it. -/
structure Makes (b : Backoff) (again : ε → Bool) (op : Workflow σ ε α) (w₀ : World σ) (k : Nat) :
    Prop where
  runs_eq : b.runs again op w₀ = (List.range k).map (b.attemptAfter op w₀)
  run_eq : (b.run again op).run w₀ =
    ((b.attemptAfter op w₀ (k - 1)).outcome, (b.attemptAfter op w₀ (k - 1)).finish)
  counter : ∀ n < k, (UInt32.ofNat n + 1).toNat = n + 1 ∧
    (b.run again op).run w₀ =
      (b.attemptsFrom again op (b.attempts.toNat - n) (UInt32.ofNat n)).run
        (b.attemptAfter op w₀ n).start

theorem Begins.eq_start (h : b.Begins again op w₀ n w) :
    b.attemptAfter op w₀ n = op.runFrom w := by
  induction h with
  | first => rfl
  | next _ hop _ _ ih =>
    rw [attemptAfter, ih]
    unfold runFrom
    rw [hop]

theorem Begins.exists_of_le (h : b.Begins again op w₀ n w) (hm : m ≤ n) :
    ∃ v, b.Begins again op w₀ m v := by
  induction h with
  | first =>
    obtain rfl : m = 0 := by omega
    exact ⟨w₀, .first⟩
  | @next k u e v hb hop hagain hleft ih =>
    by_cases hmk : m ≤ k
    · exact ih hmk
    · obtain rfl : m = k + 1 := by omega
      exact ⟨_, hb.next hop hagain hleft⟩

/-- The loop that is left when an attempt begins counts the attempts before it. -/
theorem Begins.run_eq (h : b.Begins again op w₀ n w) :
    (b.run again op).run w₀ =
      (b.attemptsFrom again op (b.attempts.toNat - n) (UInt32.ofNat n)).run w := by
  induction h with
  | first => rfl
  | @next k u e v hb hop hagain hleft ih =>
    have hlast : b.attempts.toNat - k = (b.attempts.toNat - (k + 1)) + 1 := by omega
    have hnext : UInt32.ofNat k + 1 = UInt32.ofNat (k + 1) := by simp [UInt32.ofNat_add]
    have hlt : UInt32.ofNat (k + 1) < b.attempts := hb.ofNat_lt_iff.mpr hleft
    rw [ih, hlast, attemptsFrom_run, hop, hnext]
    simp only [hagain, hlt, and_self, if_true]

theorem Begins.counter (h : b.Begins again op w₀ n w) : (UInt32.ofNat n + 1).toNat = n + 1 := by
  have hlt := h.lt
  have hsmall := b.attempts.toNat_lt
  have hn : n < 2 ^ 32 := by omega
  have hn' : n + 1 < 2 ^ 32 := by omega
  rw [UInt32.toNat_add, UInt32.toNat_ofNat_of_lt' hn]
  exact Nat.mod_eq_of_lt hn'

/-- The record holds every attempt that was made before. -/
theorem Begins.plain {W : World (Recorded σ ε α)}
    (h : b.Begins again op.recorded (w₀.recorded []) n W) :
    b.Begins again op w₀ n W.plain ∧ W.node.runs = (List.range n).map (b.attemptAfter op w₀) := by
  induction h with
  | first => exact ⟨.first, rfl⟩
  | @next k U e V _ hop hagain hleft ih =>
    obtain ⟨hb, hruns⟩ := ih
    rw [recorded_run] at hop
    cases hrun : op.run U.plain with
    | mk o v =>
      rw [hrun] at hop
      cases hop
      refine ⟨hb.next hrun hagain hleft, ?_⟩
      rw [List.range_succ, List.map_append, ← hruns, List.map_singleton, hb.eq_start]
      rfl

theorem endsWith_of_isLast (h : b.Begins again op w₀ n w)
    (hlast : b.IsLast again n (op.run w).1) : b.EndsWith again op w₀ (n + 1) := by
  refine ⟨by omega, ?_⟩
  rw [Nat.add_sub_cancel, h.eq_start]
  unfold runFrom
  dsimp only
  cases ho : (op.run w).1 with
  | done a => simp
  | expired => simp
  | failed e =>
    rw [ho] at hlast
    rcases hlast with hno | hmost
    · left
      rintro e' ⟨⟩
      exact hno
    · right
      omega

/-- No attempt before the last was one to end with. -/
theorem Begins.le_of_endsWith (h : b.Begins again op w₀ n w) {k : Nat}
    (hk : b.EndsWith again op w₀ k) : n + 1 ≤ k := by
  obtain ⟨hpos, hend⟩ := hk
  by_contra hlt
  -- the attempt of number `k` was made, and another after it
  obtain ⟨v, hv⟩ := h.exists_of_le (m := k - 1) (by omega)
  have hnot := h.not_last (n := k - 1) (by omega) hv
  apply hnot
  rw [hv.eq_start] at hend
  unfold runFrom at hend
  cases ho : (op.run v).1 with
  | done a => trivial
  | expired => trivial
  | failed e =>
    rcases hend with hno | hmost
    · exact Or.inl (hno e ho)
    · exact Or.inr (by omega)

/-- A policy makes the attempts up to the first one to end with. -/
theorem exists_makes (b : Backoff) (again : ε → Bool) (op : Workflow σ ε α) (w₀ : World σ) :
    ∃ k, IsLeast {k | b.EndsWith again op w₀ k} k ∧ b.Makes again op w₀ k := by
  -- the last attempt on record is the last one without it
  obtain ⟨n, W, hW, hlast, hrun⟩ := exists_last b again op.recorded (w₀.recorded [])
  obtain ⟨hb, hruns⟩ := hW.plain
  have hlast' : b.IsLast again n (op.run W.plain).1 := hlast
  refine ⟨n + 1, ⟨endsWith_of_isLast hb hlast', fun k hk => hb.le_of_endsWith hk⟩, ?_, ?_, ?_⟩
  · unfold runs
    rw [hrun, recorded_run, List.range_succ, List.map_append, ← hruns, List.map_singleton,
      hb.eq_start]
    rfl
  · rw [Nat.add_sub_cancel, hb.eq_start]
    exact run_eq_iff.mpr ⟨n, W.plain, hb, rfl, hlast'⟩
  · intro m hm
    obtain ⟨v, hv⟩ := hb.exists_of_le (m := m) (by omega)
    refine ⟨hv.counter, ?_⟩
    rw [hv.run_eq, hv.eq_start]
    rfl

end Backoff

namespace Handle

open Workflow

variable {h : Handle σ} {w u : World σ}

theorem attempt_of_unconnected {op : Workflow σ RpcError α} {e : RpcError}
    (hconnect : h.transport.ensureConnected.run w = (.failed e, u)) :
    (h.attempt op).run w = (.failed e, u) :=
  bind_failed_iff.mpr (Or.inl (bind_failed_iff.mpr (Or.inl hconnect)))

theorem attempt_of_connected {op : Workflow σ RpcError α}
    (hconnect : h.transport.ensureConnected.run w = (.done (), u)) :
    (h.attempt op).run w =
      (op.within h.timeout (h.expire (h.transport.url u.node))).run u := by
  apply Tries.run
  exact bind_done_iff.mpr ⟨(), u, hconnect, rfl⟩

/-- A policy runs an operation up to the first attempt that does not fail, fails
with a failure that is refused, or is the last allowed, rests between any two, and
comes to what that attempt came to. A handle so repeats its attempts until a
failure does not pass, and an attempt that reaches no endpoint leaves the
operation alone. -/
theorem an_operation_is_run_up_to_its_first_end :
    (∀ {σ ε α : Type} (b : Backoff) (again : ε → Bool) (op : Workflow σ ε α) (w₀ : World σ),
      ∃ k, IsLeast {k | b.EndsWith again op w₀ k} k ∧ b.Makes again op w₀ k) ∧
    ∀ {σ α : Type} (h : Handle σ) (op : Workflow σ RpcError α) (w₀ : World σ),
      (∃ k, IsLeast {k | h.backoff.EndsWith RpcError.isPassing (h.attempt op) w₀ k} k ∧
        h.backoff.Makes RpcError.isPassing (h.attempt op) w₀ k ∧
        (h.retrying op).run w₀ =
          ((h.backoff.attemptAfter (h.attempt op) w₀ (k - 1)).outcome,
            (h.backoff.attemptAfter (h.attempt op) w₀ (k - 1)).finish)) ∧
      ∀ w u,
        (∀ e, h.transport.ensureConnected.run w = (.failed e, u) →
          (h.attempt op).run w = (.failed e, u)) ∧
        (h.transport.ensureConnected.run w = (.done (), u) →
          (h.attempt op).run w =
            (op.within h.timeout (h.expire (h.transport.url u.node))).run u) := by
  refine ⟨Backoff.exists_makes, fun h op w₀ => ⟨?_, fun w u => ⟨?_, ?_⟩⟩⟩
  · obtain ⟨k, hleast, hmakes⟩ :=
      h.backoff.exists_makes RpcError.isPassing (h.attempt op) w₀
    exact ⟨k, hleast, hmakes, hmakes.run_eq⟩
  · intro e hconnect
    exact attempt_of_unconnected hconnect
  · intro hconnect
    exact attempt_of_connected hconnect

end Handle

end ChainAccess
