import ChainAccess.Workflow.Attempts
import Mathlib.Tactic.Common
-- The attempts that a policy makes. Each begins where the one before it
-- failed, after a rest. The run ends as the first attempt does that does not
-- fail, that fails with a failure not worth another one, or that is the last
-- one allowed.

namespace ChainAccess

variable {σ ε α : Type}

/-- The world after a rest. -/
def World.rested (w : World σ) (ms : Nat) : World σ :=
  { w.note (.sleep ms) with clock := w.clock + ms }

namespace Backoff

open Workflow

variable {b : Backoff} {again : ε → Bool} {op : Workflow σ ε α} {w₀ w v : World σ} {m n : Nat}

/-! ## Attempts -/

/-- The attempt after `n` failed ones begins in a world. -/
inductive Begins (b : Backoff) (again : ε → Bool) (op : Workflow σ ε α) (w₀ : World σ) :
    Nat → World σ → Prop
  | first : Begins b again op w₀ 0 w₀
  | next {n w e v} : Begins b again op w₀ n w → op.run w = (.failed e, v) → again e = true →
      n + 1 < b.attempts.toNat →
      Begins b again op w₀ (n + 1) (v.rested (b.delay (UInt32.ofNat (n + 1))))

/-- No attempt follows when the one after `n` failed ones ends so. -/
def IsLast (b : Backoff) (again : ε → Bool) (n : Nat) : Outcome ε α → Prop
  | .failed e => again e = false ∨ b.attempts.toNat ≤ n + 1
  | _ => True

theorem Begins.unique (h : b.Begins again op w₀ n w) (h' : b.Begins again op w₀ n v) : w = v := by
  induction h generalizing v with
  | first => cases h'; rfl
  | next _ hop _ _ ih =>
    cases h' with
    | next hb hop' _ _ =>
      cases ih hb
      cases hop.symm.trans hop'
      rfl

/-- Counting the next attempt does not go around. -/
theorem Begins.ofNat_lt_iff (h : b.Begins again op w₀ n w) :
    UInt32.ofNat (n + 1) < b.attempts ↔ n + 1 < b.attempts.toNat := by
  have hsmall := b.attempts.toNat_lt
  have hn : n + 1 < 2 ^ 32 := by
    cases h with
    | first => decide
    | next _ _ _ hlt => omega
  rw [UInt32.lt_iff_toNat_lt, UInt32.toNat_ofNat_of_lt' hn]

/-- What holds at the start and is kept by a failed attempt and the rest holds
wherever an attempt begins. -/
theorem Begins.invariant {I : World σ → Prop} (h : b.Begins again op w₀ n w) (h₀ : I w₀)
    (hstep : ∀ w e v ms, I w → op.run w = (.failed e, v) → I (v.rested ms)) : I w := by
  induction h with
  | first => exact h₀
  | next _ hop _ _ ih => exact hstep _ _ _ _ ih hop

/-- An attempt that another follows was not the last. -/
theorem Begins.not_last (h : b.Begins again op w₀ m v) (hmn : n < m)
    (h' : b.Begins again op w₀ n w) : ¬ b.IsLast again n (op.run w).1 := by
  induction h generalizing n w with
  | first => omega
  | @next k w' e v' hb hop hagain hleft ih =>
    rcases Nat.lt_or_ge n k with hnk | hnk
    · exact ih hnk h'
    · have hn : n = k := by omega
      subst hn
      cases h'.unique hb
      rw [hop]
      rintro (hno | hnone)
      · rw [hagain] at hno
        cases hno
      · omega

/-- No attempt begins after the last one. -/
theorem Begins.le_of_isLast (h : b.Begins again op w₀ n w) (hlast : b.IsLast again n (op.run w).1)
    (hm : b.Begins again op w₀ m v) : m ≤ n := by
  by_contra hnm
  exact hm.not_last (Nat.lt_of_not_le hnm) h hlast

theorem Begins.lt (h : b.Begins again op w₀ n w) : n < max 1 b.attempts.toNat := by
  cases h with
  | first => omega
  | next _ _ _ hlt => omega

/-! ## Runs -/

theorem attemptsFrom_run (left : Nat) (n : UInt32) :
    (b.attemptsFrom again op (left + 1) n).run w =
      match op.run w with
      | (.failed e, v) =>
        if again e = true ∧ n + 1 < b.attempts then
          (b.attemptsFrom again op left (n + 1)).run (v.rested (b.delay (n + 1)))
        else (.failed e, v)
      | ended => ended := by
  simp only [attemptsFrom, Workflow.run, Bind.bind, andThen, caught]
  rcases op none w with ⟨a | e | _, v⟩
  · rfl
  · dsimp only
    by_cases ha : again e = true
    · by_cases hn : n + 1 < b.attempts
      · have hle : ¬ b.attempts ≤ n + 1 := by simpa using hn
        simp only [ha, hn, hle, Bool.not_true, Bool.false_eq_true, if_false, and_self, if_true]
        rfl
      · have hle : b.attempts ≤ n + 1 := by simpa using hn
        simp [ha, hn, hle, fail]
    · simp [ha, fail]
  · rfl

/-- A run ends as its last attempt does. -/
theorem exists_last (b : Backoff) (again : ε → Bool) (op : Workflow σ ε α) (w₀ : World σ) :
    ∃ n w, b.Begins again op w₀ n w ∧ b.IsLast again n (op.run w).1 ∧
      (b.run again op).run w₀ = op.run w := by
  -- from any attempt on, as many may follow as the policy allows
  have hfrom : ∀ (left n : Nat) (w : World σ), b.Begins again op w₀ n w →
      b.attempts.toNat ≤ n + left →
      ∃ m v, b.Begins again op w₀ m v ∧ b.IsLast again m (op.run v).1 ∧
        (b.attemptsFrom again op left (UInt32.ofNat n)).run w = op.run v := by
    intro left
    induction left with
    | zero =>
      intro n w hb hleft
      refine ⟨n, w, hb, ?_, rfl⟩
      cases (op.run w).1 with
      | failed e => exact Or.inr (by omega)
      | done a => trivial
      | expired => trivial
    | succ left ih =>
      intro n w hb hleft
      rw [attemptsFrom_run]
      rcases hop : op.run w with ⟨a | e | _, v⟩
      · exact ⟨n, w, hb, by rw [hop]; trivial, by rw [hop]⟩
      · have hnext : UInt32.ofNat n + 1 = UInt32.ofNat (n + 1) := by simp [UInt32.ofNat_add]
        have hlt := hb.ofNat_lt_iff
        dsimp only
        split
        · next hmore =>
          rw [hnext] at hmore ⊢
          exact ih (n + 1) _ (hb.next hop hmore.1 (hlt.mp hmore.2)) (by omega)
        · next hno =>
          refine ⟨n, w, hb, ?_, by rw [hop]⟩
          rw [hop]
          rw [hnext, hlt, not_and_or, Bool.not_eq_true, Nat.not_lt] at hno
          exact hno
      · exact ⟨n, w, hb, by rw [hop]; trivial, by rw [hop]⟩
  exact hfrom b.attempts.toNat 0 w₀ .first (by omega)

/-- How a run ends, read from its last attempt. -/
theorem run_eq_iff {r : Outcome ε α} :
    (b.run again op).run w₀ = (r, v) ↔
      ∃ n w, b.Begins again op w₀ n w ∧ op.run w = (r, v) ∧ b.IsLast again n r := by
  obtain ⟨m, w', hb, hlast, hrun⟩ := exists_last b again op w₀
  constructor
  · intro h
    rw [hrun] at h
    exact ⟨m, w', hb, h, by rwa [h] at hlast⟩
  · rintro ⟨n, w, hb', hop, hlast'⟩
    have hlast'' : b.IsLast again n (op.run w).1 := by rwa [hop]
    rcases Nat.lt_trichotomy m n with hmn | rfl | hnm
    · exact absurd hlast (hb'.not_last hmn hb)
    · rw [hrun, hb.unique hb', hop]
    · exact absurd hlast'' (hb.not_last hnm hb')

end Backoff

end ChainAccess
