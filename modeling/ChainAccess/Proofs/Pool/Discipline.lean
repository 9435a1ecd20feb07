import ChainAccess.Proofs.Pool.Interleaving
import Mathlib.Data.List.Basic
import Mathlib.Tactic.Common
-- The discipline of the tasks on a pool: only the task that has the lock
-- changes the pool or checks endpoints, and each change keeps what is to hold
-- of the pool. When every routine keeps to it, every run of any number of
-- tasks does, and the lock has at most one holder at every moment.

namespace ChainAccess.Pool

variable {α β : Type} {I : Pool → Prop}

namespace Routine

/-! ## The discipline of one routine -/

/-- A routine keeps `I` from here on and ends in `Q`. Here `some p` is a task
that has the lock while the pool is `p`, and `none` is a task without the
lock, which finds any pool with `I` at its next step. -/
def Keeps (I : Pool → Prop) (Q : Option Pool → α → Prop) : Routine α → Option Pool → Prop
  | .done a, g => Q g a
  | .step change next, some p => I (change p) ∧ (next p).Keeps I Q (some (change p))
  | .step change next, none => ∀ p, I p → change p = p ∧ (next p).Keeps I Q none
  | .acquire _, some _ => False
  | .acquire next, none => ∀ p, I p → next.Keeps I Q (some p)
  | .release next, some _ => next.Keeps I Q none
  | .release _, none => False
  | .check _ _ next, some p => ∀ r, (next r).Keeps I Q (some p)
  | .check .., none => False
  | .update _ next, some p => ∀ r, (next r).Keeps I Q (some p)
  | .update .., none => False
  | .post _ _ next, g => ∀ a, (next a).Keeps I Q g

theorem keeps_andThen (Q : Option Pool → β → Prop) (r : Routine α) (k : α → Routine β)
    (g : Option Pool) :
    (r.andThen k).Keeps I Q g ↔ r.Keeps I (fun g a => (k a).Keeps I Q g) g := by
  induction r generalizing g with
  | done a => exact Iff.rfl
  | post url body next ih => simp only [andThen, Keeps, ih]
  | _ => cases g <;> simp only [andThen, Keeps, *]

@[simp] theorem keeps_bind (Q : Option Pool → β → Prop) (r : Routine α) (k : α → Routine β)
    (g : Option Pool) :
    (r >>= k).Keeps I Q g ↔ r.Keeps I (fun g a => (k a).Keeps I Q g) g :=
  keeps_andThen Q r k g

variable {Q : Option Pool → α → Prop} {g : Option Pool} {p : Pool}

@[simp] theorem keeps_pure (a : α) : (pure a : Routine α).Keeps I Q g ↔ Q g a := Iff.rfl

@[simp] theorem keeps_view_none (f : Pool → α) :
    (view f).Keeps I Q none ↔ ∀ p, I p → Q none (f p) := by
  simp [view, Keeps]

@[simp] theorem keeps_view_some (f : Pool → α) :
    (view f).Keeps I Q (some p) ↔ I p ∧ Q (some p) (f p) := Iff.rfl

@[simp] theorem keeps_step_some (f : Pool → Pool) (next : Pool → Routine α) :
    (step f next).Keeps I Q (some p) ↔ I (f p) ∧ (next p).Keeps I Q (some (f p)) := Iff.rfl

@[simp] theorem keeps_done (a : α) : (done a).Keeps I Q g ↔ Q g a := Iff.rfl

section

variable {Q : Option Pool → Unit → Prop}

@[simp] theorem keeps_change (f : Pool → Pool) :
    (Routine.change f).Keeps I Q (some p) ↔ I (f p) ∧ Q (some (f p)) () := Iff.rfl

@[simp] theorem keeps_lock : lock.Keeps I Q none ↔ ∀ p, I p → Q (some p) () := Iff.rfl

end

@[simp] theorem keeps_tryUrl {Q : Option Pool → Except RpcError Nat → Prop} (i : Nat)
    (url : String) : (tryUrl i url).Keeps I Q (some p) ↔ ∀ r, Q (some p) r := Iff.rfl

@[simp] theorem keeps_pointTo {Q : Option Pool → Except RpcError Unit → Prop} (url : String) :
    (pointTo url).Keeps I Q (some p) ↔ ∀ r, Q (some p) r := Iff.rfl

@[simp] theorem keeps_postTo {Q : Option Pool → Http.Answer → Prop} (url : String) (body : Json) :
    (postTo url body).Keeps I Q g ↔ ∀ a, Q g a := Iff.rfl

end Routine

/-! ## The discipline of all tasks -/

/-- A task keeps to the discipline while the pool is `p`: a dropped one has
no lock, and one that ends has given it back. -/
def Task.Keeps (I : Pool → Prop) (p : Pool) (t : Task α) : Prop :=
  match t.rest with
  | none => t.holds = false
  | some r => r.Keeps I (fun g _ => g = none) (if t.holds then some p else none)

/-- Without the lock the discipline of a task does not depend on the pool. -/
theorem Task.Keeps.of_free {t : Task α} {p : Pool} (h : t.Keeps I p) (hfree : t.holds = false)
    (q : Pool) : t.Keeps I q := by
  unfold Task.Keeps at *
  rw [hfree] at h ⊢
  exact h

namespace Scene

/-- The tasks keep to the discipline, and the lock is taken by at most one. -/
structure Orderly (I : Pool → Prop) (s : Scene α) : Prop where
  pool : I s.pool
  exclusive : ∀ i j, s.Holds i → s.Holds j → i = j
  locked_iff : s.locked = true ↔ ∃ i, s.Holds i
  tasks : ∀ (i : Nat) (t : Task α), s.tasks[i]? = some t → t.Keeps I s.pool

theorem orderly_start {p : Pool} {rs : List (Routine α)} (hp : I p)
    (hrs : ∀ r ∈ rs, r.Keeps I (fun g _ => g = none) none) : (start p rs).Orderly I := by
  have hfree : ∀ i, ¬ (start p rs).Holds i := by
    rintro i ⟨t, ht, hh⟩
    simp only [start, List.getElem?_map, Option.map_eq_some_iff] at ht
    obtain ⟨r, -, rfl⟩ := ht
    cases hh
  refine ⟨hp, fun i j hi _ => absurd hi (hfree i), ?_, ?_⟩
  · simp only [start, Bool.false_eq_true, false_iff, not_exists]
    exact hfree
  · intro i t ht
    simp only [start, List.getElem?_map, Option.map_eq_some_iff] at ht
    obtain ⟨r, hr, rfl⟩ := ht
    exact hrs r (List.mem_of_getElem? hr)

/-- While another task has the lock, task `i` neither has it nor takes it. -/
theorem Orderly.free_of_other {s : Scene α} (inv : s.Orderly I) {i j : Nat} {t u : Task α}
    (hu : s.tasks[i]? = some u) (htake : t.holds = true → u.holds = true ∨ s.locked = false)
    (hj : s.Holds j) (hji : j ≠ i) : t.holds = false ∧ u.holds = false := by
  have hui : u.holds = false := by
    cases hc : u.holds with
    | false => rfl
    | true => exact absurd (inv.exclusive j i hj ⟨u, hu, hc⟩) hji
  refine ⟨?_, hui⟩
  cases hc : t.holds with
  | false => rfl
  | true =>
    rcases htake hc with h | h
    · rw [hui] at h; cases h
    · rw [inv.locked_iff.mpr ⟨j, hj⟩] at h; cases h

/-- A new state `t` of task `i` keeps the scene orderly when the pool changes
only under the lock and the lock is taken only when it is free. -/
theorem Orderly.put {s : Scene α} (inv : s.Orderly I) {i : Nat} {t u : Task α} {q : Pool}
    {l : Bool} (hu : s.tasks[i]? = some u) (hq : I q) (ht : t.Keeps I q)
    (hpool : q = s.pool ∨ u.holds = true)
    (htake : t.holds = true → u.holds = true ∨ s.locked = false)
    (hl : l = (t.holds || (s.locked && !u.holds))) :
    ({ s with pool := q, locked := l }.put i t).Orderly I := by
  have hholds : ∀ j, ({ s with pool := q, locked := l }.put i t).Holds j ↔
      if j = i then t.holds = true else s.Holds j := fun j => holds_put (s := { s with .. }) hu
  have hlone := fun j => inv.free_of_other (j := j) hu htake
  refine ⟨hq, ?_, ?_, ?_⟩
  · intro j k hj hk
    rw [hholds] at hj hk
    split at hj <;> split at hk
    · next h1 h2 => rw [h1, h2]
    · next h1 h2 => rw [(hlone k hk h2).1] at hj; cases hj
    · next h1 h2 => rw [(hlone j hj h1).1] at hk; cases hk
    · exact inv.exclusive j k hj hk
  · simp only [hholds, put_locked]
    rw [hl]
    simp only [Bool.or_eq_true, Bool.and_eq_true, Bool.not_eq_true']
    constructor
    · rintro (h | ⟨h, hui⟩)
      · exact ⟨i, by simpa using h⟩
      · obtain ⟨j, hj⟩ := inv.locked_iff.mp h
        have hji : j ≠ i := by
          rintro rfl
          obtain ⟨v, hv, hh⟩ := hj
          rw [hu, Option.some.injEq] at hv
          rw [← hv, hui] at hh
          cases hh
        exact ⟨j, by simpa [hji] using hj⟩
    · rintro ⟨j, hj⟩
      split at hj
      · exact Or.inl hj
      · next hji => exact Or.inr ⟨inv.locked_iff.mpr ⟨j, hj⟩, (hlone j hj hji).2⟩
  · intro j v hv
    rcases task_put hv with ⟨-, rfl⟩ | ⟨hji, hjv⟩
    · exact ht
    · have hkeeps := inv.tasks j v hjv
      rcases hpool with rfl | hui
      · exact hkeeps
      -- the pool has changed under the lock, so task `j` is without it
      · refine hkeeps.of_free ?_ q
        cases hc : v.holds with
        | false => rfl
        | true => rw [(hlone j ⟨v, hjv, hc⟩ hji).2] at hui; cases hui

theorem Orderly.locked_of_holds {s : Scene α} (inv : s.Orderly I) {i : Nat} {t : Task α}
    (ht : s.tasks[i]? = some t) (hh : t.holds = true) : s.locked = true :=
  inv.locked_iff.mpr ⟨i, t, ht, hh⟩

/-- A task goes on with the pool as it was, and keeps the lock if it has it. -/
theorem Orderly.resume {s : Scene α} (inv : s.Orderly I) {i : Nat} {r : Option (Routine α)}
    {next : Routine α} {holds : Bool} (ht : s.tasks[i]? = some ⟨r, holds⟩)
    (hkeeps : Task.Keeps I s.pool ⟨some next, holds⟩) :
    (s.put i ⟨some next, holds⟩).Orderly I := by
  refine inv.put ht inv.pool hkeeps (Or.inl rfl) Or.inl ?_
  cases holds with
  | false => simp
  | true => simp [inv.locked_of_holds ht rfl]

theorem Orderly.move {s s' : Scene α} {i : Nat} {e : Event} (inv : s.Orderly I)
    (h : Move s i e s') : s'.Orderly I := by
  cases h with
  | @look change next holds ht =>
    have hkeeps := inv.tasks i _ ht
    cases holds with
    | false =>
      obtain ⟨heq, hnext⟩ := hkeeps s.pool inv.pool
      refine inv.put ht (q := change s.pool) ?_ hnext (Or.inl heq) (by simp) (by simp)
      rw [heq]; exact inv.pool
    | true =>
      refine inv.put ht (q := change s.pool) hkeeps.1 hkeeps.2 (Or.inr rfl) (by simp) ?_
      simp [inv.locked_of_holds ht rfl]
  | @lock next holds ht hfree =>
    have hkeeps := inv.tasks i _ ht
    cases holds with
    | false =>
      have hnext := hkeeps s.pool inv.pool
      exact inv.put ht inv.pool hnext (Or.inl rfl) (by simp [hfree]) (by simp)
    | true => exact hkeeps.elim
  | @unlock next holds ht =>
    have hkeeps := inv.tasks i _ ht
    cases holds with
    | false => exact hkeeps.elim
    | true => exact inv.put ht inv.pool hkeeps (Or.inl rfl) (by simp) (by simp)
  | @check place url next holds answer ht =>
    have hkeeps := inv.tasks i _ ht
    cases holds with
    | false => exact hkeeps.elim
    | true => exact inv.resume ht (hkeeps answer)
  | @update url next holds answer ht =>
    have hkeeps := inv.tasks i _ ht
    cases holds with
    | false => exact hkeeps.elim
    | true => exact inv.resume ht (hkeeps answer)
  | @post url body next holds answer ht =>
    have hkeeps := inv.tasks i _ ht
    cases holds with
    | false => exact inv.resume ht (hkeeps answer)
    | true => exact inv.resume ht (hkeeps answer)
  | @drop t ht =>
    exact inv.put ht inv.pool rfl (Or.inl rfl) (by simp) (by simp)

/-- Every run of the tasks keeps the scene orderly. -/
theorem Orderly.interleaving {s s' : Scene α} {es : List (Nat × Event)} (inv : s.Orderly I)
    (h : Interleaving s es s') : s'.Orderly I := by
  induction h with
  | nil => exact inv
  | snoc _ hm ih => exact ih.move hm

/-- A task that checks an endpoint has the lock. -/
theorem Orderly.holds_of_checks {s : Scene α} (inv : s.Orderly I) {i : Nat} (h : s.Checks i) :
    s.Holds i := by
  obtain ⟨place, url, next, holds, ht⟩ := h
  cases holds with
  | false => exact (inv.tasks i _ ht).elim
  | true => exact ⟨_, ht, rfl⟩

end Scene

end ChainAccess.Pool
