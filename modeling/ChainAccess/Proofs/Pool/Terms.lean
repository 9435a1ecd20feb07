import ChainAccess.Proofs.Pool.Discipline
import Mathlib.Data.List.Basic
import Mathlib.Tactic.Common
-- What the tasks on a pool may count on. Each task sees the pool only now and
-- then, and between two looks the others change it. Terms say what holds of
-- the pool all the time, which pools may follow one that was seen, and what
-- may happen. When every routine ends well under the terms within a number of
-- its own steps, every run of any number of tasks keeps to the terms, every
-- task ends well, and no run stands still before all tasks are over.

namespace ChainAccess.Pool

variable {α β : Type}

/-! ## Terms -/

/-- What tasks may count on. -/
structure Terms where
  /-- What holds of the pool at every moment. -/
  holds : Pool → Prop
  /-- Which pools may follow a pool. -/
  follows : Pool → Pool → Prop
  /-- What may happen to a task. -/
  admits : Event → Prop
  refl : ∀ p, follows p p
  trans : ∀ {p q r}, follows p q → follows q r → follows p r

/-- Under the terms whatever a task waits for may come. -/
structure Terms.Lively (T : Terms) : Prop where
  looked : T.admits .looked
  locked : T.admits .locked
  unlocked : T.admits .unlocked
  checked : ∀ place url, ∃ r, T.admits (.checked place url r)
  updated : ∀ url, ∃ r, T.admits (.updated url r)
  posted : ∀ url body, ∃ a, T.admits (.posted url body a)

namespace Routine

variable {T : Terms} {Q : Bool → Pool → α → Prop} {k l : Nat} {holds : Bool} {p : Pool}

/-! ## One routine under terms -/

/-- A routine that saw the pool `p` last keeps to the terms and ends in `Q`
within `k` steps. With the lock it knows that the pool is still `p`; without
it finds any pool that may follow. -/
def Meets (T : Terms) (Q : Bool → Pool → α → Prop) : Nat → Routine α → Bool → Pool → Prop
  | _, .done a, holds, p => Q holds p a
  | 0, _, _, _ => False
  | k + 1, .step change next, true, p =>
    T.holds (change p) ∧ T.follows p (change p) ∧ (next p).Meets T Q k true (change p)
  | k + 1, .step _ next, false, p =>
    ∀ q, T.holds q → T.follows p q → (next q).Meets T Q k false q
  | k + 1, .acquire next, _, p => ∀ q, T.holds q → T.follows p q → next.Meets T Q k true q
  | k + 1, .release next, _, p => next.Meets T Q k false p
  | k + 1, .check place url next, holds, p =>
    ∀ r, T.admits (.checked place url r) → (next r).Meets T Q k holds p
  | k + 1, .update url next, holds, p =>
    ∀ r, T.admits (.updated url r) → (next r).Meets T Q k holds p
  | k + 1, .post url body next, holds, p =>
    ∀ a, T.admits (.posted url body a) → (next a).Meets T Q k holds p

theorem Meets.succ {r : Routine α} (h : r.Meets T Q k holds p) : r.Meets T Q (k + 1) holds p := by
  induction k generalizing r holds p with
  | zero =>
    cases r with
    | done a => exact h
    | _ => exact h.elim
  | succ k ih =>
    cases r with
    | done a => exact h
    | step change next =>
      cases holds with
      | true => exact ⟨h.1, h.2.1, ih h.2.2⟩
      | false => exact fun q hq hf => ih (h q hq hf)
    | acquire next => exact fun q hq hf => ih (h q hq hf)
    | release next => exact ih (r := next) h
    | check place url next => exact fun r hr => ih (h r hr)
    | update url next => exact fun r hr => ih (h r hr)
    | post url body next => exact fun a ha => ih (h a ha)

theorem Meets.mono {r : Routine α} (h : r.Meets T Q k holds p) (hkl : k ≤ l) :
    r.Meets T Q l holds p := by
  induction hkl with
  | refl => exact h
  | step _ ih => exact ih.succ

/-- The steps of two routines in sequence add up. -/
theorem Meets.bind {R : Bool → Pool → β → Prop} {r : Routine α} {next : α → Routine β}
    (h : r.Meets T (fun holds q a => (next a).Meets T R l holds q) k holds p) :
    (r >>= next).Meets T R (l + k) holds p := by
  induction k generalizing r holds p with
  | zero =>
    cases r with
    | done a => exact h
    | _ => exact h.elim
  | succ k ih =>
    cases r with
    | done a => exact Meets.mono (r := next a) h (by omega)
    | step change rest =>
      cases holds with
      | true => exact ⟨h.1, h.2.1, ih h.2.2⟩
      | false => exact fun q hq hf => ih (h q hq hf)
    | acquire rest => exact fun q hq hf => ih (h q hq hf)
    | release rest => exact ih (r := rest) h
    | check place url rest => exact fun r hr => ih (h r hr)
    | update url rest => exact fun r hr => ih (h r hr)
    | post url body rest => exact fun a ha => ih (h a ha)

/-! ## Single steps -/

@[simp] theorem meets_pure {a : α} :
    (pure a : Routine α).Meets T Q k holds p ↔ Q holds p a := by
  cases k <;> exact Iff.rfl

variable {R : Bool → Pool → β → Prop}

@[simp] theorem meets_view_bind_free {f : Pool → α} {next : α → Routine β} :
    (view f >>= next).Meets T R (k + 1) false p ↔
      ∀ q, T.holds q → T.follows p q → (next (f q)).Meets T R k false q := Iff.rfl

@[simp] theorem meets_step_bind_held {change : Pool → Pool} {f : Pool → α} {next : α → Routine β} :
    ((step change fun p => .done (f p)) >>= next).Meets T R (k + 1) true p ↔
      T.holds (change p) ∧ T.follows p (change p) ∧ (next (f p)).Meets T R k true (change p) :=
  Iff.rfl

@[simp] theorem meets_lock_bind {next : Unit → Routine β} :
    (lock >>= next).Meets T R (k + 1) holds p ↔
      ∀ q, T.holds q → T.follows p q → (next ()).Meets T R k true q := Iff.rfl

@[simp] theorem meets_unlock_bind {next : Unit → Routine β} :
    (unlock >>= next).Meets T R (k + 1) holds p ↔ (next ()).Meets T R k false p := Iff.rfl

/-! ## Steps that wait for an answer -/

theorem Meets.check {place : Nat} {url : String} {next : Except RpcError Nat → Routine α}
    (h : (check place url next).Meets T Q k holds p) :
    ∃ l, k = l + 1 ∧ ∀ r, T.admits (.checked place url r) → (next r).Meets T Q l holds p := by
  cases k with
  | zero => exact h.elim
  | succ k => exact ⟨k, rfl, h⟩

theorem Meets.update {url : String} {next : Except RpcError Unit → Routine α}
    (h : (update url next).Meets T Q k holds p) :
    ∃ l, k = l + 1 ∧ ∀ r, T.admits (.updated url r) → (next r).Meets T Q l holds p := by
  cases k with
  | zero => exact h.elim
  | succ k => exact ⟨k, rfl, h⟩

theorem Meets.post {url : String} {body : Json} {next : Http.Answer → Routine α}
    (h : (post url body next).Meets T Q k holds p) :
    ∃ l, k = l + 1 ∧ ∀ a, T.admits (.posted url body a) → (next a).Meets T Q l holds p := by
  cases k with
  | zero => exact h.elim
  | succ k => exact ⟨k, rfl, h⟩

end Routine

/-! ## All tasks under terms -/

/-- A task was not dropped, keeps to the terms while the pool is `p`, and ends
well within `k` more steps: it saw a pool that `p` may follow, and `p` itself
if it has the lock. -/
def Task.Meets (T : Terms) (Q : Pool → α → Prop) (k : Nat) (p : Pool) (t : Task α) : Prop :=
  match t.rest with
  | none => False
  | some r => ∃ seen, T.follows seen p ∧ (t.holds = true → seen = p) ∧
      r.Meets T (fun holds q a => holds = false ∧ Q q a) k t.holds seen

variable {T : Terms} {Q : Pool → α → Prop} {k : Nat} {p q : Pool}

/-- Without the lock a task meets any pool that may follow. -/
theorem Task.Meets.of_free {t : Task α} (h : t.Meets T Q k p) (hfree : t.holds = false)
    (hpq : T.follows p q) : t.Meets T Q k q := by
  obtain ⟨rest, holds⟩ := t
  cases rest with
  | none => exact h.elim
  | some r =>
    cases hfree
    obtain ⟨seen, hseen, -, hr⟩ := h
    exact ⟨seen, T.trans hseen hpq, by simp, hr⟩

/-- A task that ended has ended well. -/
theorem Task.Meets.ended {holds : Bool} {a : α} (h : Task.Meets T Q k p ⟨some (.done a), holds⟩) :
    ∃ seen, T.follows seen p ∧ Q seen a := by
  obtain ⟨seen, hseen, -, hr⟩ := h
  cases k <;> exact ⟨seen, hseen, hr.2⟩

/-- A task that goes on with the pool it saw last. -/
theorem Task.Meets.of_seen {r : Routine α} {holds : Bool}
    (h : r.Meets T (fun holds q a => holds = false ∧ Q q a) k holds p) :
    Task.Meets T Q k p ⟨some r, holds⟩ :=
  ⟨p, T.refl p, fun _ => rfl, h⟩

/-- What a task makes of the pool under the lock, and what it finds without. -/
theorem Task.Meets.look {change : Pool → Pool} {next : Pool → Routine α} {holds : Bool}
    (h : Task.Meets T Q k p ⟨some (.step change next), holds⟩) (hp : T.holds p)
    (hfree : holds = false → change p = p) :
    T.holds (change p) ∧ T.follows p (change p) ∧
      ∃ l, k = l + 1 ∧ Task.Meets T Q l (change p) ⟨some (next p), holds⟩ := by
  obtain ⟨seen, hseen, hsame, hr⟩ := h
  cases k with
  | zero => exact hr.elim
  | succ k =>
    cases holds with
    | true =>
      cases hsame rfl
      exact ⟨hr.1, hr.2.1, k, rfl, .of_seen hr.2.2⟩
    | false =>
      rw [hfree rfl]
      exact ⟨hp, T.refl p, k, rfl, .of_seen (hr p hp hseen)⟩

theorem Task.Meets.lock {next : Routine α} {holds : Bool}
    (h : Task.Meets T Q k p ⟨some (.acquire next), holds⟩) (hp : T.holds p) :
    ∃ l, k = l + 1 ∧ Task.Meets T Q l p ⟨some next, true⟩ := by
  obtain ⟨seen, hseen, -, hr⟩ := h
  cases k with
  | zero => exact hr.elim
  | succ k => exact ⟨k, rfl, .of_seen (hr p hp hseen)⟩

theorem Task.Meets.unlock {next : Routine α} {holds : Bool}
    (h : Task.Meets T Q k p ⟨some (.release next), holds⟩) :
    ∃ l, k = l + 1 ∧ Task.Meets T Q l p ⟨some next, false⟩ := by
  obtain ⟨seen, hseen, -, hr⟩ := h
  cases k with
  | zero => exact hr.elim
  | succ k => exact ⟨k, rfl, seen, hseen, by simp, hr⟩

/-- A task goes on with any answer that the terms admit. -/
theorem Task.Meets.answered {ρ : Type} {r : Routine α} {next : ρ → Routine α} {heard : ρ → Event}
    {holds : Bool} (h : Task.Meets T Q k p ⟨some r, holds⟩)
    (hnext : ∀ k seen, r.Meets T (fun holds q a => holds = false ∧ Q q a) k holds seen →
      ∃ l, k = l + 1 ∧ ∀ x, T.admits (heard x) →
        (next x).Meets T (fun holds q a => holds = false ∧ Q q a) l holds seen)
    {x : ρ} (hx : T.admits (heard x)) :
    ∃ l, k = l + 1 ∧ Task.Meets T Q l p ⟨some (next x), holds⟩ := by
  obtain ⟨seen, hseen, hsame, hr⟩ := h
  obtain ⟨l, rfl, hl⟩ := hnext k seen hr
  exact ⟨l, rfl, seen, hseen, hsame, hl x hx⟩

/-- A task is over: it was dropped, or it ended. -/
def Task.IsOver (t : Task α) : Prop := t.rest = none ∨ ∃ a, t.rest = some (.done a)

/-- The steps of task `i` among those of a run. -/
def stepsOf (i : Nat) (es : List (Nat × Event)) : Nat := es.countP (·.1 = i)

theorem stepsOf_snoc (i j : Nat) (es : List (Nat × Event)) (e : Event) :
    stepsOf i (es ++ [(j, e)]) = stepsOf i es + if j = i then 1 else 0 := by
  by_cases hj : j = i <;> simp [stepsOf, hj]

namespace Scene

/-- After the steps of a run the tasks keep to the terms, and each of them
ends well within `K` steps in all. -/
structure Meets (T : Terms) (Q : Nat → Pool → α → Prop) (K : Nat) (es : List (Nat × Event))
    (s : Scene α) : Prop where
  pool : T.holds s.pool
  tasks : ∀ (i : Nat) (t : Task α), s.tasks[i]? = some t →
    ∃ k, k + stepsOf i es ≤ K ∧ t.Meets T (Q i) k s.pool

variable {Q : Nat → Pool → α → Prop} {K : Nat} {es fs : List (Nat × Event)} {s s' : Scene α}
  {I : Pool → Prop} {i : Nat} {e : Event}

theorem meets_start {rs : List (Routine α)} (hp : T.holds p)
    (hrs : ∀ (i : Nat) (r : Routine α), rs[i]? = some r →
      r.Meets T (fun holds q a => holds = false ∧ Q i q a) K false p) :
    (start p rs).Meets T Q K [] := by
  refine ⟨hp, fun i t ht => ⟨K, Nat.le_refl K, ?_⟩⟩
  simp only [start, List.getElem?_map, Option.map_eq_some_iff] at ht
  obtain ⟨r, hr, rfl⟩ := ht
  exact ⟨p, T.refl p, by simp, hrs i r hr⟩

/-- A step of task `i` keeps the tasks to the terms when its new state does and
the pool changes only under the lock. -/
theorem Meets.put (h : s.Meets T Q K es) (inv : s.Orderly I) {t u : Task α} {l : Bool}
    (hu : s.tasks[i]? = some u) (hq : T.holds q) (hpq : T.follows s.pool q)
    (hpool : q = s.pool ∨ u.holds = true) (hk : k + 1 + stepsOf i es ≤ K)
    (ht : t.Meets T (Q i) k q) :
    ({ s with pool := q, locked := l }.put i t).Meets T Q K (es ++ [(i, e)]) := by
  refine ⟨hq, fun j v hv => ?_⟩
  rcases task_put hv with ⟨rfl, rfl⟩ | ⟨hji, hjv⟩
  · exact ⟨k, by rw [stepsOf_snoc, if_pos rfl]; omega, ht⟩
  · obtain ⟨k, hk, hmeets⟩ := h.tasks _ _ hjv
    refine ⟨k, by rw [stepsOf_snoc, if_neg (Ne.symm hji)]; omega, ?_⟩
    rcases hpool with rfl | hui
    · exact hmeets
    -- the pool has changed under the lock, so task `j` is without it
    · refine hmeets.of_free ?_ hpq
      cases hc : v.holds with
      | false => rfl
      | true => exact absurd (inv.exclusive _ _ ⟨v, hjv, hc⟩ ⟨u, hu, hui⟩) hji

/-- Every step but a drop keeps the tasks to the terms. -/
theorem Meets.move (h : s.Meets T Q K es) (inv : s.Orderly I) (hm : Move s i e s')
    (he : T.admits e) (hdrop : e ≠ .dropped) :
    s'.Meets T Q K (es ++ [(i, e)]) ∧ T.follows s.pool s'.pool := by
  cases hm with
  | @look change next holds ht =>
    obtain ⟨k, hk, hmeets⟩ := h.tasks _ _ ht
    have hfree : holds = false → change s.pool = s.pool := by
      rintro rfl
      exact (inv.tasks _ _ ht s.pool inv.pool).1
    obtain ⟨hq, hf, l, rfl, hl⟩ := hmeets.look h.pool hfree
    refine ⟨h.put inv ht hq hf ?_ hk hl, hf⟩
    cases holds with
    | true => exact Or.inr rfl
    | false => exact Or.inl (hfree rfl)
  | @lock next holds ht hlocked =>
    obtain ⟨k, hk, hmeets⟩ := h.tasks _ _ ht
    obtain ⟨l, rfl, hl⟩ := hmeets.lock h.pool
    exact ⟨h.put inv ht h.pool (T.refl _) (Or.inl rfl) hk hl, T.refl _⟩
  | @unlock next holds ht =>
    obtain ⟨k, hk, hmeets⟩ := h.tasks _ _ ht
    obtain ⟨l, rfl, hl⟩ := hmeets.unlock
    exact ⟨h.put inv ht h.pool (T.refl _) (Or.inl rfl) hk hl, T.refl _⟩
  | @check place url next holds r ht =>
    obtain ⟨k, hk, hmeets⟩ := h.tasks _ _ ht
    obtain ⟨l, rfl, hl⟩ := hmeets.answered (fun _ _ => Routine.Meets.check) he
    exact ⟨h.put inv ht h.pool (T.refl _) (Or.inl rfl) hk hl, T.refl _⟩
  | @update url next holds r ht =>
    obtain ⟨k, hk, hmeets⟩ := h.tasks _ _ ht
    obtain ⟨l, rfl, hl⟩ := hmeets.answered (fun _ _ => Routine.Meets.update) he
    exact ⟨h.put inv ht h.pool (T.refl _) (Or.inl rfl) hk hl, T.refl _⟩
  | @post url body next holds a ht =>
    obtain ⟨k, hk, hmeets⟩ := h.tasks _ _ ht
    obtain ⟨l, rfl, hl⟩ := hmeets.answered (fun _ _ => Routine.Meets.post) he
    exact ⟨h.put inv ht h.pool (T.refl _) (Or.inl rfl) hk hl, T.refl _⟩
  | drop ht => exact absurd rfl hdrop

/-! ## Standing still -/

/-- A task that is not over can take a step that the terms admit, unless it
waits for the lock and the lock is taken. -/
theorem exists_move (hT : T.Lively) {r : Routine α} {holds : Bool}
    (ht : s.tasks[i]? = some ⟨some r, holds⟩) (hr : ∀ a, r ≠ .done a)
    (hlock : (∃ next, r = .acquire next) → s.locked = false) :
    ∃ e s', Move s i e s' ∧ T.admits e := by
  cases r with
  | done a => exact absurd rfl (hr a)
  | step change next => exact ⟨_, _, .look ht, hT.looked⟩
  | acquire next => exact ⟨_, _, .lock ht (hlock ⟨next, rfl⟩), hT.locked⟩
  | release next => exact ⟨_, _, .unlock ht, hT.unlocked⟩
  | check place url next =>
    obtain ⟨r, hr⟩ := hT.checked place url
    exact ⟨_, _, .check r ht, hr⟩
  | update url next =>
    obtain ⟨r, hr⟩ := hT.updated url
    exact ⟨_, _, .update r ht, hr⟩
  | post url body next =>
    obtain ⟨a, ha⟩ := hT.posted url body
    exact ⟨_, _, .post a ht, ha⟩

/-- Orderly tasks never stand still before all of them are over. -/
theorem Orderly.over_or_moves (inv : s.Orderly I) (hT : T.Lively) :
    (∀ (i : Nat) (t : Task α), s.tasks[i]? = some t → t.IsOver) ∨
      ∃ i e s', Move s i e s' ∧ T.admits e := by
  by_cases hover : ∀ (i : Nat) (t : Task α), s.tasks[i]? = some t → t.IsOver
  · exact Or.inl hover
  right
  simp only [not_forall] at hover
  obtain ⟨i, ⟨rest, holds⟩, ht, hnot⟩ := hover
  simp only [Task.IsOver, not_or, not_exists] at hnot
  cases hl : s.locked with
  | true =>
    -- the task that has the lock can go on
    obtain ⟨j, ⟨rest', holds'⟩, hj, hh⟩ := inv.locked_iff.mp hl
    cases hh
    have hkeeps := inv.tasks j _ hj
    cases rest' with
    | none => cases hkeeps
    | some r =>
      refine ⟨j, exists_move hT hj ?_ ?_⟩
      · rintro a rfl
        cases hkeeps
      · rintro ⟨next, rfl⟩
        exact hkeeps.elim
  | false =>
    cases rest with
    | none => exact absurd rfl hnot.1
    | some r => exact ⟨i, exists_move hT ht (fun a ha => hnot.2 a (by rw [ha])) fun _ => hl⟩

end Scene

end ChainAccess.Pool
