import ChainAccess.Workflow.Basic
import Mathlib.Tactic.Common
-- How workflows end that are made of parts: what the parts must have ended
-- with, and the worlds between them.

namespace ChainAccess

/-- What a workflow ends with, unless it is cut off. -/
def Outcome.answer? {ε α : Type} : Outcome ε α → Option (Except ε α)
  | .done a => some (.ok a)
  | .failed e => some (.error e)
  | .expired => none

namespace Workflow

variable {σ ε ε' α β : Type} {m : Workflow σ ε α} {d : Option Nat} {w v : World σ}

/-! ## Parts in sequence -/

theorem bind_done_iff {k : α → Workflow σ ε β} {b : β} :
    (m >>= k) d w = (.done b, v) ↔ ∃ a u, m d w = (.done a, u) ∧ k a d u = (.done b, v) := by
  show andThen m k d w = (.done b, v) ↔ _
  unfold andThen
  rcases m d w with ⟨a | e | _, u⟩
  · simp
  · simp
  · simp

theorem bind_failed_iff {k : α → Workflow σ ε β} {e : ε} :
    (m >>= k) d w = (.failed e, v) ↔
      m d w = (.failed e, v) ∨ ∃ a u, m d w = (.done a, u) ∧ k a d u = (.failed e, v) := by
  show andThen m k d w = (.failed e, v) ↔ _
  unfold andThen
  rcases m d w with ⟨a | e | _, u⟩
  · simp
  · simp
  · simp

theorem bind_of_done {k : α → Workflow σ ε β} {a : α} (h : m d w = (.done a, v)) :
    (m >>= k) d w = k a d v := by
  show andThen m k d w = _
  rw [andThen, h]

theorem bind_bind {γ : Type} {k : α → Workflow σ ε β} {l : β → Workflow σ ε γ} :
    (m >>= k) >>= l = m >>= fun a => k a >>= l := by
  funext d w
  show andThen (andThen m k) l d w = andThen m (fun a => andThen (k a) l) d w
  unfold andThen
  rcases m d w with ⟨a | e | _, v⟩ <;> rfl

theorem value_bind {a : α} {k : α → Workflow σ ε β} :
    (pure a : Workflow σ ε α) >>= k = k a := rfl

/-! ## Failures -/

theorem caught_done_iff {r : Except ε α} :
    (m.caught : Workflow σ ε' (Except ε α)) d w = (.done r, v) ↔
      (∃ a, r = .ok a ∧ m d w = (.done a, v)) ∨ ∃ e, r = .error e ∧ m d w = (.failed e, v) := by
  unfold caught
  rcases m d w with ⟨a | e | _, u⟩ <;> cases r <;> simp

/-- A part whose failure is caught goes on unless it is cut off. -/
theorem caught_bind {k : Except ε α → Workflow σ ε' β} :
    ((m.caught : Workflow σ ε' (Except ε α)) >>= k) d w =
      match (m d w).1.answer? with
      | some r => k r d (m d w).2
      | none => (.expired, (m d w).2) := by
  show andThen m.caught k d w = _
  unfold andThen caught
  rcases m d w with ⟨a | e | _, v⟩ <;> rfl

/-- What follows a part can also be told of its caught failure. -/
theorem bind_eq_caught {k : α → Workflow σ ε β} :
    m >>= k = (m.caught : Workflow σ ε (Except ε α)) >>= fun r =>
      match r with
      | .ok a => k a
      | .error e => fail e := by
  funext d w
  show andThen m k d w = andThen m.caught _ d w
  unfold andThen caught
  rcases m d w with ⟨a | e | _, v⟩ <;> rfl

theorem withError_done_iff {f : ε → ε'} {a : α} :
    m.withError f d w = (.done a, v) ↔ m d w = (.done a, v) := by
  unfold withError
  rcases m d w with ⟨a | e | _, u⟩ <;> simp

theorem withError_of_failed {f : ε → ε'} {e : ε} (h : m d w = (.failed e, v)) :
    m.withError f d w = (.failed (f e), v) := by
  simp [withError, h]

theorem withError_failed_iff {f : ε → ε'} {e : ε'} :
    m.withError f d w = (.failed e, v) ↔ ∃ e', m d w = (.failed e', v) ∧ f e' = e := by
  unfold withError
  rcases m d w with ⟨a | e' | _, u⟩ <;> simp [and_comm]

theorem ofExcept_done_iff {r : Except ε α} {a : α} :
    (ofExcept r : Workflow σ ε α) d w = (.done a, v) ↔ r = .ok a ∧ v = w := by
  cases r with
  | ok b =>
    simp [ofExcept, value, eq_comm]
  | error e => simp [ofExcept, fail]

theorem ofExcept_inj {r s : Except ε α} :
    (ofExcept r : Workflow σ ε α) d w = ofExcept s d w ↔ r = s := by
  cases r <;> cases s <;> simp [Workflow.ofExcept, value, fail]

theorem ofExcept_bind_of_ok {r : Except ε α} {k : α → Workflow σ ε β} {a : α} (h : r = .ok a) :
    ofExcept r >>= k = k a := by
  subst h
  rfl

theorem ofExcept_bind_of_error {r : Except ε α} {k : α → Workflow σ ε β} {e : ε}
    (h : r = .error e) : ofExcept r >>= k = fail e := by
  subst h
  rfl

theorem outcome_bind_ofExcept_iff {g : α → Except ε β} {b : β} :
    ((m >>= fun a => ofExcept (g a)).run w).1 = .done b ↔
      ∃ a, (m.run w).1 = .done a ∧ g a = .ok b := by
  show (andThen m (fun a => ofExcept (g a)) none w).1 = .done b ↔ ∃ a, (m none w).1 = .done a ∧ _
  unfold andThen
  rcases m none w with ⟨a | e | _, v⟩
  · cases hg : g a with
    | ok c => simp [hg, Workflow.ofExcept, value]
    | error e => simp [hg, Workflow.ofExcept, fail]
  · simp
  · simp

theorem world_bind_pure (f : α → β) :
    ((m >>= fun a => pure (f a)).run w).2 = (m.run w).2 := by
  show (andThen m _ none w).2 = (m none w).2
  unfold andThen
  rcases m none w with ⟨a | e | _, v⟩ <;> rfl

/-- Parts that go on with their values alike come to the same just when they did. -/
theorem outcome_bind_pure_iff {f : α → β} (hf : Function.Injective f) {n : Workflow σ ε α} :
    ((m >>= fun a => pure (f a)).run w).1 = ((n >>= fun a => pure (f a)).run v).1 ↔
      (m.run w).1 = (n.run v).1 := by
  show (andThen m _ none w).1 = (andThen n _ none v).1 ↔ (m none w).1 = (n none v).1
  unfold andThen
  rcases m none w with ⟨a | e | _, w'⟩ <;> rcases n none v with ⟨a' | e' | _, v'⟩ <;>
    simp [pure, value, hf.eq_iff]

theorem mapError_eq_ok_iff {f : ε → ε'} {r : Except ε α} {a : α} :
    r.mapError f = .ok a ↔ r = .ok a := by
  cases r <;> simp [Except.mapError]

theorem mapError_eq_error_iff {f : ε → ε'} {r : Except ε α} {e : ε'} :
    r.mapError f = .error e ↔ ∃ e', r = .error e' ∧ f e' = e := by
  cases r <;> simp [Except.mapError]

/-! ## Deadlines -/

/-- The time by which a workflow is over that may take `ms`. -/
def limitOf (d : Option Nat) (w : World σ) (ms : Nat) : Nat :=
  d.elim (w.clock + ms) (min (w.clock + ms))

variable {ms : Nat} {late : Workflow σ ε α}

theorem within_eq :
    m.within ms late d w =
      match m (some (limitOf d w ms)) w with
      | (.expired, v) => if d.all (w.clock + ms ≤ ·) then late d v else (.expired, v)
      | ended => ended := rfl

theorem within_of_ended {o : Outcome ε α} (h : m (some (limitOf d w ms)) w = (o, v))
    (ho : o ≠ .expired) : m.within ms late d w = (o, v) := by
  rw [within_eq, h]
  cases o with
  | done a => rfl
  | failed e => rfl
  | expired => exact absurd rfl ho

/-- A workflow that runs out of its own time goes on as `late`. -/
theorem within_of_expired (h : m (some (limitOf d w ms)) w = (.expired, v))
    (hown : d.all (w.clock + ms ≤ ·) = true) : m.within ms late d w = late d v := by
  rw [within_eq, h]
  exact if_pos hown

/-- A workflow that is cut off before its own time is over stays so. -/
theorem within_of_expired_before (h : m (some (limitOf d w ms)) w = (.expired, v))
    (hown : ¬ d.all (w.clock + ms ≤ ·) = true) : m.within ms late d w = (.expired, v) := by
  rw [within_eq, h]
  exact if_neg hown

/-- Without another deadline a workflow that is cut off goes on as `late`. -/
theorem within_alone (ms : Nat) (late : Workflow σ ε α) :
    m.within ms late none w =
      match m (some (w.clock + ms)) w with
      | (.expired, v) => late none v
      | ended => ended := by
  rcases hm : m (some (w.clock + ms)) w with ⟨a | e | _, v⟩ <;> simp [within, hm]

end Workflow

end ChainAccess
