import ChainAccess.Gas.Estimator
import ChainAccess.Proofs.Gas.Estimation
import ChainAccess.Proofs.Handle.Outward
import Mathlib.Tactic.Common
-- Workflows that leave the last known estimates alone. Nothing that goes through a
-- handle touches them; so whatever a limit asks for, it has to record an estimate itself.

namespace ChainAccess

variable {σ ε α : Type}

namespace Workflow

/-- The workflow leaves the estimates as they are, under any deadline. -/
def SparesEstimates (m : Workflow σ ε α) : Prop := ∀ d w, (m d w).2.estimates = w.estimates

/-- By induction on the parts: none of them writes to anything but node, clock and log. -/
theorem Outward.spares {m : Workflow σ ε α} (hm : Outward m) : SparesEstimates m := by
  induction hm with
  | value a => exact fun _ _ => rfl
  | fail e => exact fun _ _ => rfl
  | note e => exact fun _ _ => rfl
  | pass ms =>
    intro d w
    unfold Workflow.pass
    cases d with
    | none => rfl
    | some limit =>
      dsimp only
      split <;> rfl
  | look f => exact fun _ _ => rfl
  | exchange call =>
    intro d w
    unfold Transport.exchange
    dsimp only
    split <;> rfl
  | @bind ε α β m k hm hk ihm ihk =>
    intro d w
    have hfirst := ihm d w
    show (andThen m k d w).2.estimates = w.estimates
    unfold andThen
    rcases hrun : m d w with ⟨a | e | _, v⟩ <;> rw [hrun] at hfirst
    · exact (ihk a d v).trans hfirst
    · exact hfirst
    · exact hfirst
  | @caught ε ε' α m hm ih =>
    intro d w
    have hfirst := ih d w
    unfold Workflow.caught
    rcases hrun : m d w with ⟨a | e | _, v⟩ <;> rw [hrun] at hfirst <;> exact hfirst
  | @withError ε ε' α m f hm ih =>
    intro d w
    have hfirst := ih d w
    unfold Workflow.withError
    rcases hrun : m d w with ⟨a | e | _, v⟩ <;> rw [hrun] at hfirst <;> exact hfirst
  | @within ε α m late ms hm hlate ihm ihlate =>
    intro d w
    have hfirst := ihm (some (limitOf d w ms)) w
    rw [within_eq]
    rcases hrun : m (some (limitOf d w ms)) w with ⟨a | e | _, v⟩ <;> rw [hrun] at hfirst
    · exact hfirst
    · exact hfirst
    · dsimp only
      split
      · exact (ihlate d v).trans hfirst
      · exact hfirst

end Workflow

open Workflow

namespace Gas.Estimator

theorem outward_latestBlock (h : Handle σ) : Outward h.latestBlock :=
  h.outward_retrying h.transport.outward_latestBlock

theorem outward_price (e : Estimator) (h : Handle σ) : Outward (e.price h) :=
  .bind (.caught (h.outward_retrying (h.transport.outward_ask _ _ _))) fun _ => .value _

theorem outward_surcharge (e : Estimator) (h : Handle σ) (plan : TransactionPlan) :
    Outward (e.surcharge h plan) := by
  unfold surcharge
  cases e.assignmentSource? plan with
  | none => exact .value 0
  | some c =>
    exact .bind (c.outward_callRetrying h _ _) fun _ => .bind (outward_ofExcept _) fun _ =>
      .value _

theorem outward_estimate (e : Estimator) (h : Handle σ) (plan : TransactionPlan) (price : Word)
    (data : Bytes) : Outward (e.estimate h plan price data) := by
  unfold estimate
  refine .bind (h.outward_retrying (h.transport.outward_ask _ _ _)) fun gas => ?_
  by_cases hreveal : plan.method = revealMethod
  · simp only [hreveal, if_true]
    exact .bind (outward_surcharge e h plan) fun _ => .value _
  · simp only [hreveal, if_false]
    exact .value gas

theorem spares_estimate (e : Estimator) (h : Handle σ) (plan : TransactionPlan) (price : Word)
    (data : Bytes) : SparesEstimates (e.estimate h plan price data) :=
  (outward_estimate e h plan price data).spares

/-- The block is all that is asked for, and the estimates are only read. -/
theorem spares_behindGateway (e : Estimator) (h : Handle σ) (method : String) (w : World σ) :
    ((e.behindGateway h method).run w).2.estimates = w.estimates := by
  have hblock := (outward_latestBlock h).spares none w
  rw [behindGateway_run]
  unfold Workflow.run
  rcases hrun : h.latestBlock none w with ⟨block | unread | _, v⟩ <;> rw [hrun] at hblock
  · exact hblock
  · cases e.policy.limitOverride <;> exact hblock
  · exact hblock

end Gas.Estimator

end ChainAccess
