import ChainAccess.Gas.Estimator
import ChainAccess.Proofs.Handle.Transcripts
-- What is asked for the limit of a transaction: estimates of the call that is to be signed,
-- calls that only read, and blocks.

namespace ChainAccess.Gas.Estimator

open Workflow

variable {σ : Type} {e : Estimator} {h : Handle σ} {plan : TransactionPlan} {price : Word}

/-- The exchange belongs to the limit of a plan at a price: an estimate of the
call that the plan makes, or a call or a block that is only read. -/
def AsksLimit (plan : TransactionPlan) (price : Word) (x : Exchange) : Prop :=
  (∃ data, plan.callData = .ok data ∧
    x.IsFor "eth_estimateGas" [(simulated plan price data).toJson]) ∨
  x.method? = some "eth_call" ∨ x.method? = some "eth_getBlockByNumber"

/-- A call of a contract asks for nothing but calls. -/
theorem asksOnly_callRetrying (c : Contract) (h : Handle σ) (method : String)
    (args : List Abi.Value) :
    AsksOnly (fun x => x.method? = some "eth_call") (c.callRetrying h.transcribed method args)
      (c.callRetrying h method args) := by
  refine Handle.asksOnly_retrying ?_
  refine asksOnly_ofExcept_bind fun f _ => ?_
  refine asksOnly_ofExcept_bind fun data _ => ?_
  refine AsksOnly.bind ?_ fun output => ?_
  · exact (h.transport.asksOnly_ask _ _ _).mono fun x hx => hx.method?
  · cases f.returned output with
    | ok values => exact asksOnly_value values
    | error failure => exact asksOnly_fail failure

theorem asksOnly_surcharge (e : Estimator) (h : Handle σ) (plan : TransactionPlan) :
    AsksOnly (fun x => x.method? = some "eth_call") (e.surcharge h.transcribed plan)
      (e.surcharge h plan) := by
  unfold surcharge
  cases e.assignmentSource? plan with
  | none => exact asksOnly_value 0
  | some c =>
    refine (asksOnly_callRetrying c h _ _).bind fun values => ?_
    exact asksOnly_ofExcept_bind fun count _ => asksOnly_value _

theorem asksOnly_estimate (e : Estimator) (h : Handle σ) {data : Bytes}
    (hdata : plan.callData = .ok data) :
    AsksOnly (AsksLimit plan price) (e.estimate h.transcribed plan price data)
      (e.estimate h plan price data) := by
  refine AsksOnly.bind ?_ fun gas => ?_
  · refine (Handle.asksOnly_retrying (h.transport.asksOnly_ask _ _ _)).mono fun x hx => ?_
    exact Or.inl ⟨data, hdata, hx⟩
  · by_cases hreveal : plan.method = revealMethod
    · simp only [hreveal, if_true]
      refine AsksOnly.bind ?_ fun more => asksOnly_value _
      exact (asksOnly_surcharge e h plan).mono fun x hx => Or.inr (Or.inl hx)
    · simp only [hreveal, if_false]
      exact asksOnly_value gas

theorem asksOnly_behindGateway (e : Estimator) (h : Handle σ) (method : String) :
    AsksOnly (AsksLimit plan price) (e.behindGateway h.transcribed method)
      (e.behindGateway h method) := by
  have hblock : AsksOnly (AsksLimit plan price) h.transcribed.latestBlock h.latestBlock := by
    refine Handle.asksOnly_retrying (AsksOnly.bind ?_ fun block => ?_)
    · exact (h.transport.asksOnly_ask _ _ _).mono fun x hx => Or.inr (Or.inr hx.method?)
    · cases block with
      | some b => exact asksOnly_value b
      | none => exact asksOnly_fail _
  refine hblock.caught.bind fun r => ?_
  cases r with
  | error failure =>
    cases hlimit : e.policy.limitOverride with
    | some limit => exact asksOnly_value limit
    | none => exact asksOnly_fail _
  | ok block =>
    -- the estimates of the world are the same with a transcript
    exact fun d w => ⟨[], fun past => by rw [List.append_nil]; rfl, by simp⟩

/-- The gas limit of a plan asks only for what belongs to it. -/
theorem asksOnly_limit (e : Estimator) (h : Handle σ) (plan : TransactionPlan) (price : Word) :
    AsksOnly (AsksLimit plan price) (e.limit h.transcribed plan price) (e.limit h plan price) := by
  unfold limit
  by_cases htransfer : plan.isTransfer = true
  · simp only [htransfer, if_true]
    exact asksOnly_value _
  · simp only [htransfer]
    refine asksOnly_ofExcept_bind fun data hdata => ?_
    refine (asksOnly_estimate e h (mapError_eq_ok_iff.mp hdata)).caught.bind fun r => ?_
    cases r with
    | ok gas =>
      refine AsksOnly.bind ?_ fun _ => asksOnly_value _
      exact fun d w => ⟨[], transcribes_change fun _ => rfl, by simp⟩
    | error failure =>
      by_cases hgateway : failure.isGateway = true
      · simp only [hgateway, if_true]
        exact asksOnly_behindGateway e h plan.method
      · simp only [hgateway]
        cases e.policy.limitOverride with
        | some limit => exact asksOnly_value limit
        | none => exact asksOnly_fail _

end ChainAccess.Gas.Estimator
