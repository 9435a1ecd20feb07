import ChainAccess.Proofs.Gas.Estimation
import ChainAccess.Proofs.Handle.Endings
import ChainAccess.Proofs.Pool.Failures
-- Where the gas limit of a call comes from. An estimate is scaled; behind a failing
-- gateway the block bounds whatever is scaled in its place; any other failure stands
-- unless the settings have a limit of their own. Answers with the status of a failing
-- gateway are always taken for one.

namespace ChainAccess.Gas.Estimator

open Workflow

variable {σ : Type} {e : Estimator} {h : Handle σ} {plan : TransactionPlan} {price : Word}
  {w₀ : World σ}

/-- How the limit of a plan falls back, step by step. -/
structure FallsBack (e : Estimator) (h : Handle σ) (plan : TransactionPlan) (price : Word)
    (w₀ : World σ) : Prop where
  unencoded : ∀ failure, plan.callData = .error failure →
    (e.limit h plan price).run w₀ = (.failed (.rpc failure), w₀) ∧
      (failure = .methodNotFound plan.method ∨ ∃ text, failure = .encoding text)
  estimated : ∀ data gas w₁, plan.callData = .ok data →
    Estimated e h plan price data w₀ gas w₁ →
    ∃ limit v, (e.limit h plan price).run w₀ = (.done limit, v) ∧
      limit.toNat = min (e.policy.limitFactor.times gas.toNat) (UInt64.size - 1)
  bounded : ∀ data failure w₁ block w₂, plan.callData = .ok data →
    Unestimated e h plan price data w₀ failure w₁ → failure.isGateway = true →
    h.latestBlock.run w₁ = (.done block, w₂) →
    ∃ limit, (e.limit h plan price).run w₀ = (.done limit, w₂) ∧ limit ≤ block.gasLimit
  overridden : ∀ data, plan.callData = .ok data → e.policy.limitOverride ≠ none →
    (∀ failure v, (e.limit h plan price).run w₀ ≠ (.failed failure, v)) ∧
      (h.Attends → ∃ limit v, (e.limit h plan price).run w₀ = (.done limit, v))
  surfaced : ∀ data failure w₁, plan.callData = .ok data → e.policy.limitOverride = none →
    Unestimated e h plan price data w₀ failure w₁ → failure.isGateway = false →
    (e.limit h plan price).run w₀ = (.failed (.rpc failure), w₁)
  blockless : ∀ text v, (e.limit h plan price).run w₀ = (.failed (.gasEstimation text), v) ↔
    e.policy.limitOverride = none ∧ ∃ data failure w₁ unread, plan.callData = .ok data ∧
      Unestimated e h plan price data w₀ failure w₁ ∧ failure.isGateway = true ∧
      h.latestBlock.run w₁ = (.failed unread, v) ∧
      text = "Failed to fetch latest block: " ++ unread.message

/-! ## Steps -/

theorem callData_error (hmethod : plan.method ≠ "") {failure : RpcError}
    (hdata : plan.callData = .error failure) :
    failure = .methodNotFound plan.method ∨ ∃ text, failure = .encoding text := by
  have hcall : plan.isTransfer = false := TransactionPlan.isTransfer_eq_false_iff.mpr hmethod
  unfold TransactionPlan.callData at hdata
  rw [hcall] at hdata
  unfold Abi.Interface.callData at hdata
  cases hfind : plan.interface.find plan.method (some plan.args.length) with
  | error missing =>
    rw [hfind] at hdata
    cases hdata
    left
    unfold Abi.Interface.find at hfind
    split at hfind
    · cases hfind
      rfl
    · cases hfind
  | ok f =>
    rw [hfind] at hdata
    right
    obtain ⟨fault, -, rfl⟩ := mapError_eq_error_iff.mp hdata
    exact ⟨_, rfl⟩

/-! ## Endings -/

theorem ends_surcharge (ha : h.Attends) (e : Estimator) (plan : TransactionPlan) :
    Ends (e.surcharge h plan) := by
  unfold surcharge
  cases e.assignmentSource? plan with
  | none => exact ends_value 0
  | some c => exact (ha.ends_retrying _).bind fun _ => (ends_ofExcept _).bind fun _ => ends_value _

theorem ends_estimate (ha : h.Attends) (e : Estimator) (plan : TransactionPlan) (price : Word)
    (data : Bytes) : Ends (e.estimate h plan price data) := by
  unfold estimate
  refine (ha.ends_retrying _).bind fun gas => ?_
  by_cases hreveal : plan.method = revealMethod
  · simp only [hreveal, if_true]
    exact (ends_surcharge ha e plan).bind fun _ => ends_value _
  · simp only [hreveal, if_false]
    exact ends_value gas

theorem ends_behindGateway (ha : h.Attends) (e : Estimator) (method : String) :
    Ends (e.behindGateway h method) := by
  intro w hrun
  have hblock := ha.ends_retrying h.transport.latestBlock w
  rw [behindGateway_run] at hrun
  unfold Handle.latestBlock at hrun
  rcases hread : (h.retrying h.transport.latestBlock).run w with ⟨block | unread | _, v⟩ <;>
    rw [hread] at hblock hrun
  · cases hrun
  · cases hoverride : e.policy.limitOverride with
    | some limit =>
      rw [hoverride] at hrun
      cases hrun
    | none =>
      rw [hoverride] at hrun
      cases hrun
  · exact hblock rfl

theorem ends_limit (ha : h.Attends) (e : Estimator) (plan : TransactionPlan) (price : Word) :
    Ends (e.limit h plan price) := by
  unfold limit
  by_cases htransfer : plan.isTransfer = true
  · simp only [htransfer, if_true]
    exact ends_value _
  · simp only [htransfer]
    refine (ends_ofExcept _).bind fun data => ?_
    refine (ends_estimate ha e plan price data).caught.bind fun r => ?_
    cases r with
    | ok gas =>
      intro w hrun
      cases hrun
    | error failure =>
      by_cases hgateway : failure.isGateway = true
      · simp only [hgateway, if_true]
        exact ends_behindGateway ha e plan.method
      · simp only [hgateway]
        cases e.policy.limitOverride with
        | some limit => exact ends_value limit
        | none => exact ends_fail _

/-! ## Failures -/

theorem limit_of_estimated {data : Bytes} {gas : UInt64} {w₁ : World σ} (hmethod : plan.method ≠ "")
    (hdata : plan.callData = .ok data) (hgas : Estimated e h plan price data w₀ gas w₁) :
    (e.limit h plan price).run w₀ = (.done (scale gas e.policy.limitFactor),
      { w₁ with estimates := w₁.estimates.record plan.method gas }) := by
  rw [limit_of_encoded hmethod hdata, estimate_done_iff.mpr hgas]

theorem limit_of_unestimated {data : Bytes} {failure : RpcError} {w₁ : World σ}
    (hmethod : plan.method ≠ "") (hdata : plan.callData = .ok data)
    (hfailed : Unestimated e h plan price data w₀ failure w₁) :
    (e.limit h plan price).run w₀ =
      if failure.isGateway then (e.behindGateway h plan.method).run w₁
      else
        match e.policy.limitOverride with
        | some limit => (.done limit, w₁)
        | none => (.failed (.rpc failure), w₁) := by
  have hrun := limit_of_encoded hmethod hdata e h price w₀
  rw [estimate_failed_iff.mpr hfailed] at hrun
  exact hrun

/-- A limit fails in three ways: its call cannot be encoded, a failure stands, or
behind a gateway there is no block either; the last two only when the settings have
no limit of their own. -/
theorem limit_failed_iff (hmethod : plan.method ≠ "") {failure : TransactionError} {v : World σ} :
    (e.limit h plan price).run w₀ = (.failed failure, v) ↔
      (∃ cause, plan.callData = .error cause ∧ failure = .rpc cause ∧ v = w₀) ∨
      e.policy.limitOverride = none ∧ ∃ data cause w₁, plan.callData = .ok data ∧
        Unestimated e h plan price data w₀ cause w₁ ∧
        (cause.isGateway = false ∧ failure = .rpc cause ∧ v = w₁ ∨
          cause.isGateway = true ∧ ∃ unread, h.latestBlock.run w₁ = (.failed unread, v) ∧
            failure = .gasEstimation ("Failed to fetch latest block: " ++ unread.message)) := by
  constructor
  · intro hrun
    cases hdata : plan.callData with
    | error cause =>
      rw [limit_of_unencoded hmethod hdata] at hrun
      cases hrun
      exact Or.inl ⟨cause, rfl, rfl, rfl⟩
    | ok data =>
      right
      rcases hestimate : (e.estimate h plan price data).run w₀ with ⟨gas | cause | _, w₁⟩ <;>
        rw [limit_of_encoded hmethod hdata, hestimate] at hrun
      · cases hrun
      · have hfailed := estimate_failed_iff.mp hestimate
        dsimp only at hrun
        cases hoverride : e.policy.limitOverride with
        | some limit =>
          rw [behindGateway_run, hoverride] at hrun
          split at hrun
          · split at hrun <;> cases hrun
          · cases hrun
        | none =>
          refine ⟨rfl, data, cause, w₁, rfl, hfailed, ?_⟩
          rw [behindGateway_run, hoverride] at hrun
          by_cases hgateway : cause.isGateway = true
          · rw [if_pos hgateway] at hrun
            rcases hblock : h.latestBlock.run w₁ with ⟨block | unread | _, w₂⟩ <;>
              rw [hblock] at hrun <;> cases hrun
            exact Or.inr ⟨hgateway, unread, rfl, rfl⟩
          · rw [if_neg hgateway] at hrun
            cases hrun
            exact Or.inl ⟨by simpa using hgateway, rfl, rfl⟩
      · cases hrun
  · rintro (⟨cause, hdata, rfl, rfl⟩ | ⟨hoverride, data, cause, w₁, hdata, hfailed, hends⟩)
    · exact limit_of_unencoded hmethod hdata e h price _
    · rw [limit_of_unestimated hmethod hdata hfailed, behindGateway_run, hoverride]
      rcases hends with ⟨hgateway, rfl, rfl⟩ | ⟨hgateway, unread, hblock, rfl⟩
      · rw [hgateway]
        rfl
      · rw [hgateway, hblock]
        rfl

/-! ## The law -/

/-- A limit is the scaled estimate, or falls back: behind a gateway the block bounds
it, a limit of the settings keeps it from failing, and without one the failure
stands. Every failure that a request over a pool has because of the status of a
failing gateway is one of a gateway, whatever the body. -/
theorem a_limit_falls_back_in_steps (e : Estimator) (h : Handle σ) (plan : TransactionPlan)
    (price : Word) (w₀ : World σ) (hmethod : plan.method ≠ "")
    (hfactor : e.policy.limitFactor.isPositive = true) :
    FallsBack e h plan price w₀ ∧
    ∀ status ∈ RpcError.gatewayStatuses,
      (∀ url body, ∃ failure, (Http.Answer.answered status body).verdict url = .leave failure ∧
        failure.isGateway = true) ∧
      ∀ (p : Pool) (calls : List Pool.Call) (es : List (Nat × Pool.Event))
        (t : Pool.Scene (Except RpcError Pool.Gain)),
        (Pool.Scene.start p (calls.map Pool.Call.routine)).Interleaving es t →
        ∀ (i : Nat) (c : Pool.Call) (holds : Bool) (message : String), calls[i]? = some c →
          c.Sends → t.tasks[i]? = some ⟨some (.done (.error (.http status message))), holds⟩ →
          (RpcError.http status message).isGateway = true := by
  refine ⟨?_, fun status hstatus => ⟨fun url body => ?_, ?_⟩⟩
  · constructor
    · intro failure hdata
      exact ⟨limit_of_unencoded hmethod hdata e h price w₀, callData_error hmethod hdata⟩
    · intro data gas w₁ hdata hgas
      exact ⟨_, _, limit_of_estimated hmethod hdata hgas, toNat_scale hfactor gas⟩
    · intro data failure w₁ block w₂ hdata hfailed hgateway hblock
      rw [limit_of_unestimated hmethod hdata hfailed, if_pos hgateway, behindGateway_run, hblock]
      exact ⟨_, rfl, raise_le hfactor _ _⟩
    · intro data hdata hoverride
      -- a limit of the settings rules out all failures but that of the encoding
      have hnever : ∀ failure v, (e.limit h plan price).run w₀ ≠ (.failed failure, v) := by
        intro failure v hrun
        rcases (limit_failed_iff hmethod).mp hrun with ⟨cause, herror, -⟩ | ⟨hnone, -⟩
        · rw [hdata] at herror
          cases herror
        · exact hoverride hnone
      refine ⟨hnever, fun ha => ?_⟩
      have hends := ends_limit ha e plan price w₀
      rcases hrun : (e.limit h plan price).run w₀ with ⟨limit | failure | _, v⟩
      · exact ⟨limit, v, rfl⟩
      · exact absurd hrun (hnever failure v)
      · rw [hrun] at hends
        exact absurd rfl hends
    · intro data failure w₁ hdata hoverride hfailed hgateway
      exact (limit_failed_iff hmethod).mpr
        (Or.inr ⟨hoverride, data, failure, w₁, hdata, hfailed, Or.inl ⟨hgateway, rfl, rfl⟩⟩)
    · intro text v
      rw [limit_failed_iff hmethod]
      constructor
      · rintro (⟨cause, -, hrpc, -⟩ | ⟨hoverride, data, cause, w₁, hdata, hfailed, hends⟩)
        · cases hrpc
        · rcases hends with ⟨-, hrpc, -⟩ | ⟨hgateway, unread, hblock, htext⟩
          · cases hrpc
          · cases htext
            exact ⟨hoverride, data, cause, w₁, unread, hdata, hfailed, hgateway, hblock, rfl⟩
      · rintro ⟨hoverride, data, cause, w₁, unread, hdata, hfailed, hgateway, hblock, rfl⟩
        exact Or.inr ⟨hoverride, data, cause, w₁, hdata, hfailed,
          Or.inr ⟨hgateway, unread, hblock, rfl⟩⟩
  · exact ⟨_, Pool.verdict_of_gateway hstatus url body, RpcError.isGateway_of_status hstatus body⟩
  · intro p calls es t hi i c holds message hc hsends ht
    obtain ⟨body, rfl⟩ := Pool.sent_ofStatus hi hc hsends ht status message rfl
    exact RpcError.isGateway_of_status hstatus body

/-! A node behind a gateway that only shows the latest block. -/

/-- The latest block of the node. -/
def shownBlock : BlockHeader := ⟨7, none, 30000000, 1700000000⟩

/-- What a request through the gateway comes to. -/
def throughGateway (request : Json) : Except RpcError Json :=
  if (request.get? "method").bind Json.asStr? = some "eth_getBlockByNumber" then
    .ok (.obj [("result", shownBlock.toJson)])
  else .error (.http 502 (Http.statusText 502 "upstream is gone"))

/-- One attempt at each request through the gateway. -/
def bridging : Handle Unit where
  transport := .ofSend "http://a" (fun request _ s => ⟨some (throughGateway request), 5, s⟩)
    fun _ _ s => ⟨some (.ok []), 5, s⟩
  timeout := 1000
  backoff := ⟨1, 0, 0⟩

/-- Limits are raised by half. -/
def byHalf : Estimator where
  policy := { Policy.default with limitFactor := ⟨false, 15, 1, by decide, by decide⟩ }
  assignments := none

/-- A call without arguments. -/
def touch : TransactionPlan :=
  ⟨default, "", "", default, ⟨[⟨"touch", [], []⟩]⟩, "touch", [], 1, .default, none⟩

/-- The last estimate of the call is known. -/
def touched : World Unit := ⟨0, [], Estimates.empty.record "touch" 100000, ()⟩

/-- The last estimate is raised within the bound of the block. -/
theorem a_known_estimate_bridges_a_gateway :
    touch.method ≠ "" ∧ byHalf.policy.limitFactor.isPositive = true ∧
    ∃ limit v, (byHalf.limit bridging touch 0).run touched = (.done limit, v) ∧
      limit = 150000 ∧ limit ≤ shownBlock.gasLimit := by
  have hmethod : touch.method ≠ "" := by decide
  have hfactor : byHalf.policy.limitFactor.isPositive = true := by decide
  have hdata : ∃ data, touch.callData = .ok data := ⟨_, rfl⟩
  obtain ⟨data, hdata⟩ := hdata
  have hestimate : ∃ w₁, (bridging.estimateGas (simulated touch 0 data)).run touched =
      (.failed (.http 502 (Http.statusText 502 "upstream is gone")), w₁) := ⟨_, rfl⟩
  obtain ⟨w₁, hestimate⟩ := hestimate
  have hblock : ∃ w₂, bridging.latestBlock.run w₁ = (.done shownBlock, w₂) := ⟨_, by rfl⟩
  obtain ⟨w₂, hblock⟩ := hblock
  have hlaw := (a_limit_falls_back_in_steps byHalf bridging touch 0 touched hmethod hfactor).1
  obtain ⟨limit, hrun, hle⟩ := hlaw.bounded data _ w₁ shownBlock w₂ hdata (.call hestimate)
    (RpcError.isGateway_of_status (by decide) _) hblock
  refine ⟨hmethod, hfactor, limit, w₂, hrun, ?_, hle⟩
  have hvalue : ((byHalf.limit bridging touch 0).run touched).1 = .done 150000 := by rfl
  rw [hrun] at hvalue
  cases hvalue
  rfl

end ChainAccess.Gas.Estimator
