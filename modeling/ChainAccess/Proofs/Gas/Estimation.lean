import ChainAccess.Gas.Estimator
import ChainAccess.Proofs.Amount.Scaling
import ChainAccess.Proofs.Workflow.Outcomes
import Mathlib.Tactic.Common
-- How the gas of a plan is estimated, and what a limit makes of that. A reveal is
-- estimated in two steps, the call itself and the number of assigned values; it has
-- an estimate when both are known. A limit that asks at all comes from the estimate,
-- from the block that a gateway still shows, or from the settings.

namespace ChainAccess

theorem TransactionPlan.isTransfer_eq_false_iff {plan : TransactionPlan} :
    plan.isTransfer = false ↔ plan.method ≠ "" := by
  simp [isTransfer]

namespace Gas.Estimator

open Workflow

variable {σ : Type} {e : Estimator} {h : Handle σ} {plan : TransactionPlan} {price : Word}
  {data : Bytes} {w₀ w v : World σ}

/-! ## Estimates -/

/-- From `w₀` on, which leads to `w₁`, the plan has an estimate: that of its call,
and for a reveal the gas for every assigned value with it. -/
inductive Estimated (e : Estimator) (h : Handle σ) (plan : TransactionPlan) (price : Word)
    (data : Bytes) (w₀ : World σ) : UInt64 → World σ → Prop
  | plain {gas w₁} : plan.method ≠ revealMethod →
      (h.estimateGas (simulated plan price data)).run w₀ = (.done gas, w₁) →
      Estimated e h plan price data w₀ gas w₁
  | unassigned {gas w₁} : plan.method = revealMethod → e.assignmentSource? plan = none →
      (h.estimateGas (simulated plan price data)).run w₀ = (.done gas, w₁) →
      Estimated e h plan price data w₀ gas w₁
  | assigned {c gas w₁ word bits rest total w₂} : plan.method = revealMethod →
      e.assignmentSource? plan = some c →
      (h.estimateGas (simulated plan price data)).run w₀ = (.done gas, w₁) →
      (c.callRetrying h assignmentMethod []).run w₁ = (.done (.uint word bits :: rest), w₂) →
      total.toNat =
        min (gas.toNat + word.toNat * e.policy.gasPerAssignment.toNat) (UInt64.size - 1) →
      Estimated e h plan price data w₀ total w₂

/-- From `w₀` on, which leads to `w₁`, the plan has no estimate because of a
failure: that of the estimate of its call, or for a reveal that of the number of
assigned values. -/
inductive Unestimated (e : Estimator) (h : Handle σ) (plan : TransactionPlan) (price : Word)
    (data : Bytes) (w₀ : World σ) : RpcError → World σ → Prop
  | call {failure w₁} :
      (h.estimateGas (simulated plan price data)).run w₀ = (.failed failure, w₁) →
      Unestimated e h plan price data w₀ failure w₁
  | assignments {c gas w₁ failure w₂} : plan.method = revealMethod →
      e.assignmentSource? plan = some c →
      (h.estimateGas (simulated plan price data)).run w₀ = (.done gas, w₁) →
      (c.callRetrying h assignmentMethod []).run w₁ = (.failed failure, w₂) →
      Unestimated e h plan price data w₀ failure w₂
  | unread {c gas w₁ values w₂} : plan.method = revealMethod →
      e.assignmentSource? plan = some c →
      (h.estimateGas (simulated plan price data)).run w₀ = (.done gas, w₁) →
      (c.callRetrying h assignmentMethod []).run w₁ = (.done values, w₂) →
      (∀ word bits rest, values ≠ .uint word bits :: rest) →
      Unestimated e h plan price data w₀ (.decoding "toAssign did not return an integer") w₂

variable {gas : UInt64} {failure : RpcError} {w₁ : World σ}

theorem assignmentCount_ok_iff {values : List Abi.Value} {count : UInt64} :
    assignmentCount values = .ok count ↔
      ∃ word bits rest, values = .uint word bits :: rest ∧ word.toUInt64Sat = count := by
  unfold assignmentCount
  split
  · next word bits rest =>
    constructor
    · rintro ⟨⟩
      exact ⟨word, bits, rest, rfl, rfl⟩
    · rintro ⟨word', bits', rest', heq, rfl⟩
      cases heq
      rfl
  · next hno =>
    constructor
    · rintro ⟨⟩
    · rintro ⟨word, bits, rest, heq, -⟩
      exact absurd heq (hno word bits rest)

theorem assignmentCount_error_iff {values : List Abi.Value} :
    assignmentCount values = .error failure ↔
      (∀ word bits rest, values ≠ .uint word bits :: rest) ∧
        failure = .decoding "toAssign did not return an integer" := by
  unfold assignmentCount
  split
  · next word bits rest =>
    constructor
    · rintro ⟨⟩
    · rintro ⟨hno, -⟩
      exact absurd rfl (hno word bits rest)
  · next hno =>
    constructor
    · rintro ⟨⟩
      exact ⟨hno, rfl⟩
    · rintro ⟨-, rfl⟩
      rfl

/-- What is cut on the way to a sum is cut in the sum. -/
theorem toNat_surcharged (gas each : UInt64) (word : Word) :
    (addSat gas (mulSat word.toUInt64Sat each)).toNat =
      min (gas.toNat + word.toNat * each.toNat) (UInt64.size - 1) := by
  rw [toNat_addSat_mulSat, Word.toNat_toUInt64Sat]
  rcases Nat.le_total word.toNat (UInt64.size - 1) with hfits | hmore
  · rw [Nat.min_eq_left hfits]
  · rw [Nat.min_eq_right hmore]
    rcases Nat.eq_zero_or_pos each.toNat with hzero | hpos
    · simp only [hzero, Nat.mul_zero]
    · have hcut : UInt64.size - 1 ≤ (UInt64.size - 1) * each.toNat := Nat.le_mul_of_pos_right _ hpos
      have hword : UInt64.size - 1 ≤ word.toNat * each.toNat :=
        Nat.le_trans hmore (Nat.le_mul_of_pos_right _ hpos)
      omega

theorem addSat_zero (gas : UInt64) : addSat gas 0 = gas := by
  have hle : gas.toNat ≤ UInt64.size - 1 := Nat.le_sub_one_of_lt gas.toNat_lt
  apply UInt64.toNat_inj.mp
  rw [toNat_addSat, UInt64.toNat_zero, Nat.add_zero]
  exact Nat.min_eq_left hle

theorem surcharge_done_iff {more : UInt64} {c : Contract}
    (hsource : e.assignmentSource? plan = some c) :
    (e.surcharge h plan).run w = (.done more, v) ↔ ∃ word bits rest,
      (c.callRetrying h assignmentMethod []).run w = (.done (.uint word bits :: rest), v) ∧
        mulSat word.toUInt64Sat e.policy.gasPerAssignment = more := by
  unfold surcharge
  rw [hsource]
  simp only [Workflow.run, bind_done_iff, ofExcept_done_iff, assignmentCount_ok_iff]
  constructor
  · rintro ⟨values, u, hread, count, u', ⟨⟨word, bits, rest, rfl, rfl⟩, rfl⟩, hend⟩
    cases hend
    exact ⟨word, bits, rest, hread, rfl⟩
  · rintro ⟨word, bits, rest, hread, rfl⟩
    exact ⟨_, v, hread, _, v, ⟨⟨word, bits, rest, rfl, rfl⟩, rfl⟩, rfl⟩

theorem surcharge_failed_iff {c : Contract} (hsource : e.assignmentSource? plan = some c) :
    (e.surcharge h plan).run w = (.failed failure, v) ↔
      (c.callRetrying h assignmentMethod []).run w = (.failed failure, v) ∨
        ∃ values, (c.callRetrying h assignmentMethod []).run w = (.done values, v) ∧
          (∀ word bits rest, values ≠ .uint word bits :: rest) ∧
          failure = .decoding "toAssign did not return an integer" := by
  unfold surcharge
  rw [hsource]
  simp only [Workflow.run, bind_failed_iff]
  constructor
  · rintro (hfailed | ⟨values, u, hread, hcount | ⟨count, u', -, hend⟩⟩)
    · exact Or.inl hfailed
    · right
      cases hvalues : assignmentCount values with
      | ok count =>
        rw [hvalues] at hcount
        cases hcount
      | error failure' =>
        rw [hvalues] at hcount
        cases hcount
        exact ⟨values, hread, assignmentCount_error_iff.mp hvalues⟩
    · cases hend
  · rintro (hfailed | ⟨values, hread, hno⟩)
    · exact Or.inl hfailed
    · refine Or.inr ⟨values, v, hread, Or.inl ?_⟩
      rw [assignmentCount_error_iff.mpr hno]
      rfl

theorem surcharge_of_none (hsource : e.assignmentSource? plan = none) (h : Handle σ) :
    e.surcharge h plan = pure 0 := by
  unfold surcharge
  rw [hsource]

theorem estimate_of_plain (hplain : plan.method ≠ revealMethod) (e : Estimator) (h : Handle σ)
    (price : Word) (data : Bytes) :
    (e.estimate h plan price data).run w₀ = (h.estimateGas (simulated plan price data)).run w₀ := by
  unfold estimate
  simp only [hplain, if_false]
  show andThen _ _ none w₀ = _
  unfold andThen Workflow.run
  rcases h.estimateGas (simulated plan price data) none w₀ with ⟨gas | failure | _, v⟩ <;> rfl

theorem estimate_of_reveal (hreveal : plan.method = revealMethod) (e : Estimator) (h : Handle σ)
    (price : Word) (data : Bytes) : e.estimate h plan price data =
      (h.estimateGas (simulated plan price data) >>= fun gas =>
        e.surcharge h plan >>= fun more => pure (addSat gas more)) := by
  unfold estimate
  simp only [hreveal, if_true]

theorem estimate_done_iff : (e.estimate h plan price data).run w₀ = (.done gas, w₁) ↔
    Estimated e h plan price data w₀ gas w₁ := by
  by_cases hreveal : plan.method = revealMethod
  · rw [estimate_of_reveal hreveal]
    constructor
    · intro hdone
      obtain ⟨own, u, hown, hdone⟩ := bind_done_iff.mp hdone
      obtain ⟨more, u', hmore, hend⟩ := bind_done_iff.mp hdone
      cases hend
      cases hsource : e.assignmentSource? plan with
      | none =>
        rw [surcharge_of_none hsource] at hmore
        cases hmore
        rw [addSat_zero]
        exact .unassigned hreveal hsource hown
      | some c =>
        obtain ⟨word, bits, rest, hread, rfl⟩ := (surcharge_done_iff hsource).mp hmore
        exact .assigned hreveal hsource hown hread (toNat_surcharged _ _ _)
    · rintro (⟨hplain, -⟩ | ⟨-, hsource, hown⟩ | ⟨-, hsource, hown, hread, htotal⟩)
      · exact absurd hreveal hplain
      · refine bind_done_iff.mpr ⟨gas, w₁, hown, bind_done_iff.mpr ⟨0, w₁, ?_, ?_⟩⟩
        · rw [surcharge_of_none hsource]
          rfl
        · rw [addSat_zero]
          rfl
      · have hmore := (surcharge_done_iff hsource).mpr ⟨_, _, _, hread, rfl⟩
        have hgas := UInt64.toNat_inj.mp ((toNat_surcharged _ _ _).trans htotal.symm)
        refine bind_done_iff.mpr ⟨_, _, hown, bind_done_iff.mpr ⟨_, w₁, hmore, ?_⟩⟩
        rw [hgas]
        rfl
  · rw [estimate_of_plain hreveal]
    constructor
    · intro hdone
      exact .plain hreveal hdone
    · rintro (⟨-, hdone⟩ | ⟨hyes, -⟩ | ⟨hyes, -⟩)
      · exact hdone
      · exact absurd hyes hreveal
      · exact absurd hyes hreveal

theorem estimate_failed_iff : (e.estimate h plan price data).run w₀ = (.failed failure, w₁) ↔
    Unestimated e h plan price data w₀ failure w₁ := by
  by_cases hreveal : plan.method = revealMethod
  · rw [estimate_of_reveal hreveal]
    constructor
    · intro hfailed
      rcases bind_failed_iff.mp hfailed with hown | ⟨own, u, hown, hfailed⟩
      · exact .call hown
      · rcases bind_failed_iff.mp hfailed with hmore | ⟨more, u', -, hend⟩
        · cases hsource : e.assignmentSource? plan with
          | none =>
            rw [surcharge_of_none hsource] at hmore
            cases hmore
          | some c =>
            rcases (surcharge_failed_iff hsource).mp hmore with hread | ⟨values, hread, hno, rfl⟩
            · exact .assignments hreveal hsource hown hread
            · exact .unread hreveal hsource hown hread hno
        · cases hend
    · rintro (hown | ⟨-, hsource, hown, hread⟩ | ⟨-, hsource, hown, hread, hno⟩)
      · exact bind_failed_iff.mpr (Or.inl hown)
      · refine bind_failed_iff.mpr (Or.inr ⟨_, _, hown, bind_failed_iff.mpr (Or.inl ?_)⟩)
        exact (surcharge_failed_iff hsource).mpr (Or.inl hread)
      · refine bind_failed_iff.mpr (Or.inr ⟨_, _, hown, bind_failed_iff.mpr (Or.inl ?_)⟩)
        exact (surcharge_failed_iff hsource).mpr (Or.inr ⟨_, hread, hno, rfl⟩)
  · rw [estimate_of_plain hreveal]
    constructor
    · intro hfailed
      exact .call hfailed
    · rintro (hown | ⟨hyes, -⟩ | ⟨hyes, -⟩)
      · exact hown
      · exact absurd hyes hreveal
      · exact absurd hyes hreveal

/-! ## Limits -/

theorem limit_of_transfer (htransfer : plan.isTransfer = true) (e : Estimator) (h : Handle σ)
    (price : Word) (w : World σ) :
    (e.limit h plan price).run w = (.done transferLimit, w) := by
  unfold limit
  rw [if_pos htransfer]
  rfl

/-- A plan whose data cannot be encoded asks for nothing. -/
theorem limit_of_unencoded (hmethod : plan.method ≠ "") (hdata : plan.callData = .error failure)
    (e : Estimator) (h : Handle σ) (price : Word) (w : World σ) :
    (e.limit h plan price).run w = (.failed (.rpc failure), w) := by
  have hcall : plan.isTransfer = false := TransactionPlan.isTransfer_eq_false_iff.mpr hmethod
  unfold limit
  rw [hcall, hdata]
  rfl

theorem limit_of_encoded (hmethod : plan.method ≠ "") (hdata : plan.callData = .ok data)
    (e : Estimator) (h : Handle σ) (price : Word) (w : World σ) :
    (e.limit h plan price).run w =
      match (e.estimate h plan price data).run w with
      | (.done gas, v) =>
        (.done (scale gas e.policy.limitFactor),
          { v with estimates := v.estimates.record plan.method gas })
      | (.failed failure, v) =>
        if failure.isGateway then (e.behindGateway h plan.method).run v
        else
          match e.policy.limitOverride with
          | some limit => (.done limit, v)
          | none => (.failed (.rpc failure), v)
      | (.expired, v) => (.expired, v) := by
  have hcall : plan.isTransfer = false := TransactionPlan.isTransfer_eq_false_iff.mpr hmethod
  unfold limit
  rw [hcall, hdata]
  show andThen ((e.estimate h plan price data).caught) _ none w = _
  unfold andThen caught Workflow.run
  rcases e.estimate h plan price data none w with ⟨gas | failure | _, v⟩
  · rfl
  · dsimp only
    by_cases hgateway : failure.isGateway = true
    · simp only [hgateway, if_true]
    · simp only [hgateway]
      cases e.policy.limitOverride <;> rfl
  · rfl

/-- The limit that is scaled behind a gateway: the last known estimate, or else what
the settings say, or else the limit of the block. -/
def baseLimit (e : Estimator) (known : Option UInt64) (block : BlockHeader) : UInt64 :=
  (known <|> e.policy.limitOverride).getD block.gasLimit

theorem behindGateway_run (e : Estimator) (h : Handle σ) (method : String) (w : World σ) :
    (e.behindGateway h method).run w =
      match h.latestBlock.run w with
      | (.done block, v) =>
        (.done (raise (e.baseLimit (v.estimates.get? method) block) e.policy.limitFactor
          block.gasLimit), v)
      | (.failed unread, v) =>
        match e.policy.limitOverride with
        | some limit => (.done limit, v)
        | none =>
          (.failed (.gasEstimation ("Failed to fetch latest block: " ++ unread.message)), v)
      | (.expired, v) => (.expired, v) := by
  show andThen h.latestBlock.caught _ none w = _
  unfold andThen caught Workflow.run
  rcases h.latestBlock none w with ⟨block | unread | _, v⟩
  · rfl
  · dsimp only
    cases e.policy.limitOverride <;> rfl
  · rfl

end Gas.Estimator

end ChainAccess
