import ChainAccess.Proofs.Gas.Estimation
import ChainAccess.Proofs.Gas.Frames
import Mathlib.Data.List.Induction
-- What is remembered of estimates. Any number of estimators share them, each with
-- settings and a handle of its own. After any limits one after another, the estimate of
-- a method is the last that was found for it, as it was before any factor; a limit that
-- found none has changed nothing.

namespace ChainAccess.Gas

open Workflow

variable {σ : Type}

/-! ## Estimates by method -/

namespace Estimates

variable {c : Estimates} {method other : String} {gas : UInt64}

theorem get?_record_self : (c.record method gas).get? method = some gas := by
  simp [record, get?]

theorem get?_record_of_ne (hne : other ≠ method) :
    (c.record method gas).get? other = c.get? other := by
  have hkept : (c.entries.filter (·.1 != method)).find? (·.1 == other) =
      c.entries.find? (·.1 == other) := by
    rw [List.find?_filter]
    congr 1
    funext entry
    by_cases hentry : entry.1 = other
    · simp [hentry, hne]
    · simp [hentry]
  have hhead : (method == other) = false := by simpa using Ne.symm hne
  unfold record get?
  rw [List.find?_cons, hhead, hkept]

end Estimates

/-! ## Limits one after another -/

/-- A limit that is asked for: by whom, on what, and for which plan. -/
structure Job (σ : Type) where
  estimator : Estimator
  handle : Handle σ
  plan : TransactionPlan
  price : Word

/-- A job and the world that it begins in. -/
structure JobRun (σ : Type) where
  job : Job σ
  start : World σ

namespace JobRun

/-- The world that the limit leads to. -/
def finish (r : JobRun σ) : World σ :=
  ((r.job.estimator.limit r.job.handle r.job.plan r.job.price).run r.start).2

/-- The plan calls a method, its call can be encoded, and the estimate comes to so
much. -/
def Finds (r : JobRun σ) (gas : UInt64) : Prop :=
  r.job.plan.method ≠ "" ∧ ∃ data w, r.job.plan.callData = .ok data ∧
    r.job.estimator.Estimated r.job.handle r.job.plan r.job.price data r.start gas w

/-- The estimate that the job finds. -/
def found? (r : JobRun σ) : Option UInt64 :=
  if r.job.plan.isTransfer then none
  else
    match r.job.plan.callData with
    | .error _ => none
    | .ok data =>
      match (r.job.estimator.estimate r.job.handle r.job.plan r.job.price data).run r.start with
      | (.done gas, _) => some gas
      | _ => none

end JobRun

/-- The jobs one after another, each where the one before it ended. -/
def runsFrom : World σ → List (Job σ) → List (JobRun σ)
  | _, [] => []
  | w, j :: rest => ⟨j, w⟩ :: runsFrom (JobRun.finish ⟨j, w⟩) rest

/-- The world after jobs one after another. -/
def afterJobs (w : World σ) (jobs : List (Job σ)) : World σ :=
  jobs.foldl (fun w j => JobRun.finish ⟨j, w⟩) w

/-- The estimates that were found for a method, in order. -/
def foundFor (method : String) (rs : List (JobRun σ)) : List UInt64 :=
  (rs.filter (·.job.plan.method = method)).filterMap JobRun.found?

/-! ## One job -/

namespace JobRun

theorem found?_eq_some_iff {r : JobRun σ} {gas : UInt64} : r.found? = some gas ↔ r.Finds gas := by
  unfold found? Finds
  simp only [← Estimator.estimate_done_iff]
  by_cases htransfer : r.job.plan.isTransfer = true
  · have hmethod : r.job.plan.method = "" := by
      simpa [TransactionPlan.isTransfer] using htransfer
    simp [htransfer, hmethod]
  · have hmethod : r.job.plan.method ≠ "" :=
      TransactionPlan.isTransfer_eq_false_iff.mp (Bool.eq_false_iff.mpr htransfer)
    rw [if_neg htransfer]
    cases hdata : r.job.plan.callData with
    | error failure => simp
    | ok data =>
      dsimp only
      rcases hrun : (r.job.estimator.estimate r.job.handle r.job.plan r.job.price data).run
        r.start with ⟨own | failure | _, v⟩
      · simp [hmethod, hrun]
      · simp [hrun]
      · simp [hrun]

/-- A job records what it finds and nothing else. -/
theorem finish_estimates (r : JobRun σ) : r.finish.estimates =
    match r.found? with
    | some gas => r.start.estimates.record r.job.plan.method gas
    | none => r.start.estimates := by
  unfold finish found?
  by_cases htransfer : r.job.plan.isTransfer = true
  · rw [if_pos htransfer, Estimator.limit_of_transfer htransfer]
  · have hmethod : r.job.plan.method ≠ "" :=
      TransactionPlan.isTransfer_eq_false_iff.mp (Bool.eq_false_iff.mpr htransfer)
    rw [if_neg htransfer]
    cases hdata : r.job.plan.callData with
    | error failure => rw [Estimator.limit_of_unencoded hmethod hdata]
    | ok data =>
      have hspared := r.job.estimator.spares_estimate r.job.handle r.job.plan r.job.price data
        none r.start
      rw [Estimator.limit_of_encoded hmethod hdata]
      dsimp only
      rcases hrun : (r.job.estimator.estimate r.job.handle r.job.plan r.job.price data).run
        r.start with ⟨gas | failure | _, v⟩
      -- asking has recorded nothing yet, whatever it came to
      all_goals
        unfold Workflow.run at hrun
        rw [hrun] at hspared
        dsimp only at hspared ⊢
      · rw [hspared]
      · split
        · exact (r.job.estimator.spares_behindGateway r.job.handle _ v).trans hspared
        · cases r.job.estimator.policy.limitOverride <;> exact hspared
      · exact hspared

/-- After a job its method has the estimate that it found, and every other method the
one it had. -/
theorem get?_finish (r : JobRun σ) (method : String) : r.finish.estimates.get? method =
    (foundFor method [r]).getLast?.or (r.start.estimates.get? method) := by
  rw [finish_estimates]
  unfold foundFor
  by_cases hmethod : r.job.plan.method = method
  · subst hmethod
    cases hfound : r.found? with
    | some gas => simp [hfound, Estimates.get?_record_self]
    | none => simp [hfound]
  · cases hfound : r.found? with
    | some gas => simp [hmethod, Estimates.get?_record_of_ne (Ne.symm hmethod)]
    | none => simp [hmethod]

end JobRun

/-! ## Many jobs -/

theorem runsFrom_snoc (w : World σ) (jobs : List (Job σ)) (j : Job σ) :
    runsFrom w (jobs ++ [j]) = runsFrom w jobs ++ [⟨j, afterJobs w jobs⟩] := by
  induction jobs generalizing w with
  | nil => rfl
  | cons first rest ih =>
    rw [List.cons_append, runsFrom, ih, runsFrom]
    rfl

theorem afterJobs_snoc (w : World σ) (jobs : List (Job σ)) (j : Job σ) :
    afterJobs w (jobs ++ [j]) = JobRun.finish ⟨j, afterJobs w jobs⟩ := by
  unfold afterJobs
  rw [List.foldl_append]
  rfl

theorem foundFor_append (method : String) (rs ss : List (JobRun σ)) :
    foundFor method (rs ++ ss) = foundFor method rs ++ foundFor method ss := by
  unfold foundFor
  rw [List.filter_append, List.filterMap_append]

/-- By induction on the jobs from the last one back: what it found comes before what was
remembered, and what it did not find leaves that. -/
theorem get?_afterJobs (w₀ : World σ) (jobs : List (Job σ)) (method : String) :
    (afterJobs w₀ jobs).estimates.get? method =
      (foundFor method (runsFrom w₀ jobs)).getLast?.or (w₀.estimates.get? method) := by
  induction jobs using List.reverseRecOn with
  | nil => rfl
  | append_singleton jobs j ih =>
    rw [afterJobs_snoc, JobRun.get?_finish, ih, runsFrom_snoc, foundFor_append,
      List.getLast?_append, Option.or_assoc]

/-- After any jobs a method has the estimate that was last found for it, before any
factor, or else the one it began with. A job that finds none leaves every estimate, and
one that finds its own leaves those of other methods. -/
theorem the_last_estimates_are_remembered (w₀ : World σ) (jobs : List (Job σ)) :
    (∀ method, (afterJobs w₀ jobs).estimates.get? method =
      (foundFor method (runsFrom w₀ jobs)).getLast?.or (w₀.estimates.get? method)) ∧
    ∀ r : JobRun σ, (∀ gas, r.found? = some gas ↔ r.Finds gas) ∧
      (r.found? = none → r.finish.estimates = r.start.estimates) ∧
      ∀ gas, r.found? = some gas → ∀ method, r.finish.estimates.get? method =
        if method = r.job.plan.method then some gas else r.start.estimates.get? method := by
  refine ⟨get?_afterJobs w₀ jobs, fun r => ⟨fun gas => JobRun.found?_eq_some_iff, ?_, ?_⟩⟩
  · intro hnone
    rw [r.finish_estimates, hnone]
  · intro gas hfound method
    rw [r.finish_estimates, hfound]
    dsimp only
    by_cases hmethod : method = r.job.plan.method
    · rw [if_pos hmethod, hmethod, Estimates.get?_record_self]
    · rw [if_neg hmethod, Estimates.get?_record_of_ne hmethod]

end ChainAccess.Gas
