import ChainAccess.Proofs.Gas.Limits
import ChainAccess.Proofs.Gas.Memory
import ChainAccess.Proofs.Transaction.Build
-- What the builds before it can do to a build. They leave it one thing, the last
-- estimate that was found under the name of its method, whatever contract it was found
-- for; and a build looks at that only behind a failing gateway, when it has read the
-- block. Everything else it asks the node, and the hour does not matter.

namespace ChainAccess

open Workflow
open Secp256k1 (PrivateKey)

variable {σ : Type}

/-! ## The same limit later -/

namespace Gas

/-- What is left of a block and a known estimate behind a gateway. -/
def Estimator.bridged (e : Estimator) (known : Option UInt64) (block : BlockHeader) : UInt64 :=
  raise (e.baseLimit known block) e.policy.limitFactor block.gasLimit

namespace JobRun

variable {r s : JobRun σ} {ms : Nat} {block : BlockHeader}

/-- What the limit comes to. -/
def outcome (r : JobRun σ) : Outcome TransactionError UInt64 :=
  ((r.job.estimator.limit r.job.handle r.job.plan r.job.price).run r.start).1

/-- The estimate fails behind a gateway that still shows a block. -/
def Bridges (r : JobRun σ) (block : BlockHeader) : Prop :=
  r.job.plan.method ≠ "" ∧ ∃ data failure u v, r.job.plan.callData = .ok data ∧
    r.job.estimator.Unestimated r.job.handle r.job.plan r.job.price data r.start failure u ∧
    failure.isGateway = true ∧ r.job.handle.latestBlock.run u = (.done block, v)

/-- The same job, begun later at the same node. -/
structure Later (ms : Nat) (r s : JobRun σ) : Prop where
  job : s.job = r.job
  start : r.start.Later ms s.start

theorem Later.estimate (h : Later ms r s) (data : Bytes) :
    Agree ms
      ((r.job.estimator.estimate r.job.handle r.job.plan r.job.price data).run r.start)
      ((s.job.estimator.estimate s.job.handle s.job.plan s.job.price data).run s.start) := by
  rw [h.job]
  exact (Estimator.outward_estimate _ _ _ _ _).run_agree h.start

theorem found?_later (h : Later ms r s) : s.found? = r.found? := by
  unfold found?
  have hagree := h.estimate
  rw [h.job] at hagree ⊢
  split
  · rfl
  · cases r.job.plan.callData with
    | error failure => rfl
    | ok data =>
      have hdata := hagree data
      rcases hr : (r.job.estimator.estimate r.job.handle r.job.plan r.job.price data).run
        r.start with ⟨o, u⟩
      rw [hr] at hdata
      obtain ⟨v, hs, -⟩ := hdata.exists_later
      dsimp only
      rw [hr, hs]
      cases o <;> rfl

/-- Behind a gateway with a block, what is known when the job begins decides. -/
theorem outcome_of_bridges (h : Later ms r s) (hbridges : r.Bridges block) :
    s.outcome = .done (s.job.estimator.bridged (s.start.estimates.get? s.job.plan.method)
      block) := by
  obtain ⟨hmethod, data, failure, u, v, hdata, hfailed, hgateway, hblock⟩ := hbridges
  have hestimate := h.estimate data
  rw [Estimator.estimate_failed_iff.mpr hfailed] at hestimate
  obtain ⟨u', hu', hlater⟩ := hestimate.exists_later
  have hread := (Estimator.outward_latestBlock r.job.handle).run_agree hlater
  rw [hblock] at hread
  obtain ⟨v', hv', -⟩ := hread.exists_later
  -- neither the estimate nor the block has touched what is remembered
  have hspared : v'.estimates = s.start.estimates := by
    have hfirst := s.job.estimator.spares_estimate s.job.handle s.job.plan s.job.price data
      none s.start
    have hsecond := (Estimator.outward_latestBlock r.job.handle).spares none u'
    unfold Workflow.run at hu' hv'
    rw [hu'] at hfirst
    rw [hv'] at hsecond
    exact hsecond.trans hfirst
  unfold outcome
  rw [h.job] at hu' ⊢
  rw [Estimator.limit_of_unestimated hmethod hdata (Estimator.estimate_failed_iff.mp hu'),
    if_pos hgateway, Estimator.behindGateway_run, hv']
  dsimp only
  rw [hspared]
  rfl

/-- In every other case nothing that is known matters. -/
theorem outcome_of_not_bridges (h : Later ms r s) (hno : ∀ block, ¬ r.Bridges block) :
    s.outcome = r.outcome := by
  have hestimate := h.estimate
  unfold outcome
  rw [h.job] at hestimate ⊢
  by_cases htransfer : r.job.plan.isTransfer = true
  · rw [Estimator.limit_of_transfer htransfer, Estimator.limit_of_transfer htransfer]
  · have hmethod : r.job.plan.method ≠ "" :=
      TransactionPlan.isTransfer_eq_false_iff.mp (Bool.eq_false_iff.mpr htransfer)
    cases hdata : r.job.plan.callData with
    | error failure =>
      rw [Estimator.limit_of_unencoded hmethod hdata, Estimator.limit_of_unencoded hmethod hdata]
    | ok data =>
      have hagree := hestimate data
      rw [Estimator.limit_of_encoded hmethod hdata, Estimator.limit_of_encoded hmethod hdata]
      rcases hr : (r.job.estimator.estimate r.job.handle r.job.plan r.job.price data).run
        r.start with ⟨o, u⟩
      rw [hr] at hagree
      obtain ⟨u', hu', hlater⟩ := hagree.exists_later
      rw [hu']
      cases o with
      | done gas => rfl
      | expired => rfl
      | failed failure =>
        dsimp only
        by_cases hgateway : failure.isGateway = true
        · rw [if_pos hgateway, if_pos hgateway, Estimator.behindGateway_run,
            Estimator.behindGateway_run]
          have hread := (Estimator.outward_latestBlock r.job.handle).run_agree hlater
          rcases hv : r.job.handle.latestBlock.run u with ⟨o, v⟩
          rw [hv] at hread
          obtain ⟨v', hv', -⟩ := hread.exists_later
          rw [hv']
          cases o with
          | done block =>
            have hfailed := Estimator.estimate_failed_iff.mp hr
            exact absurd ⟨hmethod, data, failure, u, v, hdata, hfailed, hgateway, hv⟩ (hno block)
          | failed unread => cases r.job.estimator.policy.limitOverride <;> rfl
          | expired => rfl
        · rw [if_neg hgateway, if_neg hgateway]
          cases r.job.estimator.policy.limitOverride <;> rfl

end JobRun

end Gas

/-! ## The limit of a build -/

namespace TransactionBuilder

open Gas (JobRun)

variable {b : TransactionBuilder} {h : Handle σ} {plan : TransactionPlan} {w v : World σ}
  {ms : Nat}

/-- What a build asks for before the gas limit. -/
def opening (b : TransactionBuilder) (h : Handle σ) (plan : TransactionPlan) :
    Workflow σ TransactionError (PrivateKey × UInt64 × Word) := do
  let key ← ofExcept ((b.keyOf plan).mapError .account)
  let nonce ← (h.pendingNonce plan.account).withError .rpc
  let price ← (b.estimator plan).price h
  return (key, nonce, price)

/-- The transaction that a build makes of what it asked for. -/
def prepared (plan : TransactionPlan) (o : PrivateKey × UInt64 × Word) (limit : UInt64) :
    PreparedTransaction :=
  ⟨o.1.address, o.2.1, o.2.2, limit, plan.value.getD 0, plan.chainId, o.1⟩

theorem build_eq (b : TransactionBuilder) (h : Handle σ) (plan : TransactionPlan) :
    b.build h plan = b.opening h plan >>= fun o => (b.estimator plan).limit h plan o.2.2 >>=
      fun limit => pure (prepared plan o limit) := by
  unfold build opening
  simp only [bind_bind, value_bind]
  rfl

theorem outward_opening (b : TransactionBuilder) (h : Handle σ) (plan : TransactionPlan) :
    Outward (b.opening h plan) := by
  refine .bind (outward_ofExcept _) fun key => .bind (.withError _ ?_) fun nonce => ?_
  · exact h.outward_retrying (h.transport.outward_ask _ _ _)
  · exact .bind (Gas.Estimator.outward_price _ h) fun price => .value _

/-- The limit that a build asks for, and where; none when it does not come so far. -/
def limitRun? (b : TransactionBuilder) (h : Handle σ) (plan : TransactionPlan) (w : World σ) :
    Option (JobRun σ) :=
  match (b.opening h plan).run w with
  | (.done o, u) => some ⟨⟨b.estimator plan, h, plan, o.2.2⟩, u⟩
  | _ => none

/-- A build behind a failing gateway, with the block that it reads there. -/
def Bridges (b : TransactionBuilder) (h : Handle σ) (plan : TransactionPlan) (w : World σ)
    (block : BlockHeader) : Prop := ∃ r, b.limitRun? h plan w = some r ∧ r.Bridges block

theorem limitRun?_eq_some_iff {r : JobRun σ} : b.limitRun? h plan w = some r ↔
    ∃ o u, (b.opening h plan).run w = (.done o, u) ∧
      r = ⟨⟨b.estimator plan, h, plan, o.2.2⟩, u⟩ := by
  unfold limitRun?
  rcases (b.opening h plan).run w with ⟨o | e | _, u⟩ <;> simp [eq_comm]

/-- Where a build asks for its limit, it does so later. -/
theorem limitRun?_later {r : JobRun σ} (hw : w.Later ms v) (hr : b.limitRun? h plan w = some r) :
    ∃ s, b.limitRun? h plan v = some s ∧ r.Later ms s := by
  obtain ⟨o, u, hopen, rfl⟩ := limitRun?_eq_some_iff.mp hr
  have hopening := (outward_opening b h plan).run_agree hw
  rw [hopen] at hopening
  obtain ⟨u', hu', hlater⟩ := hopening.exists_later
  exact ⟨_, limitRun?_eq_some_iff.mpr ⟨o, u', hu', rfl⟩, rfl, hlater⟩

theorem limitRun?_later_of_none (hw : w.Later ms v) (hr : b.limitRun? h plan w = none) :
    b.limitRun? h plan v = none := by
  have hopening := ((outward_opening b h plan).run_agree hw).outcome
  refine Option.eq_none_iff_forall_ne_some.mpr fun s hs => ?_
  obtain ⟨o, u', hopen, rfl⟩ := limitRun?_eq_some_iff.mp hs
  rw [hopen] at hopening
  have hfirst : (b.opening h plan).run w = (.done o, ((b.opening h plan).run w).2) :=
    Prod.ext hopening.symm rfl
  rw [limitRun?_eq_some_iff.mpr ⟨o, _, hfirst, rfl⟩] at hr
  cases hr

theorem limitRun?_spec {r : JobRun σ} (hr : b.limitRun? h plan w = some r) :
    r.job.estimator = b.estimator plan ∧ r.job.plan = plan ∧ r.start.estimates = w.estimates := by
  have hspared := (outward_opening b h plan).spares none w
  obtain ⟨o, u, hopen, rfl⟩ := limitRun?_eq_some_iff.mp hr
  unfold Workflow.run at hopen
  rw [hopen] at hspared
  exact ⟨rfl, rfl, hspared⟩

theorem build_of_opened {o : PrivateKey × UInt64 × Word} {u : World σ}
    (hopen : (b.opening h plan).run w = (.done o, u)) :
    (b.build h plan).run w = ((b.estimator plan).limit h plan o.2.2 >>= fun limit =>
      pure (prepared plan o limit)).run u := by
  rw [build_eq]
  exact bind_of_done hopen

theorem build_finish {r : JobRun σ} (hr : b.limitRun? h plan w = some r) :
    ((b.build h plan).run w).2 = r.finish := by
  obtain ⟨o, u, hopen, rfl⟩ := limitRun?_eq_some_iff.mp hr
  rw [build_of_opened hopen]
  exact world_bind_pure _

theorem build_unfinished (hr : b.limitRun? h plan w = none) :
    ((b.build h plan).run w).2.estimates = w.estimates := by
  have hspared := (outward_opening b h plan).spares none w
  unfold limitRun? at hr
  rw [build_eq]
  show (andThen (b.opening h plan) _ none w).2.estimates = _
  unfold Workflow.run at hr
  unfold andThen
  rcases hrun : b.opening h plan none w with ⟨o | e | _, u⟩ <;> rw [hrun] at hr hspared
  · cases hr
  · exact hspared
  · exact hspared

theorem build_outcome_iff {w v' : World σ} {ms' : Nat} {r s : JobRun σ} (hv : w.Later ms v)
    (hv' : w.Later ms' v') (hr : b.limitRun? h plan v = some r)
    (hs : b.limitRun? h plan v' = some s) :
    ((b.build h plan).run v).1 = ((b.build h plan).run v').1 ↔ r.outcome = s.outcome := by
  obtain ⟨o, u, hopen, rfl⟩ := limitRun?_eq_some_iff.mp hr
  obtain ⟨o', u', hopen', rfl⟩ := limitRun?_eq_some_iff.mp hs
  -- both have been told the same so far
  have hfirst := ((outward_opening b h plan).run_agree hv).outcome
  have hsecond := ((outward_opening b h plan).run_agree hv').outcome
  rw [hopen] at hfirst
  rw [hopen', ← hfirst] at hsecond
  cases hsecond
  rw [build_of_opened hopen, build_of_opened hopen']
  exact outcome_bind_pure_iff fun limit limit' hlimit => by cases hlimit; rfl

theorem build_outcome_of_none (hw : w.Later ms v) (hr : b.limitRun? h plan w = none) :
    ((b.build h plan).run v).1 = ((b.build h plan).run w).1 := by
  have hopening := (outward_opening b h plan).run_agree hw
  unfold limitRun? at hr
  rw [build_eq]
  show (andThen (b.opening h plan) _ none v).1 = (andThen (b.opening h plan) _ none w).1
  unfold Workflow.run at hr hopening
  unfold andThen
  rcases hrun : b.opening h plan none w with ⟨o | e | _, u⟩ <;> rw [hrun] at hr hopening
  · cases hr
  · obtain ⟨u', hu', -⟩ := hopening.exists_later
    rw [hu']
  · obtain ⟨u', hu', -⟩ := hopening.exists_later
    rw [hu']

/-! ## One build after others -/

/-- A build over a handle, with the node as it stands then. -/
structure Episode (σ : Type) where
  handle : Handle σ
  plan : TransactionPlan
  node : σ

/-- The world in which the build begins. -/
def Episode.enter (x : Episode σ) (w : World σ) : World σ := { w with node := x.node }

/-- What a build comes to, and the world that it leads to. -/
def play (b : TransactionBuilder) (x : Episode σ) (w : World σ) :
    Outcome TransactionError PreparedTransaction × World σ :=
  (b.build x.handle x.plan).run (x.enter w)

/-- The world after builds one after another. -/
def after (b : TransactionBuilder) (past : List (Episode σ)) (w : World σ) : World σ :=
  past.foldl (fun w x => (b.play x w).2) w

/-- The estimate that a build finds. -/
def found? (b : TransactionBuilder) (x : Episode σ) : Option UInt64 :=
  (b.limitRun? x.handle x.plan (World.start x.node)).bind JobRun.found?

/-- The estimates that builds find under the name of a method, whatever their
contracts. -/
def foundUnder (b : TransactionBuilder) (method : String) (past : List (Episode σ)) :
    List UInt64 := (past.filter (·.plan.method = method)).filterMap b.found?

variable {x : Episode σ} {past : List (Episode σ)}

theorem Episode.enter_later (x : Episode σ) (w : World σ) :
    (World.start x.node).Later w.clock (x.enter w) := ⟨(Nat.zero_add _).symm, rfl⟩

theorem get?_play (b : TransactionBuilder) (x : Episode σ) (w : World σ) (method : String) :
    (b.play x w).2.estimates.get? method =
      (b.foundUnder method [x]).getLast?.or (w.estimates.get? method) := by
  have hw := x.enter_later w
  unfold play foundUnder found?
  cases hs : b.limitRun? x.handle x.plan (World.start x.node) with
  | none =>
    rw [build_unfinished (limitRun?_later_of_none hw hs)]
    by_cases hmethod : x.plan.method = method <;> simp [hmethod, hs, Episode.enter]
  | some s =>
    obtain ⟨r, hr, hlater⟩ := limitRun?_later hw hs
    obtain ⟨-, hplan, hstart⟩ := limitRun?_spec hr
    have hfound : r.found? = s.found? := JobRun.found?_later hlater
    rw [build_finish hr, JobRun.get?_finish, hstart]
    unfold Gas.foundFor
    by_cases hmethod : x.plan.method = method <;>
      simp [hmethod, hplan, hs, hfound, Episode.enter]

theorem foundUnder_append (b : TransactionBuilder) (method : String)
    (past more : List (Episode σ)) :
    b.foundUnder method (past ++ more) = b.foundUnder method past ++ b.foundUnder method more := by
  unfold foundUnder
  rw [List.filter_append, List.filterMap_append]

/-- By induction on the builds from the last one back. -/
theorem get?_after (b : TransactionBuilder) (past : List (Episode σ)) (w : World σ)
    (method : String) : (b.after past w).estimates.get? method =
      (b.foundUnder method past).getLast?.or (w.estimates.get? method) := by
  induction past using List.reverseRecOn with
  | nil => rfl
  | append_singleton past x ih =>
    have hlast : b.after (past ++ [x]) w = (b.play x (b.after past w)).2 := by
      unfold after
      rw [List.foldl_append]
      rfl
    rw [hlast, get?_play, ih, foundUnder_append, List.getLast?_append, Option.or_assoc]

/-- Two worlds are the same to a build unless it is behind a gateway, reads a block there
and the worlds remember estimates that come to other limits. -/
theorem play_eq_iff (b : TransactionBuilder) (x : Episode σ) (w v : World σ) :
    (b.play x w).1 = (b.play x v).1 ↔
      ∀ block, b.Bridges x.handle x.plan (World.start x.node) block →
        (b.estimator x.plan).bridged (w.estimates.get? x.plan.method) block =
          (b.estimator x.plan).bridged (v.estimates.get? x.plan.method) block := by
  have hw := x.enter_later w
  have hv := x.enter_later v
  unfold play
  cases hstart : b.limitRun? x.handle x.plan (World.start x.node) with
  | none =>
    have hno : ∀ block, ¬ b.Bridges x.handle x.plan (World.start x.node) block := by
      rintro block ⟨r, hr, -⟩
      rw [hstart] at hr
      cases hr
    rw [build_outcome_of_none hw hstart, build_outcome_of_none hv hstart]
    exact ⟨fun _ block hblock => absurd hblock (hno block), fun _ => rfl⟩
  | some q =>
    obtain ⟨r, hr, hqr⟩ := limitRun?_later hw hstart
    obtain ⟨s, hs, hqs⟩ := limitRun?_later hv hstart
    obtain ⟨hestimatorw, hplanw, hstartw⟩ := limitRun?_spec hr
    obtain ⟨hestimatorv, hplanv, hstartv⟩ := limitRun?_spec hs
    rw [build_outcome_iff hw hv hr hs]
    constructor
    · rintro heq block ⟨q', hq', hblock⟩
      rw [hstart] at hq'
      cases hq'
      rw [JobRun.outcome_of_bridges hqr hblock, JobRun.outcome_of_bridges hqs hblock] at heq
      injection heq with heq
      rwa [hestimatorw, hplanw, hstartw, hestimatorv, hplanv, hstartv] at heq
    · intro heq
      by_cases hbridges : ∃ block, q.Bridges block
      · obtain ⟨block, hblock⟩ := hbridges
        rw [JobRun.outcome_of_bridges hqr hblock, JobRun.outcome_of_bridges hqs hblock,
          hestimatorw, hplanw, hstartw, hestimatorv, hplanv, hstartv]
        exact congrArg Outcome.done (heq block ⟨q, hstart, hblock⟩)
      · have hno : ∀ block, ¬ q.Bridges block := fun block hblock => hbridges ⟨block, hblock⟩
        rw [JobRun.outcome_of_not_bridges hqr hno, JobRun.outcome_of_not_bridges hqs hno]

/-! ## The law -/

/-- The gas limit that a build comes to. -/
def gasLimit? : Outcome TransactionError PreparedTransaction → Option UInt64
  | .done prepared => some prepared.gasLimit
  | _ => none

theorem gasLimit?_build {r : JobRun σ} {limit : UInt64} (hr : b.limitRun? h plan w = some r)
    (hlimit : r.outcome = .done limit) : gasLimit? ((b.build h plan).run w).1 = some limit := by
  obtain ⟨o, u, hopen, rfl⟩ := limitRun?_eq_some_iff.mp hr
  have hdone := outcome_bind_ofExcept_iff (g := fun limit => .ok (prepared plan o limit)).mpr
    ⟨limit, hlimit, rfl⟩
  rw [build_of_opened hopen]
  exact congrArg gasLimit? hdone

/-- Behind a gateway with a block the limit is made of what the world remembers. -/
theorem gasLimit?_of_bridges {block : BlockHeader}
    (hbridges : b.Bridges x.handle x.plan (World.start x.node) block) (w : World σ) :
    gasLimit? (b.play x w).1 =
      some ((b.estimator x.plan).bridged (w.estimates.get? x.plan.method) block) := by
  obtain ⟨q, hq, hblock⟩ := hbridges
  obtain ⟨r, hr, hlater⟩ := limitRun?_later (x.enter_later w) hq
  obtain ⟨hestimator, hplan, hstart⟩ := limitRun?_spec hr
  have houtcome := JobRun.outcome_of_bridges hlater hblock
  rw [hestimator, hplan, hstart] at houtcome
  exact gasLimit?_build hr houtcome

/-- Builds for other contracts that find nothing under the name leave no trace there. -/
theorem foundUnder_own (b : TransactionBuilder) (method : String) (contract : Address)
    (past : List (Episode σ)) (hforeign : ∀ y ∈ past, y.plan.contract ≠ contract →
      y.plan.method = method → b.found? y = none) :
    b.foundUnder method (past.filter (·.plan.contract = contract)) = b.foundUnder method past := by
  induction past with
  | nil => rfl
  | cons y rest ih =>
    have hrest := ih fun z hz => hforeign z (List.mem_cons_of_mem _ hz)
    rw [← List.singleton_append, foundUnder_append, List.filter_append, foundUnder_append, hrest]
    congr 1
    by_cases hcontract : y.plan.contract = contract
    · simp [hcontract]
    · have hnone : b.foundUnder method [y] = [] := by
        unfold foundUnder
        by_cases hmethod : y.plan.method = method
        · simp [hmethod, hforeign y List.mem_cons_self hcontract hmethod]
        · simp [hmethod]
      rw [hnone]
      simp [hcontract, foundUnder]

/-- The last estimate that is known under the name of a method after some builds. -/
def known? (b : TransactionBuilder) (method : String) (past : List (Episode σ))
    (w₀ : World σ) : Option UInt64 :=
  (b.foundUnder method past).getLast?.or (w₀.estimates.get? method)

/-- After any two histories a build comes to the same, unless it is behind a gateway,
reads a block there, and the last estimates under the name of its method come to other
limits; there the limit is made of that estimate. So builds for other contracts make no
difference if none of them found an estimate for a method of that name. -/
theorem a_limit_follows_the_last_estimate_under_its_name (b : TransactionBuilder)
    (x : Episode σ) (past other : List (Episode σ)) (w₀ : World σ) :
    ((b.play x (b.after past w₀)).1 = (b.play x (b.after other w₀)).1 ↔
      ∀ block, b.Bridges x.handle x.plan (World.start x.node) block →
        (b.estimator x.plan).bridged (b.known? x.plan.method past w₀) block =
          (b.estimator x.plan).bridged (b.known? x.plan.method other w₀) block) ∧
    (∀ block, b.Bridges x.handle x.plan (World.start x.node) block →
      gasLimit? (b.play x (b.after past w₀)).1 =
        some ((b.estimator x.plan).bridged (b.known? x.plan.method past w₀) block)) ∧
    (past.filter (·.plan.contract = x.plan.contract) =
        other.filter (·.plan.contract = x.plan.contract) →
      (∀ y ∈ past ++ other, y.plan.contract ≠ x.plan.contract →
        y.plan.method = x.plan.method → b.found? y = none) →
      (b.play x (b.after past w₀)).1 = (b.play x (b.after other w₀)).1) := by
  have hsame := play_eq_iff b x (b.after past w₀) (b.after other w₀)
  rw [get?_after, get?_after] at hsame
  refine ⟨hsame, fun block hbridges => ?_, fun hown hforeign => ?_⟩
  · rw [gasLimit?_of_bridges hbridges, get?_after]
    rfl
  · have hfound : b.foundUnder x.plan.method past = b.foundUnder x.plan.method other := by
      rw [← foundUnder_own b x.plan.method x.plan.contract past
          fun y hy => hforeign y (List.mem_append_left _ hy),
        ← foundUnder_own b x.plan.method x.plan.contract other
          fun y hy => hforeign y (List.mem_append_right _ hy), hown]
    refine hsame.mpr fun block _ => ?_
    rw [hfound]

/-! A node whose gateway stops working for estimates after a call of another contract. -/

/-- What a request comes to: estimates only while the gateway works, the latest block
and a zero for all else always. -/
def proxied (request : Json) (works : Bool) : Except RpcError Json :=
  if (request.get? "method").bind Json.asStr? = some "eth_estimateGas" then
    if works then .ok (.obj [("result", .str "0xc350")])
    else .error (.http 502 (Http.statusText 502 "upstream is gone"))
  else if (request.get? "method").bind Json.asStr? = some "eth_getBlockByNumber" then
    .ok (.obj [("result", Gas.Estimator.shownBlock.toJson)])
  else .ok (.obj [("result", .str "0x0")])

/-- One attempt at each request. -/
def proxy : Handle Bool where
  transport := .ofSend "http://a" (fun request _ works => ⟨some (proxied request works), 5, works⟩)
    fun _ _ works => ⟨some (.ok []), 5, works⟩
  timeout := 1000
  backoff := ⟨1, 0, 0⟩

/-- A call of one contract while the gateway works. -/
def touchElsewhere : Episode Bool :=
  ⟨proxy, { Gas.Estimator.touch with contract := ⟨1⟩ }, true⟩

/-- A call of the same name of another contract when the gateway fails. -/
def touchHere : Episode Bool :=
  ⟨proxy, { Gas.Estimator.touch with gas := Gas.Estimator.byHalf.policy }, false⟩

/-- The limit is that of the block alone, or half above the estimate for the other
contract. -/
theorem an_estimate_for_another_contract_is_taken :
    touchElsewhere.plan.contract ≠ touchHere.plan.contract ∧
    gasLimit? (keyed.play touchHere (keyed.after [] (World.start true))).1 = some 30000000 ∧
    gasLimit? (keyed.play touchHere (keyed.after [touchElsewhere] (World.start true))).1 =
      some 75000 := by
  refine ⟨by decide, by decide +kernel, by decide +kernel⟩

end TransactionBuilder

end ChainAccess
