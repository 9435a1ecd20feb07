import ChainAccess.Proofs.Gas.Prices
import ChainAccess.Proofs.Gas.Transcripts
import ChainAccess.Proofs.Transaction.Broadcast
-- What a build asks for, and in which order. The key comes first and the node
-- is asked for nothing without it; then come the nonce, the gas price and what
-- belongs to the gas limit. The nonce is what the node said last in the same
-- build, whatever was asked for other builds.

namespace ChainAccess

open Workflow
open Secp256k1 (PrivateKey)

namespace Exchange

/-- The last exchange about a method. -/
def lastAbout? (method : String) (es : List Exchange) : Option Exchange :=
  (es.filter (·.method? = some method)).getLast?

variable {method : String} {es fs : List Exchange}

theorem lastAbout?_of_all (h : ∀ x ∈ es, x.method? = some method) :
    lastAbout? method es = es.getLast? := by
  rw [lastAbout?, List.filter_eq_self.mpr fun x hx => by simpa using h x hx]

theorem lastAbout?_append_of_none (h : ∀ x ∈ fs, x.method? ≠ some method) :
    lastAbout? method (es ++ fs) = lastAbout? method es := by
  have hnone : fs.filter (·.method? = some method) = [] :=
    List.filter_eq_nil_iff.mpr fun x hx => by simpa using h x hx
  rw [lastAbout?, List.filter_append, hnone, List.append_nil, lastAbout?]

end Exchange

namespace TransactionBuilder

variable {σ : Type} {b : TransactionBuilder} {h : Handle σ} {plan : TransactionPlan}
  {w v : World σ}

/-- The key of the account of a plan. -/
def keyOf (b : TransactionBuilder) (plan : TransactionPlan) : Except AccountError PrivateKey :=
  b.accounts plan.account plan.password plan.keystorePath

/-- The exchange asks for the next nonce of the account of a plan. -/
def AsksNonce (plan : TransactionPlan) (x : Exchange) : Prop :=
  x.IsFor "eth_getTransactionCount" [plan.account.toJson, .str Rpc.pending]

/-- Nonces are asked for first, then prices, then what belongs to the limit of
the plan at a price. -/
def AsksInOrder (plan : TransactionPlan) (price : Word) (es : List Exchange) : Prop :=
  ∃ nonces prices limits, es = nonces ++ (prices ++ limits) ∧
    (∀ x ∈ nonces, AsksNonce plan x) ∧ (∀ x ∈ prices, x.IsFor "eth_gasPrice" []) ∧
    ∀ x ∈ limits, Gas.Estimator.AsksLimit plan price x

/-- Behind a nonce prices are asked for until one is told, as often as the policy allows,
and at the price that the plan has then what belongs to its limit. -/
def AsksBehindNonce (b : TransactionBuilder) (h : Handle σ) (plan : TransactionPlan)
    (w : World σ) (es : List Exchange) : Prop :=
  ∃ prices limits, es = prices ++ limits ∧
    Finds (Exchange.IsFor "eth_gasPrice" []) (Exchange.value? Quantity.readWord)
      (max 1 h.backoff.attempts.toNat) prices (h.suggestedGasPrice.run w).1 ∧
    ∀ x ∈ limits, ∃ price v, ((b.estimator plan).price h).run w = (.done price, v) ∧
      Gas.Estimator.AsksLimit plan price x

/-- With a key nonces are asked for as often as the policy allows, until one is told, and
nothing else without one. -/
structure AsksStepByStep (b : TransactionBuilder) (h : Handle σ) (plan : TransactionPlan)
    (w : World σ) (nonces rest : List Exchange) : Prop where
  nonces : Asks (AsksNonce plan) (Exchange.value? Quantity.readUInt64)
    (max 1 h.backoff.attempts.toNat) nonces ((h.pendingNonce plan.account).run w).1
  behind : (rest = [] ∧ ∀ nonce, ((h.pendingNonce plan.account).run w).1 ≠ .done nonce) ∨
    ∃ nonce v, (h.pendingNonce plan.account).run w = (.done nonce, v) ∧
      b.AsksBehindNonce h plan v rest

/-! ## The parts of a build -/

/-- What a build asks the node when it has the key. -/
def buildWith (b : TransactionBuilder) (h : Handle σ) (plan : TransactionPlan)
    (key : PrivateKey) : Workflow σ TransactionError PreparedTransaction := do
  let nonce ← (h.pendingNonce plan.account).withError .rpc
  let price ← (b.estimator plan).price h
  let limit ← (b.estimator plan).limit h plan price
  return ⟨key.address, nonce, price, limit, plan.value.getD 0, plan.chainId, key⟩

/-- What a build asks the node when it has the key and the nonce. -/
def buildBehind (b : TransactionBuilder) (h : Handle σ) (plan : TransactionPlan)
    (key : PrivateKey) (nonce : UInt64) : Workflow σ TransactionError PreparedTransaction := do
  let price ← (b.estimator plan).price h
  let limit ← (b.estimator plan).limit h plan price
  return ⟨key.address, nonce, price, limit, plan.value.getD 0, plan.chainId, key⟩

theorem buildWith_eq (b : TransactionBuilder) (h : Handle σ) (plan : TransactionPlan)
    (key : PrivateKey) :
    b.buildWith h plan key =
      (h.pendingNonce plan.account).withError .rpc >>= b.buildBehind h plan key := rfl

theorem build_of_key {key : PrivateKey} (hkey : b.keyOf plan = .ok key) (h : Handle σ) :
    b.build h plan = b.buildWith h plan key := by
  rw [keyOf] at hkey
  simp only [build, hkey]
  rfl

/-- Without a key nothing is asked and no time passes. -/
theorem build_of_no_key {e : AccountError} (hkey : b.keyOf plan = .error e) (h : Handle σ) :
    b.build h plan = fail (.account e) := by
  rw [keyOf] at hkey
  simp only [build, hkey]
  rfl

theorem accounts_pendingNonce (h : Handle σ) (plan : TransactionPlan) :
    Accounts (h.transcribed.pendingNonce plan.account) (h.pendingNonce plan.account)
      (Asks (AsksNonce plan) (Exchange.value? Quantity.readUInt64)
        (max 1 h.backoff.attempts.toNat)) :=
  Handle.accounts_retrying (h.transport.accounts_ask _ _ _) repeatable_asks

/-- A build that gets no nonce has asked for nothing else. -/
theorem buildWith_of_no_nonce (b : TransactionBuilder) (key : PrivateKey) {e : RpcError}
    (hnonce : (h.pendingNonce plan.account).run w = (.failed e, v)) :
    (b.buildWith h plan key).run w = (.failed (.rpc e), v) ∧
      ∀ x ∈ (b.buildWith h.transcribed plan key).transcript w, AsksNonce plan x := by
  have hfailed := withError_of_failed (f := TransactionError.rpc) hnonce
  obtain ⟨es, hes, hasks⟩ := accounts_pendingNonce h plan none w
  have hbuild : Transcribes (b.buildWith h.transcribed plan key) (b.buildWith h plan key) none w
      es :=
    hes.withError.bind_stopped fun a ha => by rw [hfailed] at ha; cases ha
  refine ⟨bind_failed_iff.mpr (Or.inl hfailed), ?_⟩
  rw [hbuild.transcript]
  exact hasks.atMost.2

/-- The price of a plan when the node tells none: the configured floor. -/
def floorPrice (plan : TransactionPlan) : Word :=
  (gweiToWei plan.gas.floorGwei).scale plan.gas.priceFactor

theorem price_of_failed (b : TransactionBuilder) (plan : TransactionPlan) {e : RpcError}
    (hprice : h.suggestedGasPrice.run w = (.failed e, v)) :
    ((b.estimator plan).price h).run w = (.done (floorPrice plan), v) :=
  bind_done_iff.mpr ⟨_, v, caught_done_iff.mpr (Or.inr ⟨e, rfl, hprice⟩), rfl⟩

theorem buildWith_done_iff {key : PrivateKey} {prepared : PreparedTransaction} :
    (b.buildWith h plan key).run w = (.done prepared, v) ↔
      ∃ nonce u₁ price u₂ limit, (h.pendingNonce plan.account).run w = (.done nonce, u₁) ∧
        ((b.estimator plan).price h).run u₁ = (.done price, u₂) ∧
        ((b.estimator plan).limit h plan price).run u₂ = (.done limit, v) ∧
        prepared = ⟨key.address, nonce, price, limit, plan.value.getD 0, plan.chainId, key⟩ := by
  simp only [buildWith, Workflow.run, bind_done_iff, withError_done_iff]
  constructor
  · rintro ⟨nonce, u₁, hnonce, price, u₂, hprice, limit, u₃, hlimit, hend⟩
    cases hend
    exact ⟨nonce, u₁, price, u₂, limit, hnonce, hprice, hlimit, rfl⟩
  · rintro ⟨nonce, u₁, price, u₂, limit, hnonce, hprice, hlimit, rfl⟩
    exact ⟨nonce, u₁, hnonce, price, u₂, hprice, limit, v, hlimit, rfl⟩

theorem buildWith_of_no_limit {key : PrivateKey} {nonce : UInt64} {price : Word}
    {e : TransactionError} {u₁ u₂ : World σ}
    (hnonce : (h.pendingNonce plan.account).run w = (.done nonce, u₁))
    (hprice : ((b.estimator plan).price h).run u₁ = (.done price, u₂))
    (hlimit : ((b.estimator plan).limit h plan price).run u₂ = (.failed e, v)) :
    (b.buildWith h plan key).run w = (.failed e, v) := by
  refine bind_failed_iff.mpr (Or.inr ⟨nonce, u₁, withError_done_iff.mpr hnonce, ?_⟩)
  refine bind_failed_iff.mpr (Or.inr ⟨price, u₂, hprice, ?_⟩)
  exact bind_failed_iff.mpr (Or.inl hlimit)

/-! ## Order and nonce -/

theorem method?_ne_of_asksLimit {price : Word} {x : Exchange}
    (hx : Gas.Estimator.AsksLimit plan price x) : x.method? ≠ some "eth_getTransactionCount" := by
  rcases hx with ⟨data, -, hx⟩ | hx | hx
  · simp [hx.method?]
  · simp [hx]
  · simp [hx]

theorem exists_asked_behind (b : TransactionBuilder) (h : Handle σ) (plan : TransactionPlan)
    (key : PrivateKey) (nonce : UInt64) (w : World σ) :
    ∃ es, Transcribes (b.buildBehind h.transcribed plan key nonce) (b.buildBehind h plan key nonce)
      none w es ∧ b.AsksBehindNonce h plan w es := by
  obtain ⟨prices, hprices, hfinds⟩ := (b.estimator plan).exists_asked h w
  rcases hprice : (b.estimator plan).price h none w with ⟨price | e | _, v⟩
  case failed | expired =>
    refine ⟨prices, hprices.bind_stopped (by simp [hprice]), prices, [], ?_, hfinds, by simp⟩
    rw [List.append_nil]
  case done =>
    obtain ⟨limits, hlimits, hasks⟩ := (b.estimator plan).asksOnly_limit h plan price none v
    refine ⟨prices ++ limits, hprices.bind_done hprice ?_, prices, limits, rfl, hfinds,
      fun x hx => ⟨price, v, hprice, hasks x hx⟩⟩
    rcases hlimit : (b.estimator plan).limit h plan price none v with ⟨limit | e | _, u⟩
    case failed | expired => exact hlimits.bind_stopped (by simp [hlimit])
    case done =>
      rw [← List.append_nil limits]
      exact hlimits.bind_done hlimit (transcribes_value _)

theorem exists_asked (b : TransactionBuilder) (h : Handle σ) (plan : TransactionPlan)
    (key : PrivateKey) (w : World σ) :
    ∃ nonces rest, Transcribes (b.buildWith h.transcribed plan key) (b.buildWith h plan key) none w
      (nonces ++ rest) ∧ b.AsksStepByStep h plan w nonces rest := by
  obtain ⟨nonces, hnonces, hasks⟩ := accounts_pendingNonce h plan none w
  have hmapped : Transcribes
      ((h.transcribed.pendingNonce plan.account).withError TransactionError.rpc)
      ((h.pendingNonce plan.account).withError TransactionError.rpc) none w nonces :=
    hnonces.withError
  rcases hnonce : (h.pendingNonce plan.account).run w with ⟨nonce | e | _, v⟩
  case failed | expired =>
    refine ⟨nonces, [], ?_, hasks, .inl ⟨rfl, by simp [hnonce]⟩⟩
    rw [List.append_nil, buildWith_eq, buildWith_eq]
    refine hmapped.bind_stopped fun nonce hdone => ?_
    cases hnonce.symm.trans (withError_done_iff.mp (Prod.ext hdone rfl))
  case done =>
    obtain ⟨rest, hrest, hbehind⟩ := b.exists_asked_behind h plan key nonce v
    refine ⟨nonces, rest, ?_, hasks, .inr ⟨nonce, v, hnonce, hbehind⟩⟩
    rw [buildWith_eq, buildWith_eq]
    exact hmapped.bind_done (withError_done_iff.mpr hnonce) hrest

namespace AsksStepByStep

variable {nonces rest : List Exchange}

/-- There is one price at which a plan can be built from a world. -/
theorem exists_price (b : TransactionBuilder) (h : Handle σ) (plan : TransactionPlan)
    (w : World σ) :
    ∃ price, ∀ nonce u price' v, (h.pendingNonce plan.account).run w = (.done nonce, u) →
      ((b.estimator plan).price h).run u = (.done price', v) → price' = price := by
  by_cases hpriced : ∃ nonce u price v, (h.pendingNonce plan.account).run w = (.done nonce, u) ∧
      ((b.estimator plan).price h).run u = (.done price, v)
  · obtain ⟨nonce, u, price, v, hnonce, hprice⟩ := hpriced
    refine ⟨price, fun nonce' u' price' v' hnonce' hprice' => ?_⟩
    cases hnonce.symm.trans hnonce'
    cases hprice.symm.trans hprice'
    rfl
  · exact ⟨0, fun nonce u price v hnonce hprice =>
      absurd ⟨nonce, u, price, v, hnonce, hprice⟩ hpriced⟩

/-- Step by step is in order. -/
theorem in_order (hsteps : b.AsksStepByStep h plan w nonces rest) {price : Word}
    (hprice : ∀ nonce u price' v, (h.pendingNonce plan.account).run w = (.done nonce, u) →
      ((b.estimator plan).price h).run u = (.done price', v) → price' = price) :
    AsksInOrder plan price (nonces ++ rest) := by
  rcases hsteps.behind with ⟨rfl, -⟩ | ⟨nonce, u, hnonce, prices, limits, rfl, hprices, hlimits⟩
  · exact ⟨nonces, [], [], rfl, hsteps.nonces.atMost.2, by simp, by simp⟩
  · refine ⟨nonces, prices, limits, rfl, hsteps.nonces.atMost.2, hprices.atMost.2, fun x hx => ?_⟩
    obtain ⟨price', v, hrun, hx⟩ := hlimits x hx
    rwa [hprice nonce u price' v hnonce hrun] at hx

theorem lastAbout?_eq (hsteps : b.AsksStepByStep h plan w nonces rest) :
    Exchange.lastAbout? "eth_getTransactionCount" (nonces ++ rest) = nonces.getLast? := by
  rw [Exchange.lastAbout?_append_of_none, Exchange.lastAbout?_of_all]
  · exact fun x hx => (hsteps.nonces.atMost.2 x hx).method?
  · rcases hsteps.behind with ⟨rfl, -⟩ | ⟨_, _, -, prices, limits, rfl, hprices, hlimits⟩
    · simp
    · intro x hx
      rcases List.mem_append.mp hx with hx | hx
      · simp [(hprices.atMost.2 x hx).method?]
      · obtain ⟨_, _, -, hx⟩ := hlimits x hx
        exact method?_ne_of_asksLimit hx

end AsksStepByStep

/-- What a build asks for, at the price and with the nonce that it comes to. -/
theorem exists_asked_in_order (b : TransactionBuilder) (h : Handle σ) (plan : TransactionPlan)
    (w : World σ) :
    ∃ es, Transcribes (b.build h.transcribed plan) (b.build h plan) none w es ∧
      ∃ price, AsksInOrder plan price es ∧
        ∀ prepared v, (b.build h plan).run w = (.done prepared, v) → prepared.gasPrice = price ∧
          (Exchange.lastAbout? "eth_getTransactionCount" es).bind
            (Exchange.value? Quantity.readUInt64) = some prepared.nonce := by
  cases hkey : b.keyOf plan with
  | error e =>
    rw [build_of_no_key hkey, build_of_no_key hkey]
    exact ⟨[], transcribes_fail _, 0, ⟨[], [], [], by simp⟩, by simp [fail, Workflow.run]⟩
  | ok key =>
    rw [build_of_key hkey, build_of_key hkey]
    obtain ⟨nonces, rest, hasked, hsteps⟩ := b.exists_asked h plan key w
    obtain ⟨price, hprice⟩ := AsksStepByStep.exists_price b h plan w
    refine ⟨_, hasked, price, hsteps.in_order hprice, fun prepared v hdone => ?_⟩
    obtain ⟨nonce, u₁, price', u₂, limit, hnonce, hprices, -, rfl⟩ := buildWith_done_iff.mp hdone
    refine ⟨hprice nonce u₁ price' u₂ hnonce hprices, ?_⟩
    rw [hsteps.lastAbout?_eq]
    exact (hsteps.nonces.done_iff nonce).mp (congrArg Prod.fst hnonce)

/-- A build asks by five methods. -/
theorem AsksInOrder.method?_mem {price : Word} {es : List Exchange} {x : Exchange}
    (h : AsksInOrder plan price es) (hx : x ∈ es) :
    x.method? = some "eth_getTransactionCount" ∨ x.method? = some "eth_gasPrice" ∨
      x.method? = some "eth_estimateGas" ∨ x.method? = some "eth_call" ∨
      x.method? = some "eth_getBlockByNumber" := by
  obtain ⟨nonces, prices, limits, rfl, hnonces, hprices, hlimits⟩ := h
  simp only [List.mem_append] at hx
  rcases hx with hx | hx | hx
  · exact Or.inl (hnonces x hx).method?
  · exact Or.inr (Or.inl (hprices x hx).method?)
  · rcases hlimits x hx with ⟨data, -, hx⟩ | hx | hx
    · exact Or.inr (Or.inr (Or.inl hx.method?))
    · exact Or.inr (Or.inr (Or.inr (Or.inl hx)))
    · exact Or.inr (Or.inr (Or.inr (Or.inr hx)))

/-! ## One build after another -/

/-- One of several builds: the worlds where it began and ended, what it came to
and what was exchanged for it. -/
structure BuildRun (σ : Type) where
  handle : Handle σ
  plan : TransactionPlan
  start : World σ
  outcome : Outcome TransactionError PreparedTransaction
  finish : World σ
  exchanged : List Exchange

/-- Plans built one after another by one builder, each over its handle. -/
def builds (b : TransactionBuilder) : List (Handle σ × TransactionPlan) → World σ →
    List (BuildRun σ)
  | [], _ => []
  | (h, plan) :: rest, w =>
    let r := (b.build h plan).run w
    ⟨h, plan, w, r.1, r.2, (b.build h.transcribed plan).transcript w⟩ :: b.builds rest r.2

/-- A build asks for what it needs in order, and for the nonce anew. -/
structure IsOrderly (b : TransactionBuilder) (r : BuildRun σ) : Prop where
  in_order : ∃ price, AsksInOrder r.plan price r.exchanged
  step_by_step : ∀ key, b.keyOf r.plan = .ok key → ∃ nonces rest, r.exchanged = nonces ++ rest ∧
    b.AsksStepByStep r.handle r.plan r.start nonces rest
  key_first : ∀ e, b.keyOf r.plan = .error e →
    r.outcome = .failed (.account e) ∧ r.finish = r.start ∧ r.exchanged = []
  nonce_next : ∀ key e v, b.keyOf r.plan = .ok key →
    (r.handle.pendingNonce r.plan.account).run r.start = (.failed e, v) →
    r.outcome = .failed (.rpc e) ∧ ∀ x ∈ r.exchanged, AsksNonce r.plan x
  /-- Without a price of the node the build goes on to the limit, and ends as
  that does. -/
  no_price_needed : ∀ key nonce u e v, b.keyOf r.plan = .ok key →
    (r.handle.pendingNonce r.plan.account).run r.start = (.done nonce, u) →
    r.handle.suggestedGasPrice.run u = (.failed e, v) →
    (∀ limit t,
      ((b.estimator r.plan).limit r.handle r.plan (floorPrice r.plan)).run v = (.done limit, t) →
      r.outcome = .done ⟨key.address, nonce, floorPrice r.plan, limit, r.plan.value.getD 0,
        r.plan.chainId, key⟩) ∧
    ∀ failure t,
      ((b.estimator r.plan).limit r.handle r.plan (floorPrice r.plan)).run v =
        (.failed failure, t) →
      r.outcome = .failed failure
  fresh_nonce : ∀ prepared, r.outcome = .done prepared →
    (Exchange.lastAbout? "eth_getTransactionCount" r.exchanged).bind
      (Exchange.value? Quantity.readUInt64) = some prepared.nonce

theorem isOrderly_build (b : TransactionBuilder) (h : Handle σ) (plan : TransactionPlan)
    (w : World σ) :
    b.IsOrderly ⟨h, plan, w, ((b.build h plan).run w).1, ((b.build h plan).run w).2,
      (b.build h.transcribed plan).transcript w⟩ := by
  obtain ⟨es, hes, price, horder, hdone⟩ := b.exists_asked_in_order h plan w
  refine ⟨⟨price, by rwa [hes.transcript]⟩, ?_, ?_, ?_, ?_, fun prepared hp => ?_⟩ <;> dsimp only
  · intro key hkey
    obtain ⟨nonces, rest, hasked, hsteps⟩ := b.exists_asked h plan key w
    refine ⟨nonces, rest, ?_, hsteps⟩
    rw [build_of_key hkey]
    exact hasked.transcript
  · intro e hkey
    rw [build_of_no_key hkey, build_of_no_key hkey]
    exact ⟨rfl, rfl, rfl⟩
  · intro key e v hkey hnonce
    rw [build_of_key hkey, build_of_key hkey]
    have ⟨hrun, honly⟩ := buildWith_of_no_nonce b key hnonce
    exact ⟨by rw [hrun], honly⟩
  · intro key nonce u e v hkey hnonce hprice
    rw [build_of_key hkey]
    have hfloor := price_of_failed b plan hprice
    refine ⟨fun limit t hlimit => ?_, fun failure t hlimit => ?_⟩
    · rw [buildWith_done_iff.mpr ⟨nonce, u, _, v, limit, hnonce, hfloor, hlimit, rfl⟩]
    · rw [buildWith_of_no_limit hnonce hfloor hlimit]
  · rw [hes.transcript]
    exact (hdone prepared _ (Prod.ext hp rfl)).2

/-- Each of many builds asks for the key, the nonce, the price and the limit in
this order and for nothing behind a key or a nonce that it does not get, goes on
without a price, and takes the nonce that the node told last in this very
build. -/
theorem each_build_asks_in_order_and_afresh (b : TransactionBuilder)
    (jobs : List (Handle σ × TransactionPlan)) (w₀ : World σ) :
    ∀ r ∈ b.builds jobs w₀, b.IsOrderly r := by
  induction jobs generalizing w₀ with
  | nil => simp [builds]
  | cons job rest ih =>
    intro r hr
    rcases List.mem_cons.mp hr with rfl | hr
    · exact isOrderly_build b job.1 job.2 w₀
    · exact ih _ r hr

/-- A transport to a node that counts every question for a nonce as a transaction, and
suggests a price of a gwei. -/
def counting : Transport Nat :=
  .ofSend "http://a"
    (fun request _ s =>
      if (request.get? "method").bind Json.asStr? = some "eth_getTransactionCount" then
        ⟨some (.ok (.obj [("result", Quantity.ofUInt64 (UInt64.ofNat s))])), 0, s + 1⟩
      else ⟨some (.ok (.obj [("result", .str "0x3b9aca00")])), 0, s⟩)
    (fun _ _ s => ⟨some (.ok []), 0, s⟩)

/-- One attempt of a second at each call. -/
def counted : Handle Nat := ⟨counting, 1000, ⟨1, 0, 0⟩⟩

/-- The second of two builds of the same transfer. -/
def secondBuild : BuildRun Nat :=
  let w := ((keyed.build counted emptyTransfer).run (World.start 0)).2
  let r := (keyed.build counted emptyTransfer).run w
  ⟨counted, emptyTransfer, w, r.1, r.2,
    (keyed.build counted.transcribed emptyTransfer).transcript w⟩

/-- The second of two builds takes the nonce of its own answer, and the price of the node. -/
theorem the_second_build_asks_again :
    secondBuild ∈
      keyed.builds [(counted, emptyTransfer), (counted, emptyTransfer)] (World.start 0) ∧
    secondBuild.outcome =
      .done ⟨(default : PrivateKey).address, 1, 1000000000, 21000, 0, 1, default⟩ ∧
    keyed.IsOrderly secondBuild := by
  have hmem : secondBuild ∈
      keyed.builds [(counted, emptyTransfer), (counted, emptyTransfer)] (World.start 0) :=
    List.mem_cons_of_mem _ List.mem_cons_self
  exact ⟨hmem, rfl, each_build_asks_in_order_and_afresh keyed _ _ secondBuild hmem⟩

end TransactionBuilder

end ChainAccess
