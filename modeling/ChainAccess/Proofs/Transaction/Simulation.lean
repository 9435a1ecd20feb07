import ChainAccess.Proofs.Transaction.Signed
import ChainAccess.Proofs.Transaction.Submission
-- What is estimated is what is paid for. Every estimate of a submission asks
-- for the call that is then signed: the same sender, target, data and value.
-- The signed transaction has the price of the estimates as far as 128 bits
-- hold it, the nonce that the node told last, and the limit that came of the
-- estimates.

namespace ChainAccess

open Workflow
open Secp256k1 (Signature)

namespace TransactionBuilder

variable {σ : Type} {b : TransactionBuilder} {h : Handle σ} {plan : TransactionPlan}
  {w₀ w₁ : World σ} {price : Word} {data : Bytes} {asked : List Exchange}
  {prepared : PreparedTransaction}

/-- What a submission asked for agrees with what it signed: the transaction
that was prepared, the data of the call and the signature. -/
structure SignsAsSimulated (b : TransactionBuilder) (h : Handle σ) (plan : TransactionPlan)
    (w₀ : World σ) (asked : List Exchange) (prepared : PreparedTransaction) (data : Bytes)
    (s : Signature) : Prop where
  sender : prepared.key.address = plan.account
  value : prepared.value = plan.value.getD 0
  chain : prepared.chainId = plan.chainId
  call : plan.callData = .ok data
  simulated : ∀ x ∈ asked, x.method? = some "eth_estimateGas" →
    x.IsFor "eth_estimateGas" [CallRequest.toJson
      ⟨some plan.account, plan.contract, some prepared.gasPrice, plan.value, data⟩]
  signed : prepared.key.sign (prepared.signingHash plan.contract data) = some s
  sent : ∀ x ∈ asked, x.method? = some "eth_sendRawTransaction" →
    HandsTo (prepared.withSignature plan.contract data s) x
  /-- The bytes tell all of it, unless they are too many to be written. -/
  told : (prepared.withSignature plan.contract data s).length < UInt64.size →
    SignedTransaction.ofBytes? (prepared.withSignature plan.contract data s) =
      some ⟨prepared.nonce.toNat, min prepared.gasPrice.toNat (Nat.pow 2 128 - 1),
        prepared.gasLimit.toNat, plan.contract, (plan.value.getD 0).toNat, data,
        plan.chainId.toNat, s⟩
  nonce : (Exchange.lastAbout? "eth_getTransactionCount" asked).bind
    (Exchange.value? Quantity.readUInt64) = some prepared.nonce
  /-- The limit is what the estimator came to, with the price and behind the
  nonce of this very submission. -/
  limit : ∃ u₁ u₂ w₁, (h.pendingNonce plan.account).run w₀ = (.done prepared.nonce, u₁) ∧
    ((b.estimator plan).price h).run u₁ = (.done prepared.gasPrice, u₂) ∧
    ((b.estimator plan).limit h plan prepared.gasPrice).run u₂ = (.done prepared.gasLimit, w₁)

theorem build_done_iff :
    (b.build h plan).run w₀ = (.done prepared, w₁) ↔
      ∃ key, b.keyOf plan = .ok key ∧ (b.buildWith h plan key).run w₀ = (.done prepared, w₁) := by
  cases hkey : b.keyOf plan with
  | error e => simp [build_of_no_key hkey, Workflow.run, fail]
  | ok key => simp [build_of_key hkey]

theorem AsksInOrder.estimate (horder : AsksInOrder plan price asked)
    (hdata : plan.callData = .ok data) {x : Exchange} (hx : x ∈ asked)
    (hmethod : x.method? = some "eth_estimateGas") :
    x.IsFor "eth_estimateGas" [(Gas.Estimator.simulated plan price data).toJson] := by
  obtain ⟨nonces, prices, limits, rfl, hnonces, hprices, hlimits⟩ := horder
  simp only [List.mem_append] at hx
  rcases hx with hx | hx | hx
  · rw [(hnonces x hx).method?] at hmethod
    simp at hmethod
  · rw [(hprices x hx).method?] at hmethod
    simp at hmethod
  · rcases hlimits x hx with ⟨data', hdata', hx⟩ | hx | hx
    · cases hdata.symm.trans hdata'
      exact hx
    · rw [hx] at hmethod
      simp at hmethod
    · rw [hx] at hmethod
      simp at hmethod

/-- A submission that hands anything to the node has signed it. -/
theorem exists_signs_of_sent {x : Exchange}
    (hx : x ∈ (b.submit h.transcribed plan).transcript w₀)
    (hmethod : x.method? = some "eth_sendRawTransaction") :
    ∃ hash raw w₁, b.Signs h plan w₀ hash raw w₁ := by
  by_contra hno
  obtain ⟨asked, hasked, price, horder, -⟩ := b.exists_asked_in_order h plan w₀
  rw [(transcribes_submit_of_unsigned hno).transcript, hasked.transcript] at hx
  rcases horder.method?_mem hx with h | h | h | h | h <;> simp [h] at hmethod

/-- A submission that reaches the node with its transaction has signed the call
that it had estimated. -/
theorem what_is_signed_was_simulated (b : TransactionBuilder) (h : Handle σ)
    (plan : TransactionPlan) (w₀ : World σ)
    (hkeys : ∀ key, b.keyOf plan = .ok key → key.address = plan.account)
    (hsent : ∃ x ∈ (b.submit h.transcribed plan).transcript w₀,
      x.method? = some "eth_sendRawTransaction") :
    ∃ prepared data s, SignsAsSimulated b h plan w₀
      ((b.submit h.transcribed plan).transcript w₀) prepared data s := by
  obtain ⟨x, hx, hmethod⟩ := hsent
  obtain ⟨hash, raw, w₁, hs⟩ := exists_signs_of_sent hx hmethod
  obtain ⟨sent, htranscript, -, hands⟩ := exists_sent_of_signs hs
  obtain ⟨prepared, data, hbuild, hdata, hsign⟩ := hs
  obtain ⟨asked, hasked, price, horder, hdone⟩ := b.exists_asked_in_order h plan w₀
  obtain ⟨rfl, hnonce⟩ := hdone prepared _ hbuild
  obtain ⟨key, hkey, hwith⟩ := build_done_iff.mp hbuild
  obtain ⟨nonce, u₁, price, u₂, limit, hruns, hprice, hlimit, rfl⟩ := buildWith_done_iff.mp hwith
  obtain ⟨s, hs, rfl⟩ := PreparedTransaction.exists_signature_of_sign hsign
  rw [htranscript, hasked.transcript]
  refine ⟨⟨key.address, nonce, price, limit, plan.value.getD 0, plan.chainId, key⟩, data, s, ?_⟩
  refine
    { sender := hkeys key hkey
      value := rfl
      chain := rfl
      call := hdata
      signed := hs
      told := fun hlength => PreparedTransaction.ofBytes?_withSignature hlength
      limit := ⟨u₁, u₂, w₁, hruns, hprice, hlimit⟩
      simulated := fun x hx hmethod => ?_
      sent := fun x hx hmethod => ?_
      nonce := ?_ }
  · rcases List.mem_append.mp hx with hx | hx
    · exact horder.estimate hdata hx hmethod
    · rw [(hands x hx).method?] at hmethod
      simp at hmethod
  · rcases List.mem_append.mp hx with hx | hx
    · rcases horder.method?_mem hx with h | h | h | h | h <;> simp [h] at hmethod
    · exact hands x hx
  · rw [Exchange.lastAbout?_append_of_none fun x hx => by simp [(hands x hx).method?]]
    exact hnonce

/-- The results of a node that has seen seven transactions of everyone, whose
price has more than 128 bits, and that takes what it is handed. -/
def dearResult (method : String) : String :=
  if method = "eth_getTransactionCount" then "0x7"
  else if method = "eth_gasPrice" then "0x1000000000000000000000000000000000"
  else if method = "eth_estimateGas" then "0xc350"
  else "0x0000000000000000000000000000000000000000000000000000000000000000"

/-- A transport to this node. -/
def dear : Transport Unit :=
  .ofSend "http://a"
    (fun request _ s =>
      let method := ((request.get? "method").bind Json.asStr?).getD ""
      ⟨some (.ok (.obj [("result", .str (dearResult method))])), 0, s⟩)
    (fun _ _ s => ⟨some (.ok []), 0, s⟩)

/-- One attempt of a second at each call. -/
def dearly : Handle Unit := ⟨dear, 1000, ⟨1, 0, 0⟩⟩

/-- A call of a method without arguments. -/
def poke : TransactionPlan :=
  ⟨(default : Secp256k1.PrivateKey).address, "", "", ⟨5⟩, ⟨[⟨"poke", [], []⟩]⟩, "poke", [], 1,
    .default, some 3⟩

/-- The call as it is signed. -/
def poked : PreparedTransaction :=
  ⟨(default : Secp256k1.PrivateKey).address, 7, BitVec.ofNat 256 (Nat.pow 2 132), 50000, 3, 1,
    default⟩

theorem callData_poke : poke.callData = .ok [0x18, 0x17, 0x83, 0x58] := by decide +kernel

theorem draws_poked : Secp256k1.Draws poked.key
    0x5c8aa9ffd35309623fa20fb3e6294ed48daccb4df302065bdbc971238de03704
    0x2881d151013751370e4c44218eeb25bdbb01519ef730fee5cc45ba4105c6fb31
    0x8aca6beccdc1435b4799c2faf1284eae450eee89901aa4e7d2dd1d2bce2ee6c3
    0xf0f99f56aeab392a97e4db3e3cfdbc96fa31e28ab6809c5f00653d8a3090e636
    0x504571db4c376678550cff7ef3dd85eb562334de098118334d36f3939893331
    0x7af73e8cde023066a08293bb5c0ab3c8029b2d18fbb7f364c1cb1235cc6d5cc9 where
  firstKey := by decide +kernel
  firstValue := by decide +kernel
  secondKey := by decide +kernel
  secondValue := by decide +kernel
  drawn := by decide +kernel
  pos := by decide
  lt_order := by decide
  serves := by decide +kernel

theorem exists_signed_poke :
    ∃ hash raw, poked.sign poke.contract [0x18, 0x17, 0x83, 0x58] = .ok (hash, raw) :=
  PreparedTransaction.exists_sign draws_poked (by decide +kernel)

theorem hands_dearly (raw : Bytes) (w : World Unit) : ∃ v, Hands dearly raw w (.done ⟨0⟩) v := by
  have hread : Hash.read (.str (dearResult "eth_sendRawTransaction")) = .ok ⟨0⟩ := by
    decide +kernel
  exact ⟨_, "http://a", _, rfl, Transport.ask_of_read rfl rfl hread⟩

theorem submit_poke : ∃ v, (keyed.submit dearly poke).run (World.start ()) = (.done ⟨0⟩, v) := by
  obtain ⟨hash, raw, hsign⟩ := exists_signed_poke
  obtain ⟨w₁, hs⟩ : ∃ w₁, keyed.Signs dearly poke (World.start ()) hash raw w₁ :=
    ⟨_, poked, _, rfl, callData_poke, hsign⟩
  obtain ⟨v, hhands⟩ := hands_dearly raw w₁
  have hdone : (dearly.attempt (broadcast dear hash raw)).run w₁ = (.done ⟨0⟩, v) :=
    attempt_broadcast_done_iff.mpr (Or.inl hhands)
  have hover : HandsOver dearly hash raw w₁ 0 w₁ := .first
  have hrun := Backoff.run_eq_iff.mpr ⟨0, w₁, hover, hdone, trivial⟩
  exact ⟨v, submit_done_iff.mpr ⟨hash, raw, w₁, hs, hrun⟩⟩

/-- A call at a price with more bits than can be signed is signed as it was
estimated but for the price. -/
theorem a_dear_call_is_signed_as_simulated :
    (∀ key, keyed.keyOf poke = .ok key → key.address = poke.account) ∧
    (∃ x ∈ (keyed.submit dearly.transcribed poke).transcript (World.start ()),
      x.method? = some "eth_sendRawTransaction") ∧
    ∃ prepared data s, SignsAsSimulated keyed dearly poke (World.start ())
      ((keyed.submit dearly.transcribed poke).transcript (World.start ())) prepared data s := by
  have hkeys : ∀ key, keyed.keyOf poke = .ok key → key.address = poke.account := by
    intro key hkey
    cases hkey
    rfl
  obtain ⟨v, hdone⟩ := submit_poke
  have hsent := exists_handed_of_done hdone
  exact ⟨hkeys, hsent, what_is_signed_was_simulated keyed dearly poke (World.start ()) hkeys hsent⟩

end TransactionBuilder

end ChainAccess
