import ChainAccess.Proofs.Transaction.Broadcast
import ChainAccess.Proofs.Transaction.Build
-- One submission sends one transaction. The plan is built and signed once;
-- what the node is asked for from then on is to take these very bytes, at most
-- once in each attempt.

namespace ChainAccess

open Workflow

namespace TransactionBuilder

variable {σ : Type} {b : TransactionBuilder} {h : Handle σ} {plan : TransactionPlan}
  {w₀ w₁ w u v : World σ} {hash sent : Hash} {raw : Bytes}

/-- The exchange hands the node a signed transaction. -/
def HandsTo (raw : Bytes) (x : Exchange) : Prop := x.IsFor "eth_sendRawTransaction" [raw.toJson]

/-- A broadcast hands over the transaction once, whatever comes of it. -/
theorem accounts_broadcast (t : Transport σ) (hash : Hash) (raw : Bytes) :
    Accounts (broadcast t.transcribed hash raw) (broadcast t hash raw)
      (AsksUpTo (HandsTo raw) 1) := by
  have hone : ∀ (es : List Exchange) (r o : Outcome RpcError Hash), es.length = 1 →
      Asks (Exchange.IsFor "eth_sendRawTransaction" [raw.toJson]) (Exchange.value? Hash.read) 1 es
        r → AsksUpTo (HandsTo raw) 1 (es ++ []) o := by
    intro es r o hlength hasks
    rw [List.append_nil]
    exact ⟨hasks.atMost, fun _ _ hnil => by simp [hnil] at hlength⟩
  refine (t.accounts_ask_once _ _ _).caught.bind (fun es r hr => ?_) (fun _ _ h => h.elim)
    (fun es h => by simpa using hone es _ .expired h.1 h.2)
  cases r with
  | ok sent => exact accounts_value (hone es _ _ hr.1 hr.2)
  | error e =>
    by_cases hknown : e.isAlreadyKnown = true
    · simp only [hknown, if_true]
      exact accounts_value (hone es _ _ hr.1 hr.2)
    · simp only [hknown]
      exact accounts_fail (hone es _ _ hr.1 hr.2)

/-! ## The parts of a submission -/

/-- What is done with a plan that has been built. -/
def submitBuilt (h : Handle σ) (plan : TransactionPlan) (prepared : PreparedTransaction) :
    Workflow σ TransactionError Hash := do
  let data ← ofExcept (plan.callData.mapError .rpc)
  let (hash, raw) ← ofExcept (prepared.sign plan.contract data)
  (h.retrying (broadcast h.transport hash raw)).withError .rpc

theorem submit_eq (b : TransactionBuilder) (h : Handle σ) (plan : TransactionPlan) :
    b.submit h plan = b.build h plan >>= submitBuilt h plan := rfl

variable {prepared : PreparedTransaction} {data : Bytes}

theorem submitBuilt_of_signed (h : Handle σ) (hdata : plan.callData = .ok data)
    (hsign : prepared.sign plan.contract data = .ok (hash, raw)) :
    submitBuilt h plan prepared = (h.retrying (broadcast h.transport hash raw)).withError .rpc := by
  rw [submitBuilt, ofExcept_bind_of_ok (mapError_eq_ok_iff.mpr hdata), ofExcept_bind_of_ok hsign]

/-- Without call data or a signature nothing more is asked. -/
theorem submitBuilt_of_unsigned
    (hno : ∀ data pair, plan.callData = .ok data → prepared.sign plan.contract data ≠ .ok pair) :
    ∃ e, ∀ {τ : Type} (h : Handle τ), submitBuilt h plan prepared = fail e := by
  cases hdata : plan.callData with
  | error e =>
    refine ⟨.rpc e, fun h => ?_⟩
    rw [submitBuilt, ofExcept_bind_of_error (mapError_eq_error_iff.mpr ⟨e, hdata, rfl⟩)]
  | ok data =>
    cases hsign : prepared.sign plan.contract data with
    | ok pair => exact absurd hsign (hno data pair hdata)
    | error e =>
      refine ⟨e, fun h => ?_⟩
      rw [submitBuilt, ofExcept_bind_of_ok (mapError_eq_ok_iff.mpr hdata),
        ofExcept_bind_of_error hsign]

/-- What is signed is handed over, and nothing else is done for it. -/
theorem submit_of_signs (hs : b.Signs h plan w₀ hash raw w₁) :
    (b.submit h plan).run w₀ =
      ((h.retrying (broadcast h.transport hash raw)).withError TransactionError.rpc).run w₁ := by
  obtain ⟨prepared, data, hbuild, hdata, hsign⟩ := hs
  rw [submit_eq, Workflow.run, bind_of_done hbuild, submitBuilt_of_signed h hdata hsign]
  rfl

theorem accounts_broadcasts (h : Handle σ) (hash : Hash) (raw : Bytes) :
    Accounts (h.transcribed.retrying (broadcast h.transcribed.transport hash raw))
      (h.retrying (broadcast h.transport hash raw))
      (AsksUpTo (HandsTo raw) (max 1 h.backoff.attempts.toNat)) :=
  Handle.accounts_retrying (accounts_broadcast h.transport hash raw) repeatable_asksUpTo

/-- What follows the build hands over the transaction and does nothing else. -/
theorem transcribes_submit_of_signs (hs : b.Signs h plan w₀ hash raw w₁) :
    ∃ sent, Transcribes (b.submit h.transcribed plan) (b.submit h plan) none w₀
        ((b.build h.transcribed plan).transcript w₀ ++ sent) ∧
      AsksUpTo (HandsTo raw) (max 1 h.backoff.attempts.toNat) sent
        ((h.retrying (broadcast h.transport hash raw)).run w₁).1 := by
  obtain ⟨prepared, data, hbuild, hdata, hsign⟩ := hs
  obtain ⟨asked, hasked, -⟩ := b.exists_asked_in_order h plan w₀
  obtain ⟨sent, hsent, hasks⟩ := accounts_broadcasts h hash raw none w₁
  refine ⟨sent, ?_, hasks⟩
  rw [hasked.transcript, submit_eq, submit_eq]
  refine hasked.bind_done hbuild ?_
  rw [submitBuilt_of_signed h hdata hsign, submitBuilt_of_signed h.transcribed hdata hsign]
  exact hsent.withError

theorem exists_sent_of_signs (hs : b.Signs h plan w₀ hash raw w₁) :
    ∃ sent, (b.submit h.transcribed plan).transcript w₀ =
        (b.build h.transcribed plan).transcript w₀ ++ sent ∧
      sent.length ≤ max 1 h.backoff.attempts.toNat ∧ ∀ x ∈ sent, HandsTo raw x := by
  obtain ⟨sent, htranscribes, hasks⟩ := transcribes_submit_of_signs hs
  exact ⟨sent, htranscribes.transcript, hasks.atMost⟩

/-- A submission that succeeds has handed the node its transaction. -/
theorem exists_handed_of_done {v : World σ}
    (hdone : (b.submit h plan).run w₀ = (.done sent, v)) :
    ∃ x ∈ (b.submit h.transcribed plan).transcript w₀,
      x.method? = some "eth_sendRawTransaction" := by
  obtain ⟨hash, raw, w₁, hs, hrun⟩ := submit_done_iff.mp hdone
  obtain ⟨es, htranscribes, hasks⟩ := transcribes_submit_of_signs hs
  have hne : es ≠ [] := hasks.asked sent (by rw [hrun])
  obtain ⟨x, hx⟩ := List.exists_mem_of_ne_nil es hne
  refine ⟨x, ?_, (hasks.atMost.2 x hx).method?⟩
  rw [htranscribes.transcript]
  exact List.mem_append_right _ hx

/-- A plan that is not signed is not handed over. -/
theorem transcribes_submit_of_unsigned (hno : ¬ ∃ hash raw w₁, b.Signs h plan w₀ hash raw w₁) :
    Transcribes (b.submit h.transcribed plan) (b.submit h plan) none w₀
      ((b.build h.transcribed plan).transcript w₀) := by
  obtain ⟨asked, hasked, -⟩ := b.exists_asked_in_order h plan w₀
  rw [hasked.transcript, submit_eq, submit_eq]
  rcases hbuild : b.build h plan none w₀ with ⟨prepared | e | _, w₁⟩
  case failed | expired => exact hasked.bind_stopped (by simp [hbuild])
  case done =>
    have hunsigned : ∀ data pair, plan.callData = .ok data →
        prepared.sign plan.contract data ≠ .ok pair := fun data pair hdata hsign =>
      hno ⟨pair.1, pair.2, w₁, prepared, data, hbuild, hdata, hsign⟩
    obtain ⟨e, he⟩ := submitBuilt_of_unsigned hunsigned
    rw [← List.append_nil asked]
    refine hasked.bind_done hbuild ?_
    rw [he, he]
    exact transcribes_fail e

/-! ## The law -/

/-- Building asks for no broadcast. A plan that is signed is handed to the node
as these bytes and no others, once in each attempt at most and so often as the
policy allows, nothing else is asked for any more, and when submitting fails
then as the last attempt did. A plan that is not signed is not handed over. -/
theorem one_submission_sends_one_transaction (b : TransactionBuilder) (h : Handle σ)
    (plan : TransactionPlan) (w₀ : World σ) :
    (∀ x ∈ (b.build h.transcribed plan).transcript w₀,
      x.method? ≠ some "eth_sendRawTransaction") ∧
    (∀ hash raw w₁, b.Signs h plan w₀ hash raw w₁ →
      (∃ sent, (b.submit h.transcribed plan).transcript w₀ =
          (b.build h.transcribed plan).transcript w₀ ++ sent ∧
        sent.length ≤ max 1 h.backoff.attempts.toNat ∧ ∀ x ∈ sent, HandsTo raw x) ∧
      (∀ n w, HandsOver h hash raw w₁ n w → n < max 1 h.backoff.attempts.toNat) ∧
      ∀ e v, (b.submit h plan).run w₀ = (.failed e, v) →
        ∃ n w failure, HandsOver h hash raw w₁ n w ∧
          (∀ m u, HandsOver h hash raw w₁ m u → m ≤ n) ∧
          (h.attempt (broadcast h.transport hash raw)).run w = (.failed failure, v) ∧
          e = .rpc failure) ∧
    ((¬ ∃ hash raw w₁, b.Signs h plan w₀ hash raw w₁) →
      (b.submit h.transcribed plan).transcript w₀ = (b.build h.transcribed plan).transcript w₀ ∧
      ∀ sent v, (b.submit h plan).run w₀ ≠ (.done sent, v)) := by
  refine ⟨fun x hx => ?_,
    fun hash raw w₁ hs => ⟨exists_sent_of_signs hs, fun n w hn => hn.lt, fun e v hfail => ?_⟩,
    fun hno => ⟨(transcribes_submit_of_unsigned hno).transcript, fun sent v hdone => ?_⟩⟩
  · obtain ⟨asked, hasked, price, horder, -⟩ := b.exists_asked_in_order h plan w₀
    rw [hasked.transcript] at hx
    rcases horder.method?_mem hx with h | h | h | h | h <;> simp [h]
  · rw [submit_of_signs hs] at hfail
    obtain ⟨failure, hrun, rfl⟩ := withError_failed_iff.mp hfail
    obtain ⟨n, w, hn, hattempt, hlast⟩ := Backoff.run_eq_iff.mp hrun
    exact ⟨n, w, failure, hn, fun m u hm => hn.le_of_isLast (by rwa [hattempt]) hm, hattempt, rfl⟩
  · obtain ⟨hash, raw, w₁, hs, -⟩ := submit_done_iff.mp hdone
    exact hno ⟨hash, raw, w₁, hs⟩

end TransactionBuilder

end ChainAccess
