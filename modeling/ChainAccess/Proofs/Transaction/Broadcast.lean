import ChainAccess.Proofs.Handle.Attempts
import ChainAccess.Proofs.Rpc.Words
import ChainAccess.Proofs.Transaction.Signing
import ChainAccess.Transaction.Builder
import Mathlib.Data.List.Infix
import Mathlib.Tactic.Common
-- What counts as sent. A plan that was signed is handed to the node in one
-- attempt after another. The node's hash counts, and so does a failure whose
-- words mention that the transaction is known, wherever in the text they
-- stand; every other failure is left to the policy.

namespace ChainAccess

open Workflow

/-! ## What a failure says -/

namespace RpcError

/-- The words of a failure mention somewhere that the transaction is known. -/
def SaysKnown (e : RpcError) : Prop :=
  ∃ words ∈ knownWords, words.toList <:+: Text.lower e.message.toList

theorem isAlreadyKnown_iff {e : RpcError} : e.isAlreadyKnown = true ↔ e.SaysKnown := by
  simp only [isAlreadyKnown, Text.mentions, List.any_eq_true, Text.contains_iff, SaysKnown]

end RpcError

namespace TransactionBuilder

variable {σ : Type} {b : TransactionBuilder} {h : Handle σ} {plan : TransactionPlan}
  {w₀ w₁ w u v : World σ} {hash sent : Hash} {raw : Bytes} {e : RpcError}

/-! ## One broadcast -/

theorem broadcast_done_iff {t : Transport σ} {d : Option Nat} :
    broadcast t hash raw d w = (.done sent, v) ↔
      t.sendRawTransaction raw d w = (.done sent, v) ∨
        sent = hash ∧ ∃ e, t.sendRawTransaction raw d w = (.failed e, v) ∧ e.SaysKnown := by
  simp only [broadcast, bind_done_iff, caught_done_iff, ← RpcError.isAlreadyKnown_iff]
  constructor
  · rintro ⟨r, u, ⟨a, rfl, hsent⟩ | ⟨e, rfl, hfail⟩, hend⟩
    · cases hend
      exact Or.inl hsent
    · dsimp only at hend
      split at hend
      · next he =>
        cases hend
        exact Or.inr ⟨rfl, e, hfail, he⟩
      · cases hend
  · rintro (hsent | ⟨rfl, e, hfail, he⟩)
    · exact ⟨_, _, Or.inl ⟨sent, rfl, hsent⟩, rfl⟩
    · refine ⟨_, _, Or.inr ⟨e, rfl, hfail⟩, ?_⟩
      simp only [he, if_true]
      rfl

theorem broadcast_of_failed {t : Transport σ} {d : Option Nat}
    (hfail : t.sendRawTransaction raw d w = (.failed e, v)) (he : ¬ e.SaysKnown) :
    broadcast t hash raw d w = (.failed e, v) := by
  rw [← RpcError.isAlreadyKnown_iff] at he
  refine bind_failed_iff.mpr (Or.inr ⟨.error e, v, caught_done_iff.mpr ?_, ?_⟩)
  · exact Or.inr ⟨e, rfl, hfail⟩
  · simp only [he, Bool.false_eq_true, if_false]
    rfl

/-- In the attempt that begins in `w` the node is handed the transaction, and
that comes to `o` in `v`. -/
def Hands (h : Handle σ) (raw : Bytes) (w : World σ) (o : Outcome RpcError Hash)
    (v : World σ) : Prop :=
  ∃ url u, h.Tries (h.transport.sendRawTransaction raw) w url u o v

/-- The attempt after `n` failed ones to hand over a transaction begins in `w`. -/
def HandsOver (h : Handle σ) (hash : Hash) (raw : Bytes) (w₁ : World σ) (n : Nat)
    (w : World σ) : Prop :=
  h.backoff.Begins RpcError.isPassing (h.attempt (broadcast h.transport hash raw)) w₁ n w

/-- The plan is built and signed from `w₀`, which leads to `w₁`. -/
def Signs (b : TransactionBuilder) (h : Handle σ) (plan : TransactionPlan) (w₀ : World σ)
    (hash : Hash) (raw : Bytes) (w₁ : World σ) : Prop :=
  ∃ prepared data, (b.build h plan).run w₀ = (.done prepared, w₁) ∧ plan.callData = .ok data ∧
    prepared.sign plan.contract data = .ok (hash, raw)

theorem attempt_broadcast_done_iff :
    (h.attempt (broadcast h.transport hash raw)).run w = (.done sent, v) ↔
      Hands h raw w (.done sent) v ∨
        sent = hash ∧ ∃ e, Hands h raw w (.failed e) v ∧ e.SaysKnown := by
  simp only [Handle.attempt_done_iff, Handle.Tries, broadcast_done_iff, Hands]
  constructor
  · rintro ⟨url, u, hurl, hsent | ⟨rfl, e, hfail, he⟩⟩
    · exact Or.inl ⟨url, u, hurl, hsent⟩
    · exact Or.inr ⟨rfl, e, ⟨url, u, hurl, hfail⟩, he⟩
  · rintro (⟨url, u, hurl, hsent⟩ | ⟨rfl, e, ⟨url, u, hurl, hfail⟩, he⟩)
    · exact ⟨url, u, hurl, Or.inl hsent⟩
    · exact ⟨url, u, hurl, Or.inr ⟨rfl, e, hfail, he⟩⟩

theorem attempt_of_hands (hash : Hash) (hh : Hands h raw w (.failed e) v) (he : ¬ e.SaysKnown) :
    (h.attempt (broadcast h.transport hash raw)).run w = (.failed e, v) := by
  obtain ⟨url, u, hurl, hfail⟩ := hh
  exact Handle.Tries.attempt ⟨hurl, broadcast_of_failed hfail he⟩ (by simp)

/-- An attempt that succeeds is the last. -/
theorem HandsOver.last {n : Nat} (hover : HandsOver h hash raw w₁ n w)
    (hdone : (h.attempt (broadcast h.transport hash raw)).run w = (.done sent, v)) (m : Nat)
    (u : World σ) (hm : HandsOver h hash raw w₁ m u) : m ≤ n := by
  by_contra hnm
  have hlast := hm.not_last (Nat.lt_of_not_le hnm) hover
  rw [hdone] at hlast
  exact hlast trivial

theorem submit_done_iff :
    (b.submit h plan).run w₀ = (.done sent, v) ↔
      ∃ hash raw w₁, b.Signs h plan w₀ hash raw w₁ ∧
        (h.retrying (broadcast h.transport hash raw)).run w₁ = (.done sent, v) := by
  simp only [submit, Workflow.run, bind_done_iff, ofExcept_done_iff, Signs]
  constructor
  · rintro ⟨prepared, w₁, hbuild, data, w₂, ⟨hdata, rfl⟩, ⟨hash, raw⟩, w₃, ⟨hsign, rfl⟩, hsent⟩
    have hcall : plan.callData = .ok data := by
      cases hc : plan.callData with
      | ok bytes => simpa [hc, Except.mapError] using hdata
      | error e => simp [hc, Except.mapError] at hdata
    exact ⟨hash, raw, w₃, ⟨prepared, data, hbuild, hcall, hsign⟩, withError_done_iff.mp hsent⟩
  · rintro ⟨hash, raw, w₁, ⟨prepared, data, hbuild, hdata, hsign⟩, hsent⟩
    exact ⟨prepared, w₁, hbuild, data, w₁, ⟨by rw [hdata]; rfl, rfl⟩, (hash, raw), w₁, ⟨hsign, rfl⟩,
      withError_done_iff.mpr hsent⟩

theorem submit_of_failed (hs : b.Signs h plan w₀ hash raw w₁)
    (hfail : (h.retrying (broadcast h.transport hash raw)).run w₁ = (.failed e, v)) :
    (b.submit h plan).run w₀ = (.failed (.rpc e), v) := by
  obtain ⟨prepared, data, hbuild, hdata, hsign⟩ := hs
  refine bind_failed_iff.mpr (Or.inr ⟨prepared, w₁, hbuild, ?_⟩)
  have hcall : plan.callData.mapError TransactionError.rpc = .ok data := by rw [hdata]; rfl
  refine bind_failed_iff.mpr (Or.inr ⟨data, w₁, ofExcept_done_iff.mpr ⟨hcall, rfl⟩, ?_⟩)
  refine bind_failed_iff.mpr (Or.inr ⟨(hash, raw), w₁, ofExcept_done_iff.mpr ⟨hsign, rfl⟩, ?_⟩)
  exact withError_of_failed hfail

/-! ## The law -/

/-- Submitting a plan succeeds exactly when it is signed and the last attempt
to hand it over gets a hash from the node, or a failure that mentions that the
transaction is known, and then the hash computed here counts. After every
other failure the policy makes the next attempt, or submitting fails with that
failure unchanged. -/
theorem sent_is_what_a_node_took_or_seems_to_know (b : TransactionBuilder) (h : Handle σ)
    (plan : TransactionPlan) (w₀ : World σ) :
    (∀ sent v, (b.submit h plan).run w₀ = (.done sent, v) ↔
      ∃ hash raw w₁ n w, b.Signs h plan w₀ hash raw w₁ ∧ HandsOver h hash raw w₁ n w ∧
        (∀ m u, HandsOver h hash raw w₁ m u → m ≤ n) ∧
        (Hands h raw w (.done sent) v ∨
          sent = hash ∧ ∃ e, Hands h raw w (.failed e) v ∧ e.SaysKnown)) ∧
    (∀ hash raw w₁ n w e v, b.Signs h plan w₀ hash raw w₁ → HandsOver h hash raw w₁ n w →
      Hands h raw w (.failed e) v → ¬ e.SaysKnown →
        if e.isPassing = true ∧ n + 1 < h.backoff.attempts.toNat then
          HandsOver h hash raw w₁ (n + 1) (v.rested (h.backoff.delay (UInt32.ofNat (n + 1))))
        else (b.submit h plan).run w₀ = (.failed (.rpc e), v)) := by
  refine ⟨fun sent v => ?_, fun hash raw w₁ n w e v hs hover hh he => ?_⟩
  · simp only [submit_done_iff, Handle.retrying, Backoff.run_eq_iff, attempt_broadcast_done_iff]
    constructor
    · rintro ⟨hash, raw, w₁, hs, n, w, hover, hh, -⟩
      exact ⟨hash, raw, w₁, n, w, hs, hover,
        HandsOver.last hover (attempt_broadcast_done_iff.mpr hh), hh⟩
    · rintro ⟨hash, raw, w₁, n, w, hs, hover, -, hh⟩
      exact ⟨hash, raw, w₁, hs, n, w, hover, hh, trivial⟩
  · have hrun := attempt_of_hands hash hh he
    split
    · next hmore => exact hover.next hrun hmore.1 hmore.2
    · next hno =>
      refine submit_of_failed hs (Backoff.run_eq_iff.mpr ⟨n, w, hover, hrun, ?_⟩)
      rwa [not_and_or, Bool.not_eq_true, Nat.not_lt] at hno

/-! ## A refused type of transaction -/

/-- The pattern stands in the text with no letter before it. -/
def StandsFree (pattern cs : List Char) : Prop :=
  ∃ i, i < cs.length ∧ pattern <+: cs.drop i ∧ (cs.take i).getLast?.all (!·.isAlpha) = true

instance (pattern cs : List Char) : Decidable (StandsFree pattern cs) :=
  inferInstanceAs (Decidable (∃ i, i < cs.length ∧ _))

/-- What a node says of a transaction whose type it does not know. -/
def unknownType : RpcError := .node (-32000) "unknown transaction type"

/-- A transport to a node that answers every call with zero, and refuses
every transaction for its type. -/
def refusing : Transport Unit :=
  .ofSend "http://a"
    (fun request _ s =>
      if (request.get? "method").bind Json.asStr? = some "eth_sendRawTransaction" then
        ⟨some (.ok (.obj [("error", .obj [("code", .num (.neg (-32000))),
          ("message", .str "unknown transaction type")])])), 0, s⟩
      else ⟨some (.ok (.obj [("result", .str "0x0")])), 0, s⟩)
    (fun _ _ s => ⟨some (.ok []), 0, s⟩)

/-- One attempt of a second at each call. -/
def refused : Handle Unit := ⟨refusing, 1000, ⟨1, 0, 0⟩⟩

/-- A builder that has a key for every account. -/
def keyed : TransactionBuilder := ⟨fun _ _ _ => .ok default, none⟩

/-- A transfer of nothing. -/
def emptyTransfer : TransactionPlan :=
  ⟨⟨0⟩, "", "", ⟨0⟩, ⟨[]⟩, "", [], 1, .default, none⟩

/-- The transfer as it is signed. -/
def emptyTransaction : PreparedTransaction :=
  ⟨(default : Secp256k1.PrivateKey).address, 0, 0, 21000, 0, 1, default⟩

theorem draws_emptyTransaction : Secp256k1.Draws emptyTransaction.key
    0x6ee1725154f6447e12ca7060b8b79baaf7561ba58f0f921e18925d3bdbd5bc32
    0x1b82770174a2f674e5b812a8801d5320109a5a2f2cc97beaff122ca96578439b
    0x44936f68e2f50e30c582b7c9c847820c754ae22ae529ab0ca01781f8e9c03ee8
    0xd0d68175b13bd732f98fc6081fb2b9d7b06dd230e486a788b01ceea20898128d
    0xa2403407badfa9d1e299343d98423f55e6bb15044c50ca256dc037464b43dd14
    0x4b2f423348c8a4cac4bb2c5fe415f723587e35ec6321208a2f2fbcd9835981e where
  firstKey := by decide +kernel
  firstValue := by decide +kernel
  secondKey := by decide +kernel
  secondValue := by decide +kernel
  drawn := by decide +kernel
  pos := by decide
  lt_order := by decide
  serves := by decide +kernel

theorem exists_signature :
    ∃ hash raw, emptyTransaction.sign emptyTransfer.contract [] = .ok (hash, raw) :=
  PreparedTransaction.exists_sign draws_emptyTransaction (by decide +kernel)

theorem exists_refusal (raw : Bytes) (w : World Unit) :
    ∃ v, Hands refused raw w (.failed unknownType) v :=
  ⟨_, "http://a", _, rfl, rfl⟩

/-- A transaction that the node refuses as of an unknown type counts as sent. -/
theorem an_unknown_type_counts_as_sent :
    ∃ sent v hash raw w₁ n w,
      (keyed.submit refused emptyTransfer).run (World.start ()) = (.done sent, v) ∧
      keyed.Signs refused emptyTransfer (World.start ()) hash raw w₁ ∧
      HandsOver refused hash raw w₁ n w ∧ (∀ m u, HandsOver refused hash raw w₁ m u → m ≤ n) ∧
      Hands refused raw w (.failed unknownType) v ∧
      ∀ words ∈ RpcError.knownWords,
        ¬ StandsFree words.toList (Text.lower unknownType.message.toList) := by
  obtain ⟨hash, raw, hsign⟩ := exists_signature
  obtain ⟨w₁, hsigns⟩ : ∃ w₁, keyed.Signs refused emptyTransfer (World.start ()) hash raw w₁ :=
    ⟨_, emptyTransaction, [], rfl, rfl, hsign⟩
  obtain ⟨v, hhands⟩ := exists_refusal raw w₁
  have hknown : unknownType.SaysKnown := RpcError.isAlreadyKnown_iff.mp (by decide +kernel)
  have hdone : (refused.attempt (broadcast refused.transport hash raw)).run w₁ = (.done hash, v) :=
    attempt_broadcast_done_iff.mpr (Or.inr ⟨rfl, unknownType, hhands, hknown⟩)
  have hover : HandsOver refused hash raw w₁ 0 w₁ := .first
  have hrun := Backoff.run_eq_iff.mpr ⟨0, w₁, hover, hdone, trivial⟩
  have hsent := submit_done_iff.mpr ⟨hash, raw, w₁, hsigns, hrun⟩
  exact ⟨hash, v, hash, raw, w₁, 0, w₁, hsent, hsigns, hover, hover.last hdone, hhands,
    by decide +kernel⟩

end TransactionBuilder

end ChainAccess
