import ChainAccess.Proofs.Contract.Answers
import ChainAccess.Proofs.Workflow.Outcomes
import Mathlib.Data.List.Basic
import Mathlib.Tactic.Common
-- The calls of a batch and the responses to it belong together by their
-- numbers. A response with a number of no call fails the whole batch; otherwise
-- every call comes back in its place, with an error just when a response to it
-- is one or there is none. While no two responses are to one call, their order
-- makes no difference.

namespace ChainAccess.Batch

open Rpc (BatchElement)

/-! ## Responses -/

/-- The response carries the number as its id. -/
def Carries (response : Json) (i : Nat) : Prop :=
  ∃ n : UInt64, response.get? "id" = some (.num (.nat n)) ∧ n.toNat = i

/-- The response has an error, and that is not `null`. -/
def Refuses (response : Json) : Prop := ∃ e, response.get? "error" = some e ∧ e ≠ .null

theorem carries_iff {response : Json} {i : Nat} :
    Carries response i ↔ idOf? response = some i := by
  unfold Carries idOf?
  cases response.get? "id" with
  | none => simp
  | some v =>
    cases v with
    | num n => cases n <;> simp [Json.asUInt64?, Number.toUInt64?]
    | _ => simp [Json.asUInt64?]

theorem refuses_iff {response : Json} : Refuses response ↔ Rpc.errorMember? response ≠ none := by
  unfold Refuses Rpc.errorMember?
  cases response.get? "error" with
  | none => simp
  | some e => cases e <;> simp [Json.isNull]

/-! ## Calls -/

theorem fill_frame (call : BatchElement) (response : Json) :
    (Transport.fill call response).method = call.method ∧
      (Transport.fill call response).args = call.args := by
  unfold Transport.fill
  split
  · exact ⟨rfl, rfl⟩
  · exact ⟨rfl, rfl⟩

theorem fillSlot_frame (slot : BatchElement × Bool) (responses : List Json) :
    (fillSlot slot responses).1.method = slot.1.method ∧
      (fillSlot slot responses).1.args = slot.1.args := by
  induction responses generalizing slot with
  | nil => exact ⟨rfl, rfl⟩
  | cons response rest ih =>
    obtain ⟨hmethod, hargs⟩ := ih (Transport.fill slot.1 response, true)
    obtain ⟨hmethod', hargs'⟩ := fill_frame slot.1 response
    exact ⟨hmethod.trans hmethod', hargs.trans hargs'⟩

theorem settle_frame (slot : BatchElement × Bool) :
    (Transport.settle slot).method = slot.1.method ∧
      (Transport.settle slot).args = slot.1.args := by
  rcases slot with ⟨call, _ | _⟩
  · exact ⟨rfl, rfl⟩
  · exact ⟨rfl, rfl⟩

/-- What was asked stays what was asked. -/
theorem settledCall_frame (responses : List Json) (call : BatchElement) :
    (settledCall responses call).method = call.method ∧
      (settledCall responses call).args = call.args := by
  obtain ⟨hmethod, hargs⟩ := settle_frame (fillSlot (call, false) responses)
  obtain ⟨hmethod', hargs'⟩ := fillSlot_frame (call, false) responses
  exact ⟨hmethod.trans hmethod', hargs.trans hargs'⟩

theorem settledCall_refused_iff (responses : List Json) (i : Nat) {call : BatchElement}
    (hempty : call.error = none) :
    (settledCall (answersTo i responses) call).error ≠ none ↔
      (∃ r ∈ responses, Carries r i ∧ Refuses r) ∨ ∀ r ∈ responses, ¬ Carries r i := by
  rw [ne_eq, settledCall_error_iff hempty, not_and_or, not_not, or_comm]
  refine or_congr ?_ ?_
  · simp only [not_forall, mem_answersTo, ← carries_iff, exists_prop, refuses_iff, and_assoc,
      ne_eq]
  · simp [answersTo, carries_iff]

/-! ## The whole batch -/

/-- What the responses make of the calls of a batch. -/
def matched (calls : List BatchElement) (responses : List Json) :
    Except RpcError (List BatchElement) :=
  (Transport.fillAll (calls.map (·, false)) responses).map (·.map Transport.settle)

theorem matched_of_known {calls : List BatchElement} {responses : List Json}
    (h : ∀ r ∈ responses, ∃ i < calls.length, Carries r i) :
    matched calls responses =
      .ok (calls.mapIdx fun i call => settledCall (answersTo i responses) call) := by
  have hfill : Transport.fillAll (calls.map (·, false)) responses = .ok _ :=
    fillAll_ok_iff.mpr ⟨by simpa [carries_iff] using h, rfl⟩
  rw [matched, hfill, ← settle_slots]
  rfl

theorem fillAll_error {slots : List (BatchElement × Bool)} {responses : List Json} {e : RpcError}
    (h : Transport.fillAll slots responses = .error e) :
    e = .request "Batch response with unknown id" := by
  induction responses generalizing slots with
  | nil => cases h
  | cons response rest ih =>
    unfold Transport.fillAll at h
    split at h
    · cases h
      rfl
    · exact ih h

theorem matched_of_unknown {calls : List BatchElement} {responses : List Json}
    (h : ∃ r ∈ responses, ∀ i < calls.length, ¬ Carries r i) :
    matched calls responses = .error (.request "Batch response with unknown id") := by
  unfold matched
  cases hfill : Transport.fillAll (calls.map (·, false)) responses with
  | error e =>
    rw [fillAll_error hfill]
    rfl
  | ok slots =>
    obtain ⟨r, hr, hnone⟩ := h
    obtain ⟨i, hi, hid⟩ := (fillAll_ok_iff.mp hfill).1 r hr
    exact absurd (carries_iff.mpr hid) (hnone i (by simpa using hi))

/-- A batch ends as the responses that came back match its calls. -/
theorem sendBatchElements_of_responses {σ : Type} {t : Transport σ} {calls : List BatchElement}
    {d : Option Nat} {w v : World σ} {responses : List Json}
    (h : t.sendRequests (Transport.batchRequests calls) d w = (.done responses, v)) :
    t.sendBatchElements calls d w = Workflow.ofExcept (matched calls responses) d v := by
  rw [Transport.sendBatchElements, Workflow.bind_of_done h, matched]
  cases Transport.fillAll (calls.map (·, false)) responses <;> rfl

/-! ## The order of the responses -/

/-- No two responses carry the same number. -/
def Unmixed (responses : List Json) : Prop :=
  responses.Pairwise fun r s => ∀ i, Carries r i → ¬ Carries s i

theorem Unmixed.perm {responses others : List Json} (h : Unmixed responses)
    (hperm : responses.Perm others) : Unmixed others :=
  (hperm.pairwise_iff fun hne i hs hr => hne i hr hs).mp h

theorem Unmixed.answersTo_alone {responses : List Json} (h : Unmixed responses) (i : Nat) :
    (answersTo i responses).Pairwise fun _ _ => False := by
  refine (h.filter _).imp_of_mem fun {r s} hr hs hne => ?_
  have hr' := carries_iff.mpr (mem_answersTo.mp hr).2
  have hs' := carries_iff.mpr (mem_answersTo.mp hs).2
  exact hne i hr' hs'

/-- While no two responses are to one call, a call has the same one in any order. -/
theorem answersTo_of_perm {responses others : List Json} (hunmixed : Unmixed responses)
    (hperm : responses.Perm others) (i : Nat) : answersTo i responses = answersTo i others :=
  List.Perm.eq_of_pairwise (fun _ _ _ _ h _ => h.elim) (hunmixed.answersTo_alone i)
    ((hunmixed.perm hperm).answersTo_alone i) (hperm.filter _)

theorem matched_of_perm {calls : List BatchElement} {responses others : List Json}
    (hunmixed : Unmixed responses) (hperm : responses.Perm others) :
    matched calls responses = matched calls others := by
  by_cases h : ∀ r ∈ responses, ∃ i < calls.length, Carries r i
  · have h' : ∀ r ∈ others, ∃ i < calls.length, Carries r i :=
      fun r hr => h r (hperm.mem_iff.mpr hr)
    rw [matched_of_known h, matched_of_known h']
    simp only [answersTo_of_perm hunmixed hperm]
  · push Not at h
    obtain ⟨r, hr, hnone⟩ := h
    rw [matched_of_unknown ⟨r, hr, hnone⟩, matched_of_unknown ⟨r, hperm.mem_iff.mp hr, hnone⟩]

/-! ## The law -/

/-- A batch of calls without results and errors, when the responses `responses` come back.
It fails just when one of them carries no number of a call. Otherwise all the calls come
back in their places, asking what they asked, each with an error just when a response to it
has one or there is no response to it. And when no two responses carry the same number,
they have the same outcome in every other order, over whatever transport. -/
theorem calls_and_responses_are_matched_by_number {σ : Type} {t : Transport σ}
    {calls : List BatchElement} (hempty : ∀ call ∈ calls, call.result = none ∧ call.error = none)
    {d : Option Nat} {w v : World σ} {responses : List Json}
    (hsent : t.sendRequests (Transport.batchRequests calls) d w = (.done responses, v)) :
    ((∃ e, t.sendBatchElements calls d w = (.failed e, v)) ↔
      ∃ r ∈ responses, ∀ i < calls.length, ¬ Carries r i) ∧
    ((∃ r ∈ responses, ∀ i < calls.length, ¬ Carries r i) →
      t.sendBatchElements calls d w =
        (.failed (.request "Batch response with unknown id"), v)) ∧
    ((∀ r ∈ responses, ∃ i < calls.length, Carries r i) →
      ∃ back, t.sendBatchElements calls d w = (.done back, v) ∧ back.length = calls.length ∧
        ∀ i (hi : i < calls.length) (hi' : i < back.length),
          back[i].method = calls[i].method ∧ back[i].args = calls[i].args ∧
          (back[i].error ≠ none ↔
            (∃ r ∈ responses, Carries r i ∧ Refuses r) ∨ ∀ r ∈ responses, ¬ Carries r i)) ∧
    (Unmixed responses → ∀ (others : List Json) (u : Transport σ) (d' : Option Nat)
      (w' v' : World σ), responses.Perm others →
      u.sendRequests (Transport.batchRequests calls) d' w' = (.done others, v') →
      (u.sendBatchElements calls d' w').1 = (t.sendBatchElements calls d w).1) := by
  have hends := sendBatchElements_of_responses hsent
  have hdone (h : ∀ r ∈ responses, ∃ i < calls.length, Carries r i) :
      t.sendBatchElements calls d w =
        (.done (calls.mapIdx fun i call => settledCall (answersTo i responses) call), v) := by
    rw [hends, matched_of_known h]
    rfl
  have hfailed (h : ∃ r ∈ responses, ∀ i < calls.length, ¬ Carries r i) :
      t.sendBatchElements calls d w =
        (.failed (.request "Batch response with unknown id"), v) := by
    rw [hends, matched_of_unknown h]
    rfl
  refine ⟨⟨?_, fun h => ⟨_, hfailed h⟩⟩, hfailed, fun h => ⟨_, hdone h, by simp, ?_⟩, ?_⟩
  · rintro ⟨e, he⟩
    by_contra hall
    push Not at hall
    rw [hdone hall] at he
    cases he
  · intro i hi hi'
    obtain ⟨hmethod, hargs⟩ := settledCall_frame (answersTo i responses) calls[i]
    have herror := settledCall_refused_iff responses i (hempty _ (List.getElem_mem hi)).2
    simp only [List.getElem_mapIdx]
    exact ⟨hmethod, hargs, herror⟩
  · intro hunmixed others u d' w' v' hperm hsent'
    rw [hends, sendBatchElements_of_responses hsent', matched_of_perm hunmixed hperm]
    cases matched calls others <;> rfl

/-- Two calls without results. -/
def twoCalls : List BatchElement :=
  [⟨"eth_call", [], none, none⟩, ⟨"eth_call", [.null], none, none⟩]

/-- An error in answer to the second call. -/
def reverted : Json := .obj [("id", .ofUInt64 1), ("error", .obj [("code", .ofUInt64 3)])]

/-- A result in answer to the first call. -/
def returned : Json := .obj [("id", .ofUInt64 0), ("result", .str "0x")]

/-- A node that gives both answers to whatever it is sent, the later one first. -/
def crossing : Transport Unit :=
  .ofSend "http://node" (fun _ _ s => ⟨none, 0, s⟩) fun _ _ s =>
    ⟨some (.ok [reverted, returned]), 0, s⟩

/-- The second call has the error, and the first has none. -/
theorem a_crossed_error_is_that_of_the_second_call :
    ∃ v first second,
      crossing.sendBatchElements twoCalls none (.start ()) = (.done [first, second], v) ∧
      first.error = none ∧ second.error ≠ none := by
  have hempty : ∀ call ∈ twoCalls, call.result = none ∧ call.error = none := by
    simp [twoCalls]
  have hsent : crossing.sendRequests (Transport.batchRequests twoCalls) none (.start ()) =
      (.done [reverted, returned], _) := rfl
  obtain ⟨-, -, hback, -⟩ := calls_and_responses_are_matched_by_number hempty hsent
  have hfirst : Carries returned 0 := ⟨0, rfl, rfl⟩
  have hsecond : Carries reverted 1 := ⟨1, rfl, rfl⟩
  obtain ⟨back, hdone, hlength, hcalls⟩ := hback (by
    simp only [List.forall_mem_cons, List.not_mem_nil, false_implies, implies_true, and_true]
    exact ⟨⟨1, by decide, hsecond⟩, ⟨0, by decide, hfirst⟩⟩)
  obtain ⟨first, second, rfl⟩ := List.length_eq_two.mp hlength
  have hone := (hcalls 0 (by decide) (by simp)).2.2
  have htwo := (hcalls 1 (by decide) (by simp)).2.2
  refine ⟨_, first, second, hdone, ?_, htwo.mpr (Or.inl ⟨reverted, by simp, hsecond, _, rfl, ?_⟩)⟩
  · by_contra hne
    rcases hone.mp hne with ⟨r, hr, hcarries, e, he, -⟩ | hnone
    · rcases List.mem_pair.mp hr with rfl | rfl
      · obtain ⟨n, hn, hzero⟩ := hcarries
        cases hn
        cases hzero
      · cases he
    · exact hnone returned (by simp) hfirst
  · simp

end ChainAccess.Batch
