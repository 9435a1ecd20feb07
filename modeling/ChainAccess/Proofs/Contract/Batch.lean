import ChainAccess.Proofs.Contract.Answers
import ChainAccess.Proofs.Contract.Payloads
import ChainAccess.Proofs.Handle.Transcripts
-- What a batch asks for and when it has results. Every attempt that sends
-- anything sends the whole batch, and the batch has results just when the
-- answers that came last are complete and decode; otherwise it has none.

namespace ChainAccess.Batch

open Workflow
open Rpc (BatchElement)

variable {σ : Type} {h : Handle σ} {i : Abi.Interface} {contract : Address} {method : String}
  {argLists : List (List Abi.Value)} {f : Abi.Function} {calls : List BatchElement}

/-! ## One batch -/

/-- The exchange is about this batch. -/
def IsBatch (requests : List Json) (x : Exchange) : Prop := ∃ reply, x = .batch requests reply

/-- What the answers to a batch make of its elements. -/
def settledIn? (calls : List BatchElement) : Exchange → Option (List BatchElement)
  | .batch _ (some (.ok answers)) => settled? calls answers
  | _ => none

theorem accounts_sendOnce (t : Transport σ) (calls : List BatchElement) :
    Accounts (sendOnce t.transcribed calls) (sendOnce t calls)
      (Asks (IsBatch (Transport.batchRequests calls)) (settledIn? calls) 1) := by
  have hone : ∀ (reply : Option (Except RpcError (List Json)))
      (o : Outcome RpcError (List BatchElement)),
      (∀ cs, o = .done cs ↔
        settledIn? calls (.batch (Transport.batchRequests calls) reply) = some cs) →
      Asks (IsBatch (Transport.batchRequests calls)) (settledIn? calls) 1
        [.batch (Transport.batchRequests calls) reply] o :=
    fun reply o ho => asks_single ⟨reply, rfl⟩ ho
  unfold sendOnce Transport.sendBatchElements
  simp only [bind_bind, value_bind]
  refine (t.accounts_sendRequests _).bind (fun es answers hes => ?_) (fun es e hes => ?_)
    (fun es hes => ?_) <;> subst hes
  · refine accounts_ofExcept_bind (fun slots hfill => ?_) fun e hfill => ?_
    · -- the answers fit the calls; an element may have failed all the same
      cases herror : firstError? (slots.map Transport.settle) with
      | some failure =>
        exact accounts_fail (hone _ _ fun cs => by
          simp [settledIn?, settled?, Outcome.answer?, hfill, herror])
      | none =>
        exact accounts_value (hone _ _ fun cs => by
          simp [settledIn?, settled?, Outcome.answer?, hfill, herror])
    · exact hone _ _ fun cs => by simp [settledIn?, settled?, Outcome.answer?, hfill]
  · exact hone _ _ fun cs => by simp [settledIn?, Outcome.answer?]
  · exact hone _ _ fun cs => by simp [settledIn?, Outcome.answer?]

/-! ## The calls of a batch -/

/-- One request for each argument list, numbered from zero: a call of the
function that the first list picks. -/
structure IsBatchOf (i : Abi.Interface) (contract : Address) (method : String)
    (argLists : List (List Abi.Value)) (requests : List Json) : Prop where
  length : requests.length = argLists.length
  calls : ∀ k (hk : k < argLists.length), ∃ f data, resolve i method argLists = .ok f ∧
    f.callData argLists[k] = .ok data ∧
    requests[k]? = some ((BatchElement.ethCall contract data).request k)
  ids : ∀ k (hk : k < requests.length),
    requests[k].get? "id" = some (.ofUInt64 (UInt64.ofNat k))

theorem elements_ok_iff :
    elements f contract argLists = .ok calls ↔ argLists.length = calls.length ∧
      ∀ k (hk : k < argLists.length) (hc : k < calls.length), ∃ data,
        f.callData argLists[k] = .ok data ∧ calls[k] = BatchElement.ethCall contract data := by
  have hmap : ∀ (r : Except RpcError Bytes) (call : BatchElement),
      r.map (BatchElement.ethCall contract) = .ok call ↔
        ∃ data, r = .ok data ∧ call = BatchElement.ethCall contract data := by
    intro r call
    cases r <;> simp [Except.map, eq_comm]
  simp only [elements, mapM_ok_iff, List.forall₂_iff_get, List.get_eq_getElem, hmap]

theorem exists_elements {f : Abi.Function} (contract : Address)
    {argLists : List (List Abi.Value)}
    (hdata : ∀ args ∈ argLists, ∃ data, f.callData args = .ok data) :
    ∃ calls, elements f contract argLists = .ok calls := by
  induction argLists with
  | nil => exact ⟨[], rfl⟩
  | cons args rest ih =>
    obtain ⟨data, hok⟩ := hdata args List.mem_cons_self
    obtain ⟨calls, hcalls⟩ := ih fun args hargs => hdata args (List.mem_cons_of_mem _ hargs)
    unfold elements at hcalls ⊢
    exact ⟨BatchElement.ethCall contract data :: calls, by
      rw [List.mapM_cons, hok, hcalls]
      rfl⟩

theorem error_of_elements (hcalls : elements f contract argLists = .ok calls) :
    ∀ call ∈ calls, call.error = none := by
  obtain ⟨hlength, hdata⟩ := elements_ok_iff.mp hcalls
  intro call hcall
  obtain ⟨k, hk, rfl⟩ := List.getElem_of_mem hcall
  obtain ⟨data, -, hcall⟩ := hdata k (by omega) hk
  rw [hcall]
  rfl

theorem isBatchOf_of_elements (hf : resolve i method argLists = .ok f)
    (hcalls : elements f contract argLists = .ok calls) :
    IsBatchOf i contract method argLists (Transport.batchRequests calls) := by
  obtain ⟨hlength, hdata⟩ := elements_ok_iff.mp hcalls
  refine ⟨by simp [Transport.batchRequests, hlength], fun k hk => ?_, fun k hk => ?_⟩
  · obtain ⟨data, hdata, hcall⟩ := hdata k hk (by omega)
    have hget : calls[k]? = some (BatchElement.ethCall contract data) := by
      rw [List.getElem?_eq_getElem (by omega), hcall]
    exact ⟨f, data, hf, hdata, by simp [Transport.batchRequests, hget]⟩
  · simp only [Transport.batchRequests, List.getElem_map, List.getElem_zipIdx, Nat.zero_add]
    rfl

/-! ## The law -/

/-- Whatever is sent is the same batch, and there are results just when the last
answers are complete and decode. -/
structure IsWhole (i : Abi.Interface) (contract : Address) (method : String)
    (argLists : List (List Abi.Value)) (attempts : Nat) (es : List Exchange)
    (o : Outcome RpcError (List (List Abi.Value))) : Prop where
  same : ∃ requests, (es ≠ [] → IsBatchOf i contract method argLists requests) ∧
    ∀ x ∈ es, IsBatch requests x
  bounded : es.length ≤ attempts
  done_iff : ∀ rs, o = .done rs ↔ ∃ f requests answers, resolve i method argLists = .ok f ∧
    es.getLast? = some (.batch requests (some (.ok answers))) ∧
    Decodes f argLists.length answers rs

theorem call_of_elements (hf : resolve i method argLists = .ok f)
    (hcalls : elements f contract argLists = .ok calls) (h : Handle σ) :
    call h i contract method argLists = perform h calls >>= fun calls =>
      ofExcept (results f calls) := by
  rw [call, ofExcept_bind_of_ok hf, ofExcept_bind_of_ok hcalls]

/-- What is made of the elements in the end asks for nothing. -/
theorem transcript_bind_results (m : Workflow (Transcribed σ) RpcError (List BatchElement))
    (f : Abi.Function) (w : World σ) :
    (m >>= fun calls => ofExcept (results f calls)).transcript w = m.transcript w := by
  unfold transcript Workflow.run
  simp only [Bind.bind, andThen]
  rcases m none (w.transcribed []) with ⟨calls | e | _, v⟩
  case failed | expired => rfl
  case done =>
    dsimp only
    cases results f calls <;> rfl

/-- A batch that is not sent has no results. -/
theorem isWhole_nil (n : Nat) {o : Outcome RpcError (List (List Abi.Value))}
    (ho : ∀ rs, o ≠ .done rs) : IsWhole i contract method argLists n [] o :=
  ⟨⟨[], by simp⟩, by simp, by simpa using ho⟩

/-- The law for a batch that is sent, told of what its elements settle to. -/
theorem isWhole_of_settled {n : Nat} {es : List Exchange}
    {o : Outcome RpcError (List (List Abi.Value))} (hf : resolve i method argLists = .ok f)
    (hcalls : elements f contract argLists = .ok calls)
    (hmost : AtMost (IsBatch (Transport.batchRequests calls)) n es o)
    (ho : ∀ rs, o = .done rs ↔ ∃ settled, es.getLast?.bind (settledIn? calls) = some settled ∧
      results f settled = .ok rs) :
    IsWhole i contract method argLists n es o := by
  have hfresh := error_of_elements hcalls
  have hlength := (elements_ok_iff.mp hcalls).1
  refine ⟨⟨_, fun _ => isBatchOf_of_elements hf hcalls, hmost.2⟩, hmost.1, fun rs => ?_⟩
  rw [ho, hlength]
  constructor
  · rintro ⟨settled, hlast, hresults⟩
    obtain ⟨x, hx, hsettled⟩ := Option.bind_eq_some_iff.mp hlast
    obtain ⟨reply, rfl⟩ := hmost.2 x (List.mem_of_getLast? hx)
    rcases reply with _ | e | answers
    · cases hsettled
    · cases hsettled
    · exact ⟨f, _, answers, hf, hx, (results_settled_iff hfresh).mp ⟨settled, hsettled, hresults⟩⟩
  · rintro ⟨g, requests, answers, hg, hx, hdecodes⟩
    cases hf.symm.trans hg
    obtain ⟨settled, hsettled, hresults⟩ := (results_settled_iff hfresh).mpr hdecodes
    exact ⟨settled, by rw [hx]; exact hsettled, hresults⟩

theorem accounts_perform (h : Handle σ) (hne : calls ≠ []) :
    Accounts (perform h.transcribed calls) (perform h calls)
      (Asks (IsBatch (Transport.batchRequests calls)) (settledIn? calls)
        (max 1 h.backoff.attempts.toNat)) := by
  have hsent : calls.isEmpty = false := by simpa using hne
  simp only [perform, hsent]
  exact Handle.accounts_retrying (accounts_sendOnce h.transport calls) repeatable_asks

theorem accounts_results (h : Handle σ) (hf : resolve i method argLists = .ok f)
    (hcalls : elements f contract argLists = .ok calls) (hne : calls ≠ []) :
    Accounts (perform h.transcribed calls >>= fun calls => ofExcept (results f calls))
      (perform h calls >>= fun calls => ofExcept (results f calls))
      (IsWhole i contract method argLists (max 1 h.backoff.attempts.toNat)) := by
  refine (accounts_perform h hne).bind (fun es settled hes => ?_) (fun es e hes => ?_)
    (fun es hes => ?_)
  · have hlast := (hes.done_iff settled).mp rfl
    cases hresults : results f settled with
    | error e =>
      refine accounts_fail ?_
      rw [List.append_nil]
      exact isWhole_of_settled hf hcalls hes.atMost fun rs => by simp [hlast, hresults]
    | ok rs =>
      refine accounts_value ?_
      rw [List.append_nil]
      exact isWhole_of_settled hf hcalls hes.atMost fun rs' => by simp [hlast, hresults]
  · have hno := fun settled => (hes.done_iff settled).not.mp (by simp)
    exact isWhole_of_settled hf hcalls hes.atMost fun rs => by simp [hno]
  · have hno := fun settled => (hes.done_iff settled).not.mp (by simp)
    exact isWhole_of_settled hf hcalls hes.atMost fun rs => by simp [hno]

theorem accounts_call (h : Handle σ) (i : Abi.Interface) (contract : Address) (method : String)
    (hne : argLists ≠ []) :
    Accounts (call h.transcribed i contract method argLists) (call h i contract method argLists)
      (IsWhole i contract method argLists (max 1 h.backoff.attempts.toNat)) := by
  cases hf : resolve i method argLists with
  | error e =>
    rw [call, call, ofExcept_bind_of_error hf, ofExcept_bind_of_error hf]
    exact accounts_fail (isWhole_nil _ (by simp))
  | ok f =>
    cases hcalls : elements f contract argLists with
    | error e =>
      rw [call, call, ofExcept_bind_of_ok hf, ofExcept_bind_of_ok hf, ofExcept_bind_of_error hcalls,
        ofExcept_bind_of_error hcalls]
      exact accounts_fail (isWhole_nil _ (by simp))
    | ok calls =>
      have hcalls' : calls ≠ [] := by
        rintro rfl
        exact hne (List.length_eq_zero_iff.mp (elements_ok_iff.mp hcalls).1)
      rw [call_of_elements hf hcalls, call_of_elements hf hcalls]
      exact accounts_results h hf hcalls hcalls'

theorem call_nil (h : Handle σ) :
    call h i contract method [] =
      if ∃ f ∈ i.functions, f.name = method then value [] else fail (.methodNotFound method) := by
  rw [call]
  cases hover : i.overloads method with
  | nil =>
    have hf : resolve i method [] = .error (.methodNotFound method) := by
      simp [resolve, Abi.Interface.find, hover]
    have hno : ¬ ∃ f ∈ i.functions, f.name = method := by
      rintro ⟨f, hmem, hname⟩
      have hmem' : f ∈ i.overloads method := List.mem_filter.mpr ⟨hmem, by simpa using hname⟩
      rw [hover] at hmem'
      cases hmem'
    rw [ofExcept_bind_of_error hf, if_neg hno]
  | cons first rest =>
    have hf : resolve i method [] = .ok first := by simp [resolve, Abi.Interface.find, hover]
    have hfirst : first ∈ i.overloads method := by simp [hover]
    obtain ⟨hmem, hname⟩ := List.mem_filter.mp hfirst
    rw [ofExcept_bind_of_ok hf, if_pos ⟨first, hmem, by simpa using hname⟩]
    rfl

/-- A batch either has all its results, decoded from the last answers to a batch
that was answered in full and without an error, or it has none. A batch without
argument lists asks for nothing. -/
theorem a_batch_is_answered_whole (h : Handle σ) (i : Abi.Interface) (contract : Address)
    (method : String) (argLists : List (List Abi.Value)) (w₀ : World σ) :
    (argLists ≠ [] → IsWhole i contract method argLists (max 1 h.backoff.attempts.toNat)
      ((call h.transcribed i contract method argLists).transcript w₀)
      ((call h i contract method argLists).run w₀).1) ∧
    (argLists = [] → (call h.transcribed i contract method argLists).transcript w₀ = [] ∧
      (call h i contract method argLists).run w₀ =
        (if ∃ f ∈ i.functions, f.name = method then .done [] else .failed (.methodNotFound method),
          w₀)) := by
  refine ⟨fun hne => ?_, ?_⟩
  · obtain ⟨es, hes, hwhole⟩ := accounts_call h i contract method hne none w₀
    rw [hes.transcript]
    exact hwhole
  · rintro rfl
    rw [call_nil, call_nil]
    split
    · exact ⟨rfl, rfl⟩
    · exact ⟨rfl, rfl⟩

/-- A function from numbers to numbers. -/
def countFunction : Abi.Function := ⟨"count", [.mk "" "uint256" []], [.mk "" "uint256" []]⟩

theorem selector_count : countFunction.selector = [59, 53, 70, 200] := by decide +kernel

theorem callData_count (n : Word) : countFunction.callData [.uint n 256] =
    .ok ([59, 53, 70, 200] ++ Abi.encode [.uint n 256]) := by
  have hkind : (Abi.Param.mk "" "uint256" []).kind = .ok (.uint 256) := by rfl
  have hkinds : Abi.Function.checkKinds countFunction.inputs [.uint n 256] = .ok () := by
    simp only [countFunction, Abi.Function.checkKinds, hkind]
    rfl
  unfold Abi.Function.callData Abi.Function.encodeCall
  rw [hkinds, selector_count]
  rfl

/-- The answer to the call with an id: a number. -/
def answerTo (id : UInt64) (n : Nat) : Json :=
  .obj [("id", .ofUInt64 id), ("result", .str (Hex.encode (Bytes.ofNat 32 n)))]

/-- The second call is answered before the first, and once more behind it. -/
def overtaking : List Json := [answerTo 1 7, answerTo 0 1, answerTo 1 2]

/-- A node that gives these answers to whatever it is sent, and one attempt at it. -/
def overtaken : Handle Unit where
  transport := .ofSend "http://a" (fun _ _ s => ⟨none, 0, s⟩)
    fun _ _ s => ⟨some (.ok overtaking), 5, s⟩
  timeout := 1000
  backoff := ⟨1, 0, 0⟩

theorem gives_answerTo (id : UInt64) {n : Nat} {values : List Abi.Value}
    (hvalues : countFunction.returned (Bytes.ofNat 32 n) = .ok values) :
    Gives countFunction (answerTo id n) values := by
  have hne : Bytes.ofNat 32 n ≠ [] := List.append_ne_nil_of_right_ne_nil _ (by simp)
  exact ⟨_, _, rfl, Hex.payloadBytes_encode hne, hne, hvalues⟩

theorem decodes_overtaking :
    Decodes countFunction 2 overtaking [[.uint 1 256], [.uint 2 256]] where
  complete := by
    refine ⟨?_, ?_, ?_⟩
    · simp only [overtaking, List.forall_mem_cons]
      exact ⟨⟨1, by decide, rfl⟩, ⟨0, by decide, rfl⟩, ⟨1, by decide, rfl⟩, by simp⟩
    · intro i hi
      rcases i with _ | _ | i
      · exact ⟨answerTo 0 1, by simp [overtaking], rfl⟩
      · exact ⟨answerTo 1 2, by simp [overtaking], rfl⟩
      · omega
    · simp only [overtaking, List.forall_mem_cons]
      exact ⟨rfl, rfl, rfl, by simp⟩
  length := rfl
  values i hi := by
    have hfirst : Gives countFunction (answerTo 0 1) [.uint 1 256] := gives_answerTo 0 (by rfl)
    have hsecond : Gives countFunction (answerTo 1 2) [.uint 2 256] := gives_answerTo 1 (by rfl)
    rcases i with _ | _ | i
    · exact ⟨answerTo 0 1, by rfl, hfirst⟩
    · exact ⟨answerTo 1 2, by rfl, hsecond⟩
    · simp only [List.length_cons, List.length_nil] at hi
      omega

/-- Two calls have their results from a node that answers the second first, and the last
answer to it counts. -/
theorem a_batch_comes_back_whole_out_of_order :
    ((call overtaken ⟨[countFunction]⟩ default "count"
      [[.uint 1 256], [.uint 2 256]]).run (.start ())).1 =
        .done [[.uint 1 256], [.uint 2 256]] := by
  have hne : [[Abi.Value.uint 1 256], [.uint 2 256]] ≠ [] := by simp
  have hwhole := (a_batch_is_answered_whole overtaken ⟨[countFunction]⟩ default "count"
    [[.uint 1 256], [.uint 2 256]] (.start ())).1 hne
  have hresolve : resolve ⟨[countFunction]⟩ "count" [[.uint 1 256], [.uint 2 256]] =
      .ok countFunction := by rfl
  have hcalls : elements countFunction default [[.uint 1 256], [.uint 2 256]] =
      .ok [.ethCall default ([59, 53, 70, 200] ++ Abi.encode [.uint 1 256]),
        .ethCall default ([59, 53, 70, 200] ++ Abi.encode [.uint 2 256])] := by
    simp only [elements, List.mapM_cons, callData_count]
    rfl
  have hlast : ∃ requests, ((call overtaken.transcribed ⟨[countFunction]⟩ default "count"
      [[.uint 1 256], [.uint 2 256]]).transcript (.start ())).getLast? =
        some (.batch requests (some (.ok overtaking))) := by
    rw [call_of_elements hresolve hcalls, transcript_bind_results]
    exact ⟨_, rfl⟩
  obtain ⟨requests, hlast⟩ := hlast
  exact (hwhole.done_iff _).mpr
    ⟨countFunction, requests, overtaking, hresolve, hlast, decodes_overtaking⟩

end ChainAccess.Batch
