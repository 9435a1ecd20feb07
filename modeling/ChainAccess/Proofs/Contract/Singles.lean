import ChainAccess.Proofs.Contract.Batch
import ChainAccess.Proofs.Handle.Schedule
-- A batch against its calls one by one. A node that is always reached, and whose
-- answer to a call depends on its parameters alone, gives a batch the results that
-- the single calls have, whatever the order of its responses; and a single call
-- without a result leaves the batch without any.

namespace ChainAccess

open Workflow
open Rpc (BatchElement)

variable {σ α : Type}

/-! ## What a node says -/

/-- What a node says to a call: an error, or the text of what the call returns. -/
inductive CallAnswer where
  | refused (error : Json)
  | returned (text : String)

namespace CallAnswer

/-- The response carries the answer. -/
def IsIn (response : Json) : CallAnswer → Prop
  | refused error => Rpc.errorMember? response = some error
  | returned text => Rpc.errorMember? response = none ∧
      response.get? "result" = some (.str text) ∧ Hex.Writes text

/-- The answer returns bytes that the function decodes. -/
def Yields (f : Abi.Function) (values : List Abi.Value) (answer : CallAnswer) : Prop :=
  ∃ text bs, answer = returned text ∧ Hex.bytes? text = some bs ∧ f.returned bs = .ok values

end CallAnswer

/-- Responses to a batch of calls in any order, one to each number. -/
def Responds (answerTo : List Json → CallAnswer) (calls : List BatchElement)
    (responses : List Json) : Prop :=
  ∃ inOrder : List Json, responses.Perm inOrder ∧ inOrder.length = calls.length ∧
    ∀ k (hk : k < inOrder.length) (hc : k < calls.length),
      Batch.idOf? inOrder[k] = some k ∧ (answerTo calls[k].args).IsIn inOrder[k]

/-- In all its states the node is reached, and answers calls, alone or `count` of
them in a batch, within the time of an attempt. -/
structure Serves (h : Handle σ) (answerTo : List Json → CallAnswer) (count : Nat)
    (up : σ → Prop) : Prop where
  connects : ∀ s, up s → (h.transport.connect none s).answer = some (.ok ()) ∧
    up (h.transport.connect none s).node
  answers : ∀ s params, up s →
    let reply := h.transport.send (Rpc.request "eth_call" (some (.arr params))) (some h.timeout) s
    ∃ response, reply.answer = some (.ok response) ∧ (answerTo params).IsIn response ∧ up reply.node
  answersAll : ∀ s calls, up s → calls.length = count →
    (∀ call ∈ calls, call.method = "eth_call") →
    let reply := h.transport.sendBatch (Transport.batchRequests calls) (some h.timeout) s
    ∃ responses, reply.answer = some (.ok responses) ∧ Responds answerTo calls responses ∧
      up reply.node

/-! ## Responses and results -/

section Responds

variable {answerTo : List Json → CallAnswer} {calls : List BatchElement} {responses : List Json}

theorem answersTo_of_perm {inOrder : List Json} (hperm : responses.Perm inOrder)
    (hids : ∀ k (hk : k < inOrder.length), Batch.idOf? inOrder[k] = some k) {k : Nat} {a : Json}
    (hk : k < inOrder.length) : a ∈ Batch.answersTo k responses ↔ a = inOrder[k] := by
  rw [Batch.mem_answersTo, hperm.mem_iff]
  constructor
  · rintro ⟨ha, hid⟩
    obtain ⟨j, hj, rfl⟩ := List.getElem_of_mem ha
    rw [hids j hj] at hid
    cases hid
    rfl
  · rintro rfl
    exact ⟨List.getElem_mem hk, hids k hk⟩

/-- The responses decode just when every answer does. -/
theorem Responds.decodes_iff {f : Abi.Function} {rs : List (List Abi.Value)}
    (hresponds : Responds answerTo calls responses) :
    Batch.Decodes f calls.length responses rs ↔ rs.length = calls.length ∧
      ∀ k (hr : k < rs.length) (hc : k < calls.length),
        (answerTo calls[k].args).Yields f rs[k] := by
  obtain ⟨inOrder, hperm, hlength, hin⟩ := hresponds
  have hids : ∀ k (hk : k < inOrder.length), Batch.idOf? inOrder[k] = some k :=
    fun k hk => (hin k hk (by omega)).1
  have hmem : ∀ a, a ∈ responses ↔ ∃ k, ∃ hk : k < inOrder.length, a = inOrder[k] := by
    intro a
    rw [hperm.mem_iff, List.mem_iff_getElem]
    exact exists_congr fun k => exists_congr fun hk => eq_comm
  constructor
  · intro h
    refine ⟨h.length, fun k hr hc => ?_⟩
    have hk : k < inOrder.length := by omega
    -- the one response of this number is the answer to the call
    obtain ⟨a, ha, text, bs, hresult, hbytes, -, hvalues⟩ := h.values k hr
    obtain rfl := (answersTo_of_perm hperm hids hk).mp (List.mem_of_getLast? ha)
    have hsound := h.complete.sound _ ((hmem _).mpr ⟨k, hk, rfl⟩)
    have hcarried := (hin k hk hc).2
    cases hanswer : answerTo calls[k].args with
    | refused error =>
      rw [hanswer, CallAnswer.IsIn, hsound] at hcarried
      cases hcarried
    | returned text' =>
      rw [hanswer] at hcarried
      obtain ⟨-, hresult', hwrites⟩ := hcarried
      rw [hresult] at hresult'
      cases hresult'
      obtain ⟨bs', -, hread, hpayload⟩ := hwrites.exists_bytes
      rw [hbytes] at hpayload
      cases hpayload
      exact ⟨text, bs, rfl, hread, hvalues⟩
  · rintro ⟨hrs, hyields⟩
    -- what every answer returns, the response to the call of its number carries
    have hcarries : ∀ k (hk : k < inOrder.length), ∃ text bs,
        Rpc.errorMember? inOrder[k] = none ∧ inOrder[k].get? "result" = some (.str text) ∧
        Batch.payloadBytes text = .ok bs ∧ bs ≠ [] ∧
        ∀ hr : k < rs.length, f.returned bs = .ok rs[k] := by
      intro k hk
      have hc : k < calls.length := by omega
      obtain ⟨text, bs, hanswer, hread, hvalues⟩ := hyields k (by omega) hc
      have hcarried := (hin k hk hc).2
      rw [hanswer] at hcarried
      obtain ⟨hnone, hresult, hwrites⟩ := hcarried
      obtain ⟨bs', hne, hread', hpayload⟩ := hwrites.exists_bytes
      rw [hread] at hread'
      cases hread'
      exact ⟨text, bs, hnone, hresult, hpayload, hne, fun _ => hvalues⟩
    refine ⟨⟨fun a ha => ?_, fun k hk => ?_, fun a ha => ?_⟩, hrs, fun k hr => ?_⟩
    · obtain ⟨k, hk, rfl⟩ := (hmem a).mp ha
      exact ⟨k, by omega, hids k hk⟩
    · have hk' : k < inOrder.length := by omega
      exact ⟨inOrder[k], (hmem _).mpr ⟨k, hk', rfl⟩, hids k hk'⟩
    · obtain ⟨k, hk, rfl⟩ := (hmem a).mp ha
      obtain ⟨-, -, hnone, -⟩ := hcarries k hk
      exact hnone
    · have hk : k < inOrder.length := by omega
      obtain ⟨text, bs, -, hresult, hpayload, hne, hvalues⟩ := hcarries k hk
      have hself := (answersTo_of_perm hperm hids hk).mpr rfl
      obtain ⟨a, ha⟩ : ∃ a, (Batch.answersTo k responses).getLast? = some a :=
        ⟨_, List.getLast?_eq_some_getLast (List.ne_nil_of_mem hself)⟩
      obtain rfl := (answersTo_of_perm hperm hids hk).mp (List.mem_of_getLast? ha)
      exact ⟨_, ha, text, bs, hresult, hpayload, hne, hvalues hr⟩

end Responds

/-! ## Attempts on a node that is always reached -/

namespace Serves

variable {h : Handle σ} {answerTo : List Json → CallAnswer} {count : Nat} {up : σ → Prop}
  {w : World σ}

theorem ensureConnected (hs : Serves h answerTo count up) (hup : up w.node) :
    ∃ u, h.transport.ensureConnected.run w = (.done (), u) ∧ up u.node := by
  obtain ⟨hanswer, hnode⟩ := hs.connects w.node hup
  have hleft : (none : Option Nat).map (· - w.clock) = none := rfl
  obtain ⟨v, hv, hvnode⟩ := Transport.exchange_of_answer hleft hanswer
  have hcaught : ((Transport.exchange h.transport.connect).caught :
      Workflow σ RpcError (Except RpcError Unit)) none w = (.done (.ok ()), v) :=
    caught_done_iff.mpr (Or.inl ⟨(), rfl, hv⟩)
  refine ⟨v.note (.connect true), bind_of_done hcaught, ?_⟩
  rw [← hvnode] at hnode
  exact hnode

/-- What every attempt at an operation comes to, all attempts together come to. -/
theorem retrying {op : Workflow σ RpcError α} {P : Outcome RpcError α → Prop}
    (hs : Serves h answerTo count up)
    (hop : ∀ u, up u.node → ∃ o v, op (some (u.clock + h.timeout)) u = (o, v) ∧ o ≠ .expired ∧
      up v.node ∧ P o) (hup : up w.node) : P ((h.retrying op).run w).1 := by
  have hattempt : ∀ w, up w.node → ∃ o v, (h.attempt op).run w = (o, v) ∧ up v.node ∧ P o := by
    intro w hup
    obtain ⟨u, hconnect, hu⟩ := hs.ensureConnected hup
    obtain ⟨o, v, ho, hended, hv, hP⟩ := hop u hu
    refine ⟨o, v, ?_, hv, hP⟩
    rw [Handle.attempt_of_connected hconnect]
    exact within_of_ended ho hended
  -- the node is reached before every attempt, so also before the last
  obtain ⟨n, w', hbegins, -, hrun⟩ :=
    h.backoff.exists_last RpcError.isPassing (h.attempt op) w
  have hup' : up w'.node := by
    refine hbegins.invariant (I := fun w => up w.node) hup fun w e v ms hw hfailed => ?_
    obtain ⟨o, v', ho, hv, -⟩ := hattempt w hw
    cases ho.symm.trans hfailed
    exact hv
  obtain ⟨o, v, ho, -, hP⟩ := hattempt w' hup'
  unfold Handle.retrying
  rw [hrun, ho]
  exact hP

/-! ## Single calls -/

theorem call_node (hs : Serves h answerTo count up) (hup : up w.node) (request : CallRequest) :
    ∃ o v, h.transport.call request (some (w.clock + h.timeout)) w = (o, v) ∧ o ≠ .expired ∧
      up v.node ∧ ∀ bs, o = .done bs ↔
        ∃ text, answerTo [request.toJson, .str Rpc.latest] = .returned text ∧
          Hex.bytes? text = some bs := by
  obtain ⟨response, hanswer, hcarried, hnode⟩ :=
    hs.answers w.node [request.toJson, .str Rpc.latest] hup
  obtain ⟨v, hsent, hvnode⟩ := Transport.sendRequest_of_answer hanswer
  rw [← hvnode] at hnode
  unfold Transport.call Transport.ask
  rw [bind_of_done hsent]
  cases hwhat : answerTo [request.toJson, .str Rpc.latest] with
  | refused error =>
    rw [hwhat] at hcarried
    have hresult : Rpc.result response = .error (Rpc.nodeError error) := by
      unfold Rpc.result
      rw [hcarried]
    rw [ofExcept_bind_of_error hresult]
    exact ⟨_, _, rfl, by simp, hnode, by simp⟩
  | returned text =>
    rw [hwhat] at hcarried
    obtain ⟨hnone, hres, hwrites⟩ := hcarried
    obtain ⟨bs, -, hread, -⟩ := hwrites.exists_bytes
    have hresult : Rpc.result response = .ok (.str text) := by
      unfold Rpc.result
      rw [hnone, hres]
    rw [ofExcept_bind_of_ok hresult, Bytes.read_of_bytes? hread]
    exact ⟨_, _, rfl, by simp, hnode, by simp [hread]⟩

/-- A single call has the values that the answer to its data yields. -/
theorem callRetrying_done_iff (hs : Serves h answerTo count up) (hup : up w.node) {c : Contract}
    {method : String} {args : List Abi.Value} {f : Abi.Function}
    (hf : c.interface.find method (some args.length) = .ok f) {values : List Abi.Value} :
    ((c.callRetrying h method args).run w).1 = .done values ↔ ∃ data, f.callData args = .ok data ∧
      (answerTo (BatchElement.ethCall c.address data).args).Yields f values := by
  refine hs.retrying (P := fun o => o = .done values ↔ _) (fun u hu => ?_) hup
  unfold Contract.call
  rw [ofExcept_bind_of_ok hf]
  cases hdata : f.callData args with
  | error e =>
    rw [ofExcept_bind_of_error rfl]
    exact ⟨_, _, rfl, by simp, hu, by simp⟩
  | ok data =>
    rw [ofExcept_bind_of_ok rfl]
    obtain ⟨o, v, ho, hended, hv, hdone⟩ := hs.call_node hu (.reading c.address data)
    have hyields : ∀ bs, o = .done bs →
        ((answerTo (BatchElement.ethCall c.address data).args).Yields f values ↔
          f.returned bs = .ok values) := by
      intro bs hbs
      obtain ⟨text, hwhat, hread⟩ := (hdone bs).mp hbs
      constructor
      · rintro ⟨text', bs', hwhat', hread', hvalues⟩
        cases hwhat.symm.trans hwhat'
        cases hread.symm.trans hread'
        exact hvalues
      · intro hvalues
        exact ⟨text, bs, hwhat, hread, hvalues⟩
    cases o with
    | expired => exact absurd rfl hended
    | failed e =>
      refine ⟨.failed e, v, bind_failed_iff.mpr (Or.inl ho), by simp, hv, ?_⟩
      simp only [Except.ok.injEq, exists_eq_left']
      constructor
      · rintro ⟨⟩
      · rintro ⟨text, bs, hwhat, hread, -⟩
        cases (hdone bs).mpr ⟨text, hwhat, hread⟩
    | done bs =>
      rw [bind_of_done ho]
      simp only [Except.ok.injEq, exists_eq_left', hyields bs rfl]
      cases hvalues : f.returned bs with
      | error e => exact ⟨_, _, rfl, by simp, hv, by simp⟩
      | ok vs => exact ⟨_, _, rfl, by simp, hv, by simp⟩

/-! ## Batches -/

theorem sendOnce_node (hs : Serves h answerTo count up) (hup : up w.node)
    {calls : List BatchElement} (hlength : calls.length = count)
    (hcalls : ∀ call ∈ calls, call.method = "eth_call") :
    ∃ o v, Batch.sendOnce h.transport calls (some (w.clock + h.timeout)) w = (o, v) ∧
      o ≠ .expired ∧ up v.node ∧ ∃ responses, Responds answerTo calls responses ∧
        ∀ settled, o = .done settled ↔ Batch.settled? calls responses = some settled := by
  obtain ⟨responses, hanswer, hresponds, hnode⟩ := hs.answersAll w.node calls hup hlength hcalls
  obtain ⟨v, hsent, hvnode⟩ := Transport.sendRequests_of_answer hanswer
  rw [← hvnode] at hnode
  unfold Batch.sendOnce Transport.sendBatchElements
  simp only [bind_bind, value_bind]
  rw [bind_of_done hsent]
  unfold Batch.settled?
  cases hfill : Transport.fillAll (calls.map (·, false)) responses with
  | error e =>
    rw [ofExcept_bind_of_error rfl]
    exact ⟨_, _, rfl, by simp, hnode, responses, hresponds, by simp [hfill]⟩
  | ok slots =>
    rw [ofExcept_bind_of_ok rfl]
    cases hfirst : Batch.firstError? (slots.map Transport.settle) with
    | some failure =>
      exact ⟨_, _, rfl, by simp, hnode, responses, hresponds, by simp [hfill, hfirst]⟩
    | none =>
      exact ⟨_, _, rfl, by simp, hnode, responses, hresponds, by simp [hfill, hfirst]⟩

theorem perform_done_iff (hs : Serves h answerTo count up) (hup : up w.node)
    {calls : List BatchElement} (hne : calls ≠ []) (hlength : calls.length = count)
    (hcalls : ∀ call ∈ calls, call.method = "eth_call") :
    ∃ responses, Responds answerTo calls responses ∧ ∀ settled,
      ((Batch.perform h calls).run w).1 = .done settled ↔
        Batch.settled? calls responses = some settled := by
  have hsent : calls.isEmpty = false := by simpa using hne
  unfold Batch.perform
  rw [hsent]
  exact hs.retrying (P := fun o => ∃ responses, Responds answerTo calls responses ∧
    ∀ settled, o = .done settled ↔ _) (fun u hu => hs.sendOnce_node hu hlength hcalls) hup

/-- A batch has the values that the answers to the data of its calls yield. -/
theorem call_done_iff (hs : Serves h answerTo count up) (hup : up w.node) {i : Abi.Interface}
    {method : String} {argLists : List (List Abi.Value)} (hne : argLists ≠ [])
    (hlength : argLists.length = count) {f : Abi.Function}
    (hf : Batch.resolve i method argLists = .ok f) (contract : Address)
    (rs : List (List Abi.Value)) :
    ((Batch.call h i contract method argLists).run w).1 = .done rs ↔ rs.length = argLists.length ∧
      ∀ k (hr : k < rs.length) (hk : k < argLists.length), ∃ data,
        f.callData argLists[k] = .ok data ∧
          (answerTo (BatchElement.ethCall contract data).args).Yields f rs[k] := by
  cases hcalls : Batch.elements f contract argLists with
  | error e =>
    have hfailed : (Batch.call h i contract method argLists).run w = (.failed e, w) := by
      rw [Batch.call, ofExcept_bind_of_ok hf, ofExcept_bind_of_error hcalls]
      rfl
    rw [hfailed]
    constructor
    · rintro ⟨⟩
    · rintro ⟨hrs, hyields⟩
      have hdata : ∀ args ∈ argLists, ∃ data, f.callData args = .ok data := by
        intro args hargs
        obtain ⟨k, hk, rfl⟩ := List.getElem_of_mem hargs
        obtain ⟨data, hok, -⟩ := hyields k (by omega) hk
        exact ⟨data, hok⟩
      obtain ⟨calls, hok⟩ := Batch.exists_elements contract hdata
      rw [hcalls] at hok
      cases hok
  | ok calls =>
    obtain ⟨hsize, hdata⟩ := Batch.elements_ok_iff.mp hcalls
    have hcalls' : calls ≠ [] := by
      rintro rfl
      exact hne (List.length_eq_zero_iff.mp hsize)
    have hmethod : ∀ call ∈ calls, call.method = "eth_call" := by
      intro call hcall
      obtain ⟨k, hk, rfl⟩ := List.getElem_of_mem hcall
      obtain ⟨data, -, hcall⟩ := hdata k (by omega) hk
      rw [hcall]
      rfl
    obtain ⟨responses, hresponds, hperform⟩ :=
      hs.perform_done_iff hup hcalls' (by omega) hmethod
    have hdone : ((Batch.call h i contract method argLists).run w).1 = .done rs ↔
        ∃ settled, Batch.settled? calls responses = some settled ∧
          Batch.results f settled = .ok rs := by
      rw [Batch.call_of_elements hf hcalls]
      exact outcome_bind_ofExcept_iff.trans
        (exists_congr fun settled => and_congr_left' (hperform _))
    have hcall : ∀ k (hk : k < argLists.length) (hc : k < calls.length) values,
        (answerTo calls[k].args).Yields f values ↔ ∃ data, f.callData argLists[k] = .ok data ∧
          (answerTo (BatchElement.ethCall contract data).args).Yields f values := by
      intro k hk hc values
      obtain ⟨data, hok, hcall⟩ := hdata k hk hc
      simp [hcall, hok]
    rw [hdone, Batch.results_settled_iff (Batch.error_of_elements hcalls), hresponds.decodes_iff]
    constructor
    · rintro ⟨hrs, hyields⟩
      exact ⟨by omega, fun k hr hk => (hcall k hk (by omega) _).mp (hyields k hr (by omega))⟩
    · rintro ⟨hrs, hyields⟩
      exact ⟨by omega, fun k hr hc => (hcall k (by omega) hc _).mpr (hyields k hr (by omega))⟩

end Serves

/-! ## The law -/

theorem callRetrying_of_not_found {h : Handle σ} {answerTo : List Json → CallAnswer} {count : Nat}
    {up : σ → Prop} {w : World σ} (hs : Serves h answerTo count up) (hup : up w.node) {c : Contract}
    {method : String} {args : List Abi.Value} {e : RpcError}
    (hf : c.interface.find method (some args.length) = .error e) (values : List Abi.Value) :
    ((c.callRetrying h method args).run w).1 ≠ .done values := by
  refine hs.retrying (P := fun o => o ≠ .done values) (fun u hu => ?_) hup
  unfold Contract.call
  rw [ofExcept_bind_of_error hf]
  exact ⟨.failed e, u, rfl, by simp, hu, by simp⟩

namespace Batch

/-- The batch has results just when all the single calls have theirs, and these
are then its results in order. -/
theorem a_batch_equals_its_single_calls {h : Handle σ} {answerTo : List Json → CallAnswer}
    {up : σ → Prop} (c : Contract) (method : String) (argLists : List (List Abi.Value))
    (hs : Serves h answerTo argLists.length up) (hne : argLists ≠ []) {arity : Nat}
    (harity : ∀ args ∈ argLists, args.length = arity) (w₀ : World σ) (hup₀ : up w₀.node)
    (w : Nat → World σ) (hup : ∀ k, up (w k).node) :
    ((∃ rs, ((call h c.interface c.address method argLists).run w₀).1 = .done rs) ↔
      ∀ k (hk : k < argLists.length), ∃ values,
        ((c.callRetrying h method argLists[k]).run (w k)).1 = .done values) ∧
    ∀ rs, ((call h c.interface c.address method argLists).run w₀).1 = .done rs →
      rs.length = argLists.length ∧ ∀ k (hk : k < argLists.length) (hr : k < rs.length),
        ((c.callRetrying h method argLists[k]).run (w k)).1 = .done rs[k] := by
  -- the first list stands for all, since they are of one length
  have hfind : resolve c.interface method argLists = c.interface.find method (some arity) := by
    obtain ⟨args, rest, rfl⟩ := List.exists_cons_of_ne_nil hne
    unfold resolve
    rw [List.head?_cons, Option.map_some, harity args List.mem_cons_self]
  cases hf : c.interface.find method (some arity) with
  | error e =>
    have hbatch : (call h c.interface c.address method argLists).run w₀ = (.failed e, w₀) := by
      rw [call, ofExcept_bind_of_error (hfind.trans hf)]
      rfl
    refine ⟨⟨?_, fun hall => ?_⟩, ?_⟩
    · rintro ⟨rs, hdone⟩
      rw [hbatch] at hdone
      cases hdone
    · have hpos : 0 < argLists.length := List.length_pos_iff.mpr hne
      obtain ⟨values, hdone⟩ := hall 0 hpos
      rw [← harity _ (List.getElem_mem hpos)] at hf
      exact absurd hdone (callRetrying_of_not_found hs (hup 0) hf values)
    · intro rs hdone
      rw [hbatch] at hdone
      cases hdone
  | ok f =>
    have hsingle : ∀ k (hk : k < argLists.length) values,
        ((c.callRetrying h method argLists[k]).run (w k)).1 = .done values ↔ ∃ data,
          f.callData argLists[k] = .ok data ∧
            (answerTo (BatchElement.ethCall c.address data).args).Yields f values := by
      intro k hk values
      rw [← harity _ (List.getElem_mem hk)] at hf
      exact hs.callRetrying_done_iff (hup k) hf
    have hbatch := hs.call_done_iff hup₀ hne rfl (hfind.trans hf) c.address
    simp only [hsingle, hbatch]
    refine ⟨⟨?_, fun hall => ?_⟩, ?_⟩
    · rintro ⟨rs, hrs, hyields⟩ k hk
      exact ⟨_, hyields k (by omega) hk⟩
    · choose values hvalues using hall
      refine ⟨List.ofFn fun k : Fin argLists.length => values k k.isLt, by simp, fun k hr hk => ?_⟩
      rw [List.getElem_ofFn]
      exact hvalues k hk
    · rintro rs ⟨hrs, hyields⟩
      exact ⟨hrs, fun k hk hr => hyields k hr hk⟩

/-! A node that returns one to calls whose data ends in one, two to calls whose data
ends in two, and refuses others. It answers the last call of a batch first. -/

/-- The last digit of the data of a call. -/
def lastDigit? (params : List Json) : Option Char :=
  ((params.head?.bind (·.get? "data")).bind Json.asStr?).bind fun data => data.toList.getLast?

/-- The error for a call that the node refuses. -/
def tooMany : Json := .obj [("code", .ofUInt64 3), ("message", .str "too many")]

/-- What the node says to a call. -/
def countsToTwo (params : List Json) : CallAnswer :=
  match lastDigit? params with
  | some '1' => .returned (Hex.encode (Bytes.ofNat 32 1))
  | some '2' => .returned (Hex.encode (Bytes.ofNat 32 2))
  | _ => .refused tooMany

/-- The response to a request. -/
def countingResponse (request : Json) : Json :=
  let id := ("id", (request.get? "id").getD .null)
  match request.get? "params" with
  | some (.arr params) =>
    match countsToTwo params with
    | .returned text => .obj [id, ("result", .str text)]
    | .refused error => .obj [id, ("error", error)]
  | _ => .obj [id]

/-- One attempt at each call of the node. -/
def counting : Handle Unit where
  transport := .ofSend "http://a" (fun request _ s => ⟨some (.ok (countingResponse request)), 5, s⟩)
    fun requests _ s => ⟨some (.ok (requests.reverse.map countingResponse)), 5, s⟩
  timeout := 1000
  backoff := ⟨1, 0, 0⟩

/-- A contract with the function. -/
def counter : Contract := ⟨"counter", default, ⟨[countFunction]⟩⟩

theorem isIn_countingResponse {request : Json} {params : List Json}
    (h : request.get? "params" = some (.arr params)) :
    (countsToTwo params).IsIn (countingResponse request) := by
  have hresponse : countingResponse request = match countsToTwo params with
      | .returned text => .obj [("id", (request.get? "id").getD .null), ("result", .str text)]
      | .refused error => .obj [("id", (request.get? "id").getD .null), ("error", error)] := by
    unfold countingResponse
    rw [h]
  have hcases : countsToTwo params = .refused tooMany ∨
      ∃ n, countsToTwo params = .returned (Hex.encode (Bytes.ofNat 32 n)) := by
    unfold countsToTwo
    split
    · exact Or.inr ⟨1, rfl⟩
    · exact Or.inr ⟨2, rfl⟩
    · exact Or.inl rfl
  rw [hresponse]
  rcases hcases with hanswer | ⟨n, hanswer⟩ <;> rw [hanswer]
  · exact rfl
  · exact ⟨rfl, rfl, Hex.writes_encode (List.append_ne_nil_of_right_ne_nil _ (by simp))⟩

theorem id_countingResponse (request : Json) :
    (countingResponse request).get? "id" = some ((request.get? "id").getD .null) := by
  unfold countingResponse
  dsimp only
  split
  · split <;> rfl
  · rfl

theorem counting_serves : Serves counting countsToTwo 2 fun _ => True := by
  refine ⟨fun _ _ => ⟨rfl, trivial⟩, fun _ params _ => ⟨_, rfl, isIn_countingResponse rfl, trivial⟩,
    fun _ calls _ hlength _ => ⟨_, rfl, ?_, trivial⟩⟩
  refine ⟨(Transport.batchRequests calls).map countingResponse, ?_, ?_, fun k hk hc => ?_⟩
  · rw [List.map_reverse]
    exact List.reverse_perm _
  · simp [Transport.batchRequests]
  · rw [List.getElem_map]
    have hrequest : ∀ hk : k < (Transport.batchRequests calls).length,
        (Transport.batchRequests calls)[k] = calls[k].request k := by
      intro hk
      simp [Transport.batchRequests]
    rw [hrequest]
    have hid : idOf? (countingResponse (calls[k].request k)) = some (UInt64.ofNat k).toNat := by
      unfold idOf?
      rw [id_countingResponse]
      rfl
    refine ⟨?_, isIn_countingResponse rfl⟩
    rw [hid, UInt64.toNat_ofNat_of_lt' (Nat.lt_trans (hlength ▸ hc) (by decide))]

theorem count_done (n : Word) (bs : Bytes) (w : World Unit)
    (hanswer : countsToTwo (BatchElement.ethCall default
      ([59, 53, 70, 200] ++ Abi.encode [.uint n 256])).args = .returned (Hex.encode bs))
    (hvalues : countFunction.returned bs = .ok [.uint n 256]) :
    ((counter.callRetrying counting "count" [.uint n 256]).run w).1 = .done [.uint n 256] :=
  (counting_serves.callRetrying_done_iff trivial rfl).mpr
    ⟨_, callData_count n, _, _, hanswer, Hex.bytes?_encode bs, hvalues⟩

/-- Two calls come back in their order from a node that answers the last one
first. -/
theorem two_counts_come_back_in_order :
    Serves counting countsToTwo 2 (fun _ => True) ∧
    ((call counting counter.interface counter.address "count"
      [[.uint 1 256], [.uint 2 256]]).run (World.start ())).1 =
        .done [[.uint 1 256], [.uint 2 256]] := by
  have hone := count_done 1 (Bytes.ofNat 32 1) (World.start ()) (by rfl) (by rfl)
  have htwo := count_done 2 (Bytes.ofNat 32 2) (World.start ()) (by rfl) (by rfl)
  obtain ⟨hdone, hvalues⟩ := a_batch_equals_its_single_calls counter "count"
    [[.uint 1 256], [.uint 2 256]] counting_serves (by simp)
    (show ∀ args ∈ [[Abi.Value.uint 1 256], [.uint 2 256]], args.length = 1 by simp)
    (World.start ()) trivial (fun _ => World.start ()) fun _ => trivial
  obtain ⟨rs, hrs⟩ := hdone.mpr fun k hk => by
    match k, hk with
    | 0, _ => exact ⟨_, hone⟩
    | 1, _ => exact ⟨_, htwo⟩
  obtain ⟨hlength, hsingle⟩ := hvalues rs hrs
  obtain ⟨first, second, rfl⟩ := List.length_eq_two.mp hlength
  cases hone.symm.trans (hsingle 0 (by simp) (by simp))
  cases htwo.symm.trans (hsingle 1 (by simp) (by simp))
  exact ⟨counting_serves, hrs⟩

end Batch

end ChainAccess
