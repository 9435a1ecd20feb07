import ChainAccess.Client
import ChainAccess.Proofs.Workflow.Outcomes
import Mathlib.Tactic.Common
-- Calls through a transport, and the operations that are made of requests
-- through it and of nothing else.

namespace ChainAccess.Transport

open Workflow

variable {σ α β : Type}

/-- An operation that sends requests over a transport, one after another, and
goes on by the answers. -/
inductive Sends (t : Transport σ) : Workflow σ RpcError α → Prop
  | value (a : α) : Sends t (value a)
  | fail (e : RpcError) : Sends t (fail e)
  | request {method : String} {params : Option Json}
      {k : Except RpcError Json → Workflow σ RpcError α} :
      (∀ r, Sends t (k r)) → Sends t ((t.sendRequest method params).caught >>= k)
  | batch {requests : List Json} {k : Except RpcError (List Json) → Workflow σ RpcError α} :
      (∀ r, Sends t (k r)) → Sends t ((t.sendRequests requests).caught >>= k)

theorem sends_ofExcept {t : Transport σ} {r : Except RpcError α}
    {k : α → Workflow σ RpcError β} (hk : ∀ a, Sends t (k a)) :
    Sends t (ofExcept r >>= k) := by
  cases r with
  | ok a => exact hk a
  | error e => exact .fail e

theorem sends_ask (t : Transport σ) (method : String) (params : List Json) (read : Json.Read α) :
    Sends t (t.ask method params read) := by
  unfold ask
  rw [bind_eq_caught]
  refine .request fun r => ?_
  cases r with
  | error e => exact .fail e
  | ok answer =>
    refine sends_ofExcept fun result => ?_
    cases read result with
    | ok a => exact .value a
    | error f => exact .fail _

theorem ask_of_read {t : Transport σ} {method : String} {params : List Json} {read : Json.Read α}
    {d : Option Nat} {w v : World σ} {answer result : Json} {a : α}
    (hanswer : t.sendRequest method (some (.arr params)) d w = (.done answer, v))
    (hresult : Rpc.result answer = .ok result) (hread : read result = .ok a) :
    t.ask method params read d w = (.done a, v) := by
  rw [ask, bind_of_done hanswer, ofExcept_bind_of_ok hresult, hread]
  rfl

theorem exchange_node (call : Option Nat → σ → Reply σ α) (d : Option Nat) (w : World σ) :
    (exchange call d w).2.node = (call (d.map (· - w.clock)) w.node).node := by
  simp only [exchange]
  rcases (call (d.map (· - w.clock)) w.node).answer with _ | _ | _ <;> rfl

theorem exchange_answer? (call : Option Nat → σ → Reply σ α) (d : Option Nat) (w : World σ) :
    (exchange call d w).1.answer? = (call (d.map (· - w.clock)) w.node).answer := by
  simp only [exchange]
  rcases (call (d.map (· - w.clock)) w.node).answer with _ | _ | _ <;> rfl

theorem exchange_of_answer {call : Option Nat → σ → Reply σ α} {d left : Option Nat}
    {w : World σ} {a : α} (hleft : d.map (· - w.clock) = left)
    (h : (call left w.node).answer = some (.ok a)) :
    ∃ v, exchange call d w = (.done a, v) ∧ v.node = (call left w.node).node := by
  subst hleft
  have hanswer := exchange_answer? call d w
  have hnode := exchange_node call d w
  rcases hx : exchange call d w with ⟨b | e | _, v⟩ <;> rw [hx, h] at hanswer
  · cases hanswer
    exact ⟨v, rfl, by rw [← hnode, hx]⟩
  · cases hanswer
  · cases hanswer

theorem sendRequest_of_answer {t : Transport σ} {method : String} {params : Option Json}
    {ms : Nat} {w : World σ} {response : Json}
    (h : (t.send (Rpc.request method params) (some ms) w.node).answer = some (.ok response)) :
    ∃ v, t.sendRequest method params (some (w.clock + ms)) w = (.done response, v) ∧
      v.node = (t.send (Rpc.request method params) (some ms) w.node).node := by
  have hleft : (some (w.clock + ms)).map (· - w.clock) = some ms := by simp
  exact exchange_of_answer (w := w.note (.send (Rpc.request method params))) hleft h

theorem sendRequests_of_answer {t : Transport σ} {requests : List Json} {ms : Nat} {w : World σ}
    {responses : List Json}
    (h : (t.sendBatch requests (some ms) w.node).answer = some (.ok responses)) :
    ∃ v, t.sendRequests requests (some (w.clock + ms)) w = (.done responses, v) ∧
      v.node = (t.sendBatch requests (some ms) w.node).node := by
  have hleft : (some (w.clock + ms)).map (· - w.clock) = some ms := by simp
  exact exchange_of_answer (w := w.note (.sendBatch requests)) hleft h

end ChainAccess.Transport
