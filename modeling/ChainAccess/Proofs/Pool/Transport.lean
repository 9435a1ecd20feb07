import ChainAccess.Proofs.Pool.Solo
import ChainAccess.Proofs.Workflow.Requests
import Mathlib.Data.List.Basic
import Mathlib.Tactic.Common
-- Operations over the transport of a pool. One that only sends requests has
-- its first request go to the endpoint in use when it starts, and when it is
-- cut off, its last request went to the endpoint that it leaves in use.

namespace ChainAccess.Pool

open Workflow

variable {ω α β : Type} {wire : Wire ω}

/-! ## The way from one site to another -/

/-- Some questions lead from one site to another, and a sound pool stays one. -/
structure Course (s : Site ω) (cs : List Contact) (t : Site ω) : Prop where
  log : t.log = s.log ++ cs
  sound : ∀ urls, s.pool.Sound urls → t.pool.Sound urls

theorem Course.refl (s : Site ω) : Course s [] s := ⟨by simp, fun _ h => h⟩

theorem Course.trans {s t u : Site ω} {cs ds : List Contact} (h : Course s cs t)
    (h' : Course t ds u) : Course s (cs ++ ds) u :=
  ⟨by rw [h'.log, h.log, List.append_assoc], fun urls hs => h'.sound urls (h.sound urls hs)⟩

/-- The routine keeps to the discipline on every pool of the configured
endpoints. -/
def Disciplined (r : Routine α) : Prop :=
  ∀ urls, r.Keeps (Sound urls) (fun g _ => g = none) none

theorem ensureConnected_disciplined : Disciplined ensureConnected :=
  fun _ => keeps_ensureConnected _ fun _ => rfl

theorem rotate_disciplined (url : String) : Disciplined (rotate url) :=
  fun _ => keeps_rotate _ url fun _ => rfl

theorem send_disciplined (body : Json) : Disciplined (send body) :=
  fun _ => keeps_send _ body fun _ => rfl

theorem sendBatch_disciplined (requests : List Json) : Disciplined (sendBatch requests) := by
  intro urls
  simp only [sendBatch, Routine.keeps_bind]
  refine keeps_send _ _ fun r => ?_
  cases r with
  | ok answer => rfl
  | error e => rfl

theorem course_of_reply {r : Routine (Except RpcError α)} (hr : Disciplined r) (w : Wire ω)
    (left : Option Nat) (s : Site ω) :
    Course s (r.asked w (left.map (s.clock + ·)) s) (replyOf w r left s).node :=
  ⟨r.run_log w _ s, fun urls hs => (hr urls).run_sound w _ hs⟩

/-! ## Where requests go first -/

/-- The first request among some questions, if there is one, went to `url`. -/
def OpensAt (url : String) (cs : List Contact) : Prop := ∀ u, firstPosted cs = some u → u = url

theorem opensAt_of_none {url : String} {cs : List Contact} (h : firstPosted cs = none) :
    OpensAt url cs := by
  intro u hu
  rw [h] at hu
  cases hu

theorem opensAt_of_first {url : String} {cs : List Contact} (h : firstPosted cs = some url)
    (ds : List Contact) : OpensAt url (cs ++ ds) := by
  intro u hu
  rw [firstPosted_append, h] at hu
  exact (Option.some.inj hu).symm

theorem OpensAt.append {url : String} {cs ds : List Contact} (h : OpensAt url cs)
    (h' : OpensAt url ds) : OpensAt url (cs ++ ds) := by
  intro u hu
  rw [firstPosted_append] at hu
  cases hc : firstPosted cs with
  | none => exact h' u (by simpa [hc] using hu)
  | some c => exact h u (by simpa [hc] using hu)

/-! ## Operations over a pool -/

/-- From every site the workflow takes its course, first to the endpoint in use
there, and to the end at the one in use then if it is cut off. -/
def AsksInUse (m : Workflow (Site ω) RpcError α) : Prop :=
  ∀ d w, ∃ cs, Course w.node cs (m d w).2.node ∧ OpensAt w.node.pool.activeUrl cs ∧
    ((m d w).1 = .expired → Routine.EndsInUse cs (m d w).2.node.pool)

theorem asksInUse_value {a : α} : AsksInUse (value a : Workflow (Site ω) RpcError α) :=
  fun _ w => ⟨[], .refl w.node, opensAt_of_none rfl, fun h => nomatch h⟩

theorem asksInUse_fail {e : RpcError} : AsksInUse (fail e : Workflow (Site ω) RpcError α) :=
  fun _ w => ⟨[], .refl w.node, opensAt_of_none rfl, fun h => nomatch h⟩

theorem asksInUse_of_request (wire : Wire ω) {r : Routine (Except RpcError β)}
    {k : Except RpcError β → Workflow (Site ω) RpcError α} (hr : Disciplined r)
    (huse : ∀ p, r.SendsInUse p)
    (hfirst : ∀ (d : Option Nat) s, firstPosted (r.asked wire d s) = some s.pool.activeUrl)
    (hk : ∀ a, AsksInUse (k a)) :
    AsksInUse ((Transport.exchange (replyOf wire r)).caught >>= k) := by
  intro d w
  have hnode := Transport.exchange_node (replyOf wire r) d w
  have hanswer := Transport.exchange_answer? (replyOf wire r) d w
  have hcourse := course_of_reply hr wire (d.map (· - w.clock)) w.node
  have hopen := hfirst ((d.map (· - w.clock)).map (w.node.clock + ·)) w.node
  rw [← hnode] at hcourse
  rw [caught_bind]
  cases ha : (Transport.exchange (replyOf wire r) d w).1.answer? with
  | none =>
    rw [ha] at hanswer
    have hend := Routine.endsInUse_of_dropped (huse w.node.pool) hanswer.symm
    refine ⟨_, hcourse, by simpa using opensAt_of_first hopen [], fun _ => ?_⟩
    rw [hnode]
    exact hend
  | some a =>
    obtain ⟨ds, hcourse', -, hend⟩ := hk a d (Transport.exchange (replyOf wire r) d w).2
    exact ⟨_, hcourse.trans hcourse', opensAt_of_first hopen ds, fun h => (hend h).append_left _⟩

theorem asksInUse_of_sends {op : Workflow (Site ω) RpcError α}
    (hop : Transport.Sends (transport wire) op) : AsksInUse op := by
  -- the requests go out one by one, each from where the one before it led
  induction hop with
  | value a => exact asksInUse_value
  | fail e => exact asksInUse_fail
  | @request method params k _ ih =>
    have hsend := asksInUse_of_request wire (send_disciplined (Rpc.request method params))
      (Routine.send_in_use _) (fun d s => Routine.send_asks_first wire d _ s) ih
    intro d w
    exact hsend d (w.note (.send (Rpc.request method params)))
  | @batch requests k _ ih =>
    have hsend := asksInUse_of_request wire (sendBatch_disciplined requests)
      (Routine.sendBatch_in_use _) (fun d s => Routine.sendBatch_asks_first wire d _ s) ih
    intro d w
    exact hsend d (w.note (.sendBatch requests))

end ChainAccess.Pool
