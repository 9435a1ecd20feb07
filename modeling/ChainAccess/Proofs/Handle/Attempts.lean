import ChainAccess.Handle
import ChainAccess.Proofs.Workflow.Attempts
import ChainAccess.Proofs.Workflow.Requests
import Mathlib.Tactic.Common
-- One attempt at an operation: it starts on an endpoint, the operation runs
-- for as long as an attempt may take, and when it is cut off there, the
-- endpoint it started on is reported.

namespace ChainAccess.Handle

open Workflow

variable {σ α : Type} {h : Handle σ} {op : Workflow σ RpcError α} {w v : World σ}

/-! ## The parts of an attempt -/

theorem bestUrl_node (h : Handle σ) (w : World σ) :
    (h.bestUrl.run w).2.node = (h.transport.connect none w.node).node := by
  refine Eq.trans ?_ (Transport.exchange_node h.transport.connect none w)
  simp only [bestUrl, Workflow.run, Transport.ensureConnected, Transport.currentUrl, Bind.bind,
    andThen, caught]
  rcases Transport.exchange h.transport.connect none w with ⟨a | e | _, v⟩ <;> rfl

theorem expire_node (h : Handle σ) (url : String) (d : Option Nat) (w : World σ) :
    ((h.expire url : Workflow σ RpcError α) d w).2.node =
      (h.transport.report url (d.map (· - w.clock)) w.node).node := by
  refine Eq.trans ?_
    (Transport.exchange_node (h.transport.report url) d (w.note (.report url)))
  simp only [expire, Transport.reportFailure, Bind.bind, andThen, caught, note, change]
  rcases Transport.exchange (h.transport.report url) d (w.note (.report url)) with
    ⟨a | e | _, v⟩ <;> rfl

theorem attempt_run (h : Handle σ) (op : Workflow σ RpcError α) (w : World σ) :
    (h.attempt op).run w =
      match h.bestUrl.run w with
      | (.done url, u) => op.within h.timeout (h.expire url) none u
      | (.failed e, u) => (.failed e, u)
      | (.expired, u) => (.expired, u) := by
  show andThen h.bestUrl _ none w = _
  unfold andThen Workflow.run
  rcases h.bestUrl none w with ⟨url | e | _, u⟩ <;> rfl

/-! ## Attempts and their operations -/

/-- The attempt after `n` failed ones begins in a world. -/
def Begins (h : Handle σ) (op : Workflow σ RpcError α) (w₀ : World σ) (n : Nat)
    (w : World σ) : Prop :=
  h.backoff.Begins RpcError.isPassing (h.attempt op) w₀ n w

/-- The attempt that begins in `w` starts on the endpoint at `url`, in `u`, and
its operation comes to `o` in `v` within the time of an attempt. -/
def Tries (h : Handle σ) (op : Workflow σ RpcError α) (w : World σ) (url : String)
    (u : World σ) (o : Outcome RpcError α) (v : World σ) : Prop :=
  h.bestUrl.run w = (.done url, u) ∧ op (some (u.clock + h.timeout)) u = (o, v)

variable {url : String} {u : World σ}

theorem Tries.run (hurl : h.bestUrl.run w = (.done url, u)) :
    (h.attempt op).run w = op.within h.timeout (h.expire url) none u := by
  rw [attempt_run, hurl]

theorem Tries.attempt {o : Outcome RpcError α} (ht : h.Tries op w url u o v)
    (ho : o ≠ .expired) : (h.attempt op).run w = (o, v) := by
  rw [Tries.run ht.1, within_alone, ht.2]
  cases o with
  | expired => exact absurd rfl ho
  | done a => rfl
  | failed e => rfl

/-- An attempt whose operation is cut off ends as the report of the endpoint
that it started on leaves it. -/
theorem Tries.expire (ht : h.Tries op w url u .expired v) :
    (h.attempt op).run w = (h.expire url).run v := by
  rw [Tries.run ht.1, within_alone, ht.2]
  rfl

theorem expire_ne_done {a : α} : (h.expire url).run w ≠ (.done a, v) := by
  intro hdone
  obtain ⟨r, t, -, hfail⟩ := bind_done_iff.mp hdone
  cases hfail

/-- An attempt succeeds just as its operation does. -/
theorem attempt_done_iff {a : α} :
    (h.attempt op).run w = (.done a, v) ↔ ∃ url u, h.Tries op w url u (.done a) v := by
  constructor
  · intro hdone
    obtain ⟨url, u, hurl, hop⟩ := bind_done_iff.mp hdone
    refine ⟨url, u, hurl, ?_⟩
    rw [within_alone] at hop
    rcases hrun : op (some (u.clock + h.timeout)) u with ⟨b | e | _, t⟩
    · rw [hrun] at hop
      exact hop
    · rw [hrun] at hop
      cases hop
    · rw [hrun] at hop
      exact absurd hop expire_ne_done
  · rintro ⟨url, u, ht⟩
    exact ht.attempt (by simp)

end ChainAccess.Handle
