import ChainAccess.Contract.Binding
import ChainAccess.Handle
import ChainAccess.Proofs.Workflow.Outcomes
import Mathlib.Tactic.Common
-- Workflows that deal with nothing but the node, the clock and the log. Everything that
-- goes through a handle is one. They neither read nor change what is remembered, and
-- they only look at time that has passed: begun later, at the same node, such a workflow
-- comes to the same and leads to the same node, as much later as it began.

namespace ChainAccess

variable {σ ε ε' α β : Type}

/-- The second world has the node of the first, some milliseconds later. -/
structure World.Later (ms : Nat) (w v : World σ) : Prop where
  clock : v.clock = w.clock + ms
  node : v.node = w.node

namespace Workflow

variable {m late : Workflow σ ε α} {ms : Nat} {w v : World σ}

/-- The workflow is made of exchanges with the node, looks at it, notes and rests. -/
inductive Outward : {ε α : Type} → Workflow σ ε α → Prop
  | value {ε α : Type} (a : α) : Outward (value a : Workflow σ ε α)
  | fail {ε α : Type} (e : ε) : Outward (fail e : Workflow σ ε α)
  | note {ε : Type} (e : Event) : Outward (note e : Workflow σ ε Unit)
  | pass {ε : Type} (ms : Nat) : Outward (pass ms : Workflow σ ε Unit)
  | look {ε α : Type} (f : σ → α) : Outward (fun _ w => (.done (f w.node), w) : Workflow σ ε α)
  | exchange {α : Type} (call : Option Nat → σ → Reply σ α) : Outward (Transport.exchange call)
  | bind {ε α β : Type} {m : Workflow σ ε α} {k : α → Workflow σ ε β} :
      Outward m → (∀ a, Outward (k a)) → Outward (m >>= k)
  | caught {ε ε' α : Type} {m : Workflow σ ε α} :
      Outward m → Outward (m.caught : Workflow σ ε' (Except ε α))
  | withError {ε ε' α : Type} {m : Workflow σ ε α} (f : ε → ε') :
      Outward m → Outward (m.withError f)
  | within {ε α : Type} {m late : Workflow σ ε α} (ms : Nat) :
      Outward m → Outward late → Outward (m.within ms late)

/-! ## Time of day -/

/-- Both ways to begin come to the same, and one ends as much later as it began. -/
structure Agree (ms : Nat) (r s : Outcome ε α × World σ) : Prop where
  outcome : s.1 = r.1
  later : World.Later ms r.2 s.2

theorem Agree.exists_later {o : Outcome ε α} {s : Outcome ε α × World σ}
    (h : Agree ms (o, w) s) : ∃ v, s = (o, v) ∧ World.Later ms w v :=
  ⟨s.2, Prod.ext h.outcome rfl, h.later⟩

theorem agree_exchange (call : Option Nat → σ → Reply σ α) (d : Option Nat)
    (h : World.Later ms w v) :
    Agree ms (Transport.exchange call d w) (Transport.exchange call (d.map (· + ms)) v) := by
  have hleft : (d.map (· + ms)).map (· - (w.clock + ms)) = d.map (· - w.clock) := by
    rw [Option.map_map]
    congr 1
    funext limit
    exact Nat.add_sub_add_right limit ms w.clock
  unfold Transport.exchange
  simp only [h.clock, h.node, hleft]
  rcases (call (d.map (· - w.clock)) w.node).answer with _ | _ | _
  all_goals exact ⟨rfl, Nat.add_right_comm .., rfl⟩

theorem agree_pass (spent : Nat) (d : Option Nat) (h : World.Later ms w v) :
    Agree ms ((pass spent : Workflow σ ε Unit) d w) (pass spent (d.map (· + ms)) v) := by
  unfold pass
  cases d with
  | none =>
    simp only [Option.map_none, h.clock]
    exact ⟨rfl, Nat.add_right_comm .., h.node⟩
  | some limit =>
    have hover : limit + ms < v.clock + spent ↔ limit < w.clock + spent := by
      rw [h.clock]
      omega
    simp only [Option.map_some, hover]
    split
    · exact ⟨rfl, by simp only [h.clock]; omega, h.node⟩
    · exact ⟨rfl, by simp only [h.clock]; omega, h.node⟩

theorem Agree.bind {k : α → Workflow σ ε β} {d : Option Nat}
    (hm : Agree ms (m d w) (m (d.map (· + ms)) v))
    (hk : ∀ a {w v : World σ}, World.Later ms w v →
      Agree ms (k a d w) (k a (d.map (· + ms)) v)) :
    Agree ms ((m >>= k) d w) ((m >>= k) (d.map (· + ms)) v) := by
  show Agree ms (andThen m k d w) (andThen m k (d.map (· + ms)) v)
  unfold andThen
  rcases hw : m d w with ⟨o, w'⟩
  rcases hv : m (d.map (· + ms)) v with ⟨o', v'⟩
  rw [hw, hv] at hm
  obtain rfl : o' = o := hm.outcome
  cases o' with
  | done a => exact hk a hm.later
  | failed e => exact ⟨rfl, hm.later⟩
  | expired => exact ⟨rfl, hm.later⟩

theorem Agree.caught {d d' : Option Nat} (hm : Agree ms (m d w) (m d' v)) :
    Agree ms ((m.caught : Workflow σ ε' (Except ε α)) d w) (m.caught d' v) := by
  unfold Workflow.caught
  rcases hw : m d w with ⟨o, w'⟩
  rcases hv : m d' v with ⟨o', v'⟩
  rw [hw, hv] at hm
  obtain rfl : o' = o := hm.outcome
  cases o' <;> exact ⟨rfl, hm.later⟩

theorem Agree.withError {f : ε → ε'} {d d' : Option Nat} (hm : Agree ms (m d w) (m d' v)) :
    Agree ms (m.withError f d w) (m.withError f d' v) := by
  unfold Workflow.withError
  rcases hw : m d w with ⟨o, w'⟩
  rcases hv : m d' v with ⟨o', v'⟩
  rw [hw, hv] at hm
  obtain rfl : o' = o := hm.outcome
  cases o' <;> exact ⟨rfl, hm.later⟩

theorem limitOf_later (own : Nat) (d : Option Nat) (h : World.Later ms w v) :
    some (limitOf (d.map (· + ms)) v own) = (some (limitOf d w own)).map (· + ms) := by
  unfold limitOf
  cases d with
  | none =>
    simp only [Option.map_none, Option.elim_none, Option.map_some, h.clock]
    congr 1
    omega
  | some limit =>
    simp only [Option.map_some, Option.elim_some, h.clock]
    congr 1
    omega

theorem Agree.within {own : Nat} {d : Option Nat} (h : World.Later ms w v)
    (hm : Agree ms (m (some (limitOf d w own)) w)
      (m ((some (limitOf d w own)).map (· + ms)) v))
    (hlate : ∀ {w v : World σ}, World.Later ms w v →
      Agree ms (late d w) (late (d.map (· + ms)) v)) :
    Agree ms (m.within own late d w) (m.within own late (d.map (· + ms)) v) := by
  have hown : (d.map (· + ms)).all (v.clock + own ≤ ·) = d.all (w.clock + own ≤ ·) := by
    cases d with
    | none => rfl
    | some limit =>
      simp only [Option.map_some, Option.all_some, h.clock]
      congr 1
      apply propext
      omega
  rw [within_eq, within_eq, limitOf_later own d h, hown]
  rcases hw : m (some (limitOf d w own)) w with ⟨o, w'⟩
  rcases hv : m ((some (limitOf d w own)).map (· + ms)) v with ⟨o', v'⟩
  rw [hw, hv] at hm
  obtain rfl : o' = o := hm.outcome
  cases o' with
  | done a => exact ⟨rfl, hm.later⟩
  | failed e => exact ⟨rfl, hm.later⟩
  | expired =>
    dsimp only
    split
    · exact hlate hm.later
    · exact ⟨rfl, hm.later⟩

/-- Begun later at the same node it comes to the same: by induction on its parts, each of
which hands its delay on to the next. -/
theorem Outward.agree {ε α : Type} {m : Workflow σ ε α} (hm : Outward m) (d : Option Nat)
    {w v : World σ} (h : World.Later ms w v) : Agree ms (m d w) (m (d.map (· + ms)) v) := by
  induction hm generalizing d w v with
  | value a => exact ⟨rfl, h⟩
  | fail e => exact ⟨rfl, h⟩
  | note e => exact ⟨rfl, h.clock, h.node⟩
  | pass spent => exact agree_pass spent d h
  | look f => exact ⟨congrArg (fun s => Outcome.done (f s)) h.node, h⟩
  | exchange call => exact agree_exchange call d h
  | bind hm hk ihm ihk => exact (ihm d h).bind fun a _ _ h => ihk a d h
  | caught hm ih => exact (ih d h).caught
  | withError f hm ih => exact (ih d h).withError
  | within own hm hlate ihm ihlate => exact (ihm _ h).within h fun h => ihlate d h

theorem Outward.run_agree (hm : Outward m) (h : World.Later ms w v) :
    Agree ms (m.run w) (m.run v) := hm.agree none h

/-! ## What goes through a handle -/

theorem outward_ofExcept (r : Except ε α) : Outward (ofExcept r : Workflow σ ε α) := by
  cases r with
  | ok a => exact .value a
  | error e => exact .fail e

/-- By induction on the attempts that may still come. -/
theorem Outward.attempts (hm : Outward m) (b : Backoff) (again : ε → Bool) (left : Nat)
    (n : UInt32) : Outward (b.attemptsFrom again m left n) := by
  induction left generalizing n with
  | zero => exact hm
  | succ left ih =>
    unfold Backoff.attemptsFrom
    refine hm.caught.bind fun r => ?_
    cases r with
    | ok a => exact .value a
    | error e =>
      dsimp only
      split
      · exact .fail e
      · split
        · exact .fail e
        · exact .bind (.bind (.note _) fun _ => .pass _) fun _ => ih _

end Workflow

open Workflow

theorem Transport.outward_ask (t : Transport σ) (method : String) (params : List Json)
    (read : Json.Read α) : Outward (t.ask method params read) := by
  refine .bind (.bind (.note _) fun _ => .exchange _) fun answer => ?_
  refine .bind (outward_ofExcept _) fun result => ?_
  cases read result with
  | ok a => exact .value a
  | error f => exact .fail _

theorem Transport.outward_latestBlock (t : Transport σ) : Outward t.latestBlock := by
  refine .bind (t.outward_ask _ _ _) fun block => ?_
  cases block with
  | some b => exact .value b
  | none => exact .fail _

theorem Transport.outward_ensureConnected (t : Transport σ) : Outward t.ensureConnected := by
  refine .bind (.caught (.exchange _)) fun r => ?_
  cases r with
  | ok _ => exact .note _
  | error e => exact .bind (.note _) fun _ => .fail e

theorem Handle.outward_retrying (h : Handle σ) {op : Workflow σ RpcError α} (hop : Outward op) :
    Outward (h.retrying op) := by
  have hurl : Outward h.bestUrl :=
    .bind h.transport.outward_ensureConnected fun _ => .look h.transport.url
  have hexpire : ∀ url, Outward (h.expire url : Workflow σ RpcError α) := fun url =>
    .bind (.caught (.bind (.note _) fun _ => .exchange _)) fun _ => .fail _
  exact (hurl.bind fun url => hop.within _ (hexpire url)).attempts _ _ _ _

theorem Contract.outward_callRetrying (c : Contract) (h : Handle σ) (method : String)
    (args : List Abi.Value) : Outward (c.callRetrying h method args) := by
  refine h.outward_retrying ?_
  refine .bind (outward_ofExcept _) fun f => .bind (outward_ofExcept _) fun data => ?_
  exact .bind (h.transport.outward_ask _ _ _) fun output => outward_ofExcept _

end ChainAccess
