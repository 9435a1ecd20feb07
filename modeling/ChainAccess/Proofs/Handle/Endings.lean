import ChainAccess.Proofs.Handle.Attempts
import ChainAccess.Proofs.Pool.Story
import Mathlib.Tactic.Common
-- Workflows that come to an end. Only a deadline cuts off what waits for answers
-- that come at last, and an attempt sets its own. A handle whose connections and
-- reports are answered when nothing hurries them so ends every operation.

namespace ChainAccess

variable {σ ε ε' α β : Type}

namespace Workflow

/-- Without a deadline the workflow is not cut off. -/
def Ends (m : Workflow σ ε α) : Prop := ∀ w, (m.run w).1 ≠ .expired

theorem ends_value (a : α) : Ends (value a : Workflow σ ε α) := by
  intro w h
  cases h

theorem ends_fail (e : ε) : Ends (fail e : Workflow σ ε α) := by
  intro w h
  cases h

theorem ends_note (e : Event) : Ends (note e : Workflow σ ε Unit) := by
  intro w h
  cases h

theorem ends_ofExcept (r : Except ε α) : Ends (ofExcept r : Workflow σ ε α) := by
  cases r with
  | ok a => exact ends_value a
  | error e => exact ends_fail e

theorem Ends.bind {m : Workflow σ ε α} {k : α → Workflow σ ε β} (hm : Ends m)
    (hk : ∀ a, Ends (k a)) : Ends (m >>= k) := by
  intro w h
  have hm' := hm w
  change (andThen m k none w).1 = .expired at h
  unfold andThen at h
  unfold Workflow.run at hm'
  rcases hrun : m none w with ⟨a | e | _, v⟩ <;> rw [hrun] at h hm'
  · exact hk a v h
  · cases h
  · exact hm' rfl

theorem Ends.caught {m : Workflow σ ε α} (hm : Ends m) :
    Ends (m.caught : Workflow σ ε' (Except ε α)) := by
  intro w h
  have hm' := hm w
  unfold Workflow.run Workflow.caught at h
  unfold Workflow.run at hm'
  rcases hrun : m none w with ⟨a | e | _, v⟩ <;> rw [hrun] at h hm'
  · cases h
  · cases h
  · exact hm' rfl

/-- A workflow with a time of its own ends when what goes on in its place does. -/
theorem Ends.within (m : Workflow σ ε α) (ms : Nat) {late : Workflow σ ε α} (hlate : Ends late) :
    Ends (m.within ms late) := by
  intro w h
  unfold Workflow.run at h
  rw [within_alone] at h
  rcases hrun : m (some (w.clock + ms)) w with ⟨a | e | _, v⟩ <;> rw [hrun] at h
  · cases h
  · cases h
  · exact hlate v h

theorem Ends.attempts {op : Workflow σ ε α} (hop : Ends op) (b : Backoff) (again : ε → Bool) :
    Ends (b.run again op) := by
  intro w h
  obtain ⟨n, v, -, -, hrun⟩ := b.exists_last again op w
  rw [hrun] at h
  exact hop v h

end Workflow

open Workflow

theorem Transport.ends_exchange {call : Option Nat → σ → Reply σ α}
    (hcall : ∀ s, (call none s).answer ≠ none) : Ends (exchange call) := by
  intro w h
  have hanswer := exchange_answer? call none w
  unfold Workflow.run at h
  rw [h] at hanswer
  exact hcall w.node hanswer.symm

namespace Handle

/-- Connections and reports are answered when nothing hurries them. -/
def Attends (h : Handle σ) : Prop :=
  ∀ s, (h.transport.connect none s).answer ≠ none ∧
    ∀ url, (h.transport.report url none s).answer ≠ none

/-- A pool attends to everything, whatever its endpoints answer. -/
theorem attends_pool {ω : Type} (wire : Pool.Wire ω) (timeout : Nat) (b : Backoff) :
    Attends ⟨Pool.transport wire, timeout, b⟩ := by
  have hanswered : ∀ {β : Type} (r : Pool.Routine (Except RpcError β)) (s : Pool.Site ω),
      (Pool.replyOf wire r none s).answer ≠ none := by
    intro β r s hnone
    obtain ⟨a, ha, -⟩ := Pool.Routine.tells_story wire r s
    have hrun : (r.run wire none s).1 = none := hnone
    rw [ha] at hrun
    cases hrun
  exact fun s => ⟨hanswered _ s, fun url => hanswered _ s⟩

theorem Attends.ends_bestUrl {h : Handle σ} (ha : h.Attends) : Ends h.bestUrl := by
  have hconnect : Ends h.transport.ensureConnected := by
    refine (Transport.ends_exchange fun s => (ha s).1).caught.bind fun r => ?_
    cases r with
    | ok _ => exact ends_note _
    | error e => exact (ends_note _).bind fun _ => ends_fail e
  refine hconnect.bind fun _ w h => ?_
  cases h

theorem Attends.ends_expire {h : Handle σ} (ha : h.Attends) (url : String) :
    Ends (h.expire url : Workflow σ RpcError α) := by
  have hreport : Ends (h.transport.reportFailure url) :=
    (ends_note _).bind fun _ => Transport.ends_exchange fun s => (ha s).2 url
  exact hreport.caught.bind fun _ => ends_fail _

/-- Every operation comes to an end, whatever happens in its attempts. -/
theorem Attends.ends_retrying {h : Handle σ} (ha : h.Attends) (op : Workflow σ RpcError α) :
    Ends (h.retrying op) :=
  Ends.attempts (ha.ends_bestUrl.bind fun url => Ends.within op _ (ha.ends_expire url)) _ _

end Handle

end ChainAccess
