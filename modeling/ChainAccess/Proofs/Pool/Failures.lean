import ChainAccess.Proofs.Pool.Interleaving
import ChainAccess.Proofs.Rpc.Words
import Mathlib.Tactic.Common
-- Failures with a status that requests over a pool come back with. Whatever the
-- tasks on the pool do, and whatever they hear, such a failure was made of an answer
-- of that status, and its text is the reason of the status and the body.

namespace ChainAccess.Pool

open Routine

variable {α β : Type}

/-! ## What a routine can come back with -/

/-- Whatever the routine meets, it comes back with such a value. -/
def Routine.Brings (P : α → Prop) : Routine α → Prop
  | .done a => P a
  | .step _ next => ∀ p, (next p).Brings P
  | .acquire next => next.Brings P
  | .release next => next.Brings P
  | .check _ _ next => ∀ r, (next r).Brings P
  | .update _ next => ∀ r, (next r).Brings P
  | .post _ _ next => ∀ a, (next a).Brings P

theorem brings_of_forall {P : α → Prop} (hP : ∀ a, P a) (r : Routine α) : r.Brings P := by
  induction r with
  | done a => exact hP a
  | step change next ih => exact ih
  | acquire next ih => exact ih
  | release next ih => exact ih
  | check place url next ih => exact ih
  | update url next ih => exact ih
  | post url body next ih => exact ih

theorem Routine.Brings.bind {P : α → Prop} {Q : β → Prop} {r : Routine α} {k : α → Routine β}
    (hr : r.Brings P) (hk : ∀ a, P a → (k a).Brings Q) : (r >>= k).Brings Q := by
  induction r with
  | done a => exact hk a hr
  | step change next ih => exact fun p => ih p (hr p)
  | acquire next ih => exact ih hr
  | release next ih => exact ih hr
  | check place url next ih => exact fun r => ih r (hr r)
  | update url next ih => exact fun r => ih r (hr r)
  | post url body next ih => exact fun a => ih a (hr a)

theorem Routine.Brings.imp {P Q : α → Prop} {r : Routine α} (hr : r.Brings P)
    (hPQ : ∀ a, P a → Q a) : r.Brings Q := by
  induction r with
  | done a => exact hPQ a hr
  | step change next ih => exact fun p => ih p (hr p)
  | acquire next ih => exact ih hr
  | release next ih => exact ih hr
  | check place url next ih => exact fun r => ih r (hr r)
  | update url next ih => exact fun r => ih r (hr r)
  | post url body next ih => exact fun a => ih a (hr a)

/-! ## Failures with a status -/

/-- A failure with a status has the text that an answer of the status gives. -/
def OfStatus (r : Except RpcError α) : Prop :=
  ∀ status message, r = .error (.http status message) →
    ∃ body, message = Http.statusText status body

/-- What a verdict makes of a request, final or not, is of a status. -/
def VerdictOfStatus : Http.Verdict → Prop
  | .final result => OfStatus result
  | .leave failure => OfStatus (.error failure : Except RpcError Json)

theorem verdict_ofStatus (url : String) (answer : Http.Answer) :
    VerdictOfStatus (answer.verdict url) := by
  unfold Http.Answer.verdict
  cases answer with
  | failed message =>
    intro status message' h
    cases h
  | answered status body =>
    dsimp only
    split
    · cases Json.parse? body with
      | some v =>
        intro status' message h
        cases h
      | none =>
        intro status' message h
        cases h
    · split
      · intro status' message h
        cases h
        exact ⟨body, rfl⟩
      · intro status' message h
        cases h
        exact ⟨body, rfl⟩

/-- The statuses of a failing gateway make the pool leave the endpoint. -/
theorem verdict_of_gateway {status : Nat} (hstatus : status ∈ RpcError.gatewayStatuses)
    (url body : String) : (Http.Answer.answered status body).verdict url =
      .leave (.http status (Http.statusText status body)) := by
  simp only [RpcError.gatewayStatuses, List.mem_cons, List.not_mem_nil, or_false] at hstatus
  rcases hstatus with rfl | rfl | rfl <;> rfl

theorem brings_sendOnce (body : Json) : (sendOnce body).Brings fun r => VerdictOfStatus r.2 :=
  fun _ answer => verdict_ofStatus _ answer

theorem brings_sendWithin (body : Json) (rotations : Nat) :
    (sendWithin body rotations).Brings OfStatus := by
  induction rotations with
  | zero =>
    refine (brings_sendOnce body).bind fun r hr => ?_
    rcases r with ⟨url, result | failure⟩
    · exact hr
    · exact hr
  | succ rotations ih =>
    refine (brings_sendOnce body).bind fun r hr => ?_
    rcases r with ⟨url, result | failure⟩
    · exact hr
    · refine (brings_of_forall (P := fun _ => True) (fun _ => trivial) (rotate url)).bind
        fun left _ => ?_
      cases left with
      | ok _ => exact ih
      | error _ => exact hr

theorem batchAnswers_ofStatus (answer : Json) : OfStatus (Rpc.batchAnswers answer) := by
  intro status message h
  unfold Rpc.batchAnswers at h
  split at h
  · cases h
  · split at h
    · cases h
    · cases h
  · cases h

theorem brings_sendBatch (requests : List Json) : (sendBatch requests).Brings OfStatus := by
  have hsend : (send (.arr requests)).Brings OfStatus := fun p => brings_sendWithin _ _
  refine hsend.bind fun r hr => ?_
  cases r with
  | ok answer => exact batchAnswers_ofStatus answer
  | error e =>
    intro status message h
    cases h
    exact hr status message rfl

/-! ## Calls side by side -/

/-- The call sends a request or a batch. -/
def Call.Sends : Call → Prop
  | .send _ => True
  | .sendBatch _ => True
  | _ => False

theorem OfStatus.map {r : Except RpcError α} (h : OfStatus r) (f : α → β) :
    OfStatus (r.map f) := by
  intro status message hmap
  cases r with
  | ok a => cases hmap
  | error e =>
    cases hmap
    exact h status message rfl

theorem Call.Sends.brings {c : Call} (h : c.Sends) : c.routine.Brings OfStatus := by
  cases c with
  | ensure => cases h
  | rotate url => cases h
  | send request =>
    have hsend : (Pool.send request).Brings OfStatus := fun p => brings_sendWithin _ _
    exact hsend.bind fun r hr => hr.map _
  | sendBatch requests => exact (brings_sendBatch requests).bind fun r hr => hr.map _

namespace Scene

variable {s t : Scene α} {P : Nat → α → Prop}

/-- Each task still comes back with a value of its kind. -/
def Brings (P : Nat → α → Prop) (s : Scene α) : Prop :=
  ∀ (i : Nat) (r : Routine α) (holds : Bool), s.tasks[i]? = some ⟨some r, holds⟩ → r.Brings (P i)

theorem Brings.put (h : s.Brings P) {i : Nat} {q : Pool} {locked : Bool} {r : Routine α}
    {holds : Bool} (hr : r.Brings (P i)) :
    ({ s with pool := q, locked := locked }.put i ⟨some r, holds⟩).Brings P := by
  intro j r' holds' hj
  rcases task_put hj with ⟨rfl, heq⟩ | ⟨-, hj⟩
  · cases heq
    exact hr
  · exact h j r' holds' hj

theorem Brings.move {i : Nat} {e : Event} (h : s.Brings P) (hm : Move s i e t) : t.Brings P := by
  cases hm with
  | look ht =>
    have hr := h i _ _ ht
    exact h.put (hr s.pool)
  | @lock next _ ht =>
    have hr : next.Brings (P i) := (h i _ _ ht :)
    exact h.put hr
  | @unlock next _ ht =>
    have hr : next.Brings (P i) := (h i _ _ ht :)
    exact h.put hr
  | check answer ht =>
    have hr := h i _ _ ht
    exact h.put (hr answer)
  | update answer ht =>
    have hr := h i _ _ ht
    exact h.put (hr answer)
  | post answer ht =>
    have hr := h i _ _ ht
    exact h.put (hr answer)
  | drop ht =>
    intro j r holds hj
    rcases task_put hj with ⟨-, heq⟩ | ⟨-, hj⟩
    · cases heq
    · exact h j r holds hj

theorem Brings.interleaving {es : List (Nat × Event)} (h : s.Brings P)
    (hi : Interleaving s es t) : t.Brings P := by
  induction hi with
  | nil => exact h
  | snoc _ hm ih => exact ih.move hm

end Scene

/-- A request that comes back with a failure with a status was answered with the
status, whatever else goes on. -/
theorem sent_ofStatus {p : Pool} {calls : List Call} {es : List (Nat × Event)}
    {t : Scene (Except RpcError Gain)}
    (hi : (Scene.start p (calls.map Call.routine)).Interleaving es t) {i : Nat} {c : Call}
    (hc : calls[i]? = some c) (hsends : c.Sends) {holds : Bool} {r : Except RpcError Gain}
    (ht : t.tasks[i]? = some ⟨some (.done r), holds⟩) : OfStatus r := by
  have hstart : (Scene.start p (calls.map Call.routine)).Brings fun j r =>
      j = i → OfStatus r := by
    intro j r holds hj
    by_cases hji : j = i
    · subst hji
      simp only [Scene.start, List.map_map, List.getElem?_map, hc, Option.map_some,
        Option.some.injEq] at hj
      cases hj
      exact hsends.brings.imp fun _ hr _ => hr
    · exact brings_of_forall (fun _ hr => absurd hr hji) r
  exact hstart.interleaving hi i _ _ ht rfl

end ChainAccess.Pool
