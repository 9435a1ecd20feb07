import ChainAccess.Proofs.Pool.Outcomes
import Mathlib.Data.List.Basic
import Mathlib.Tactic.Common
-- All that sending a request can do when it has the pool for itself. A try
-- ends the call, or its endpoint is left: the endpoint counts as failed, the
-- others are searched, and the request goes to the one that was taken into
-- use. A batch is sent like any other request.

namespace ChainAccess

/-! ## What answers mean -/

namespace Http.Answer

/-- No answer came, or one for which another endpoint should be asked. -/
def Leaves : Answer → Prop
  | .failed _ => True
  | .answered status _ => status ∈ leavingStatuses

/-- The answer has a status of success and the JSON text of `v`. -/
def Delivers (v : Json) : Answer → Prop
  | .failed _ => False
  | .answered status body => isSuccess status = true ∧ Json.parse? body = some v

theorem leaves_iff (a : Answer) (url : String) :
    a.Leaves ↔ ∃ failure, a.verdict url = .leave failure := by
  cases a with
  | failed message => simp [Leaves, verdict]
  | answered status body =>
    have hdisjoint : status ∈ leavingStatuses → isSuccess status = false := by
      intro h
      revert status
      decide
    by_cases hs : isSuccess status = true
    · have hnot : status ∉ leavingStatuses := by
        intro h
        rw [hdisjoint h] at hs
        cases hs
      simp only [Leaves, hnot, false_iff, not_exists, verdict, hs, if_true]
      intro failure
      cases Json.parse? body <;> simp
    · by_cases hl : status ∈ leavingStatuses
      · simp [Leaves, verdict, hs, hl]
      · simp [Leaves, verdict, hs, hl]

theorem not_leaves_of_final {a : Answer} {url : String} {r : Except RpcError Json}
    (h : a.verdict url = .final r) : ¬ a.Leaves := by
  intro hl
  obtain ⟨failure, hf⟩ := (a.leaves_iff url).mp hl
  rw [h] at hf
  cases hf

theorem delivers_iff (a : Answer) (url : String) (v : Json) :
    a.Delivers v ↔ a.verdict url = .final (.ok v) := by
  cases a with
  | failed message => simp [Delivers, verdict]
  | answered status body =>
    by_cases hs : isSuccess status = true
    · simp only [Delivers, verdict, hs, if_true, true_and]
      cases Json.parse? body <;> simp
    · by_cases hl : status ∈ leavingStatuses
      · simp [Delivers, verdict, hs, hl]
      · simp [Delivers, verdict, hs, hl]

end Http.Answer

namespace Pool

open Routine

/-! ## Sending within a number of rotations -/

/-- What sending with so many rotations can do: the call ends with an answer,
the last rotation is spent, a rotation fails, or the request goes on to the
endpoint that the rotation took into use. -/
inductive Sent : Nat → Pool → List Encounter → Pool → Except RpcError Json → Prop
  | final {k p a r} : a.verdict p.activeUrl = .final r → Sent k p [.posted p.active a] p r
  | spent {p a failure} : a.verdict p.activeUrl = .leave failure →
      Sent 0 p [.posted p.active a] p (.error failure)
  | stuck {k p a failure es q e} : a.verdict p.activeUrl = .leave failure →
      Searched p.demote p.demote.alternatives es q (.error e) →
      Sent (k + 1) p (.posted p.active a :: es) q (.error failure)
  | on {k p a failure es m fs q r} : a.verdict p.activeUrl = .leave failure →
      Searched p.demote p.demote.alternatives es m (.ok ()) → Sent k m fs q r →
      Sent (k + 1) p (.posted p.active a :: (es ++ fs)) q r

section

variable {p q : Pool} {es : List Encounter}

theorem tells_sendOnce_bind {α : Type} {body : Json} {k : String × Http.Verdict → Routine α}
    {b : α} :
    (sendOnce body >>= k).Tells p es q b ↔
      ∃ a fs, es = .posted p.active a :: fs ∧
        (k (p.activeUrl, a.verdict p.activeUrl)).Tells p fs q b := Iff.rfl

theorem tells_sendWithin {body : Json} {k : Nat} {r : Except RpcError Json} :
    (sendWithin body k).Tells p es q r ↔ Sent k p es q r := by
  induction k generalizing p es with
  | zero =>
    simp only [sendWithin, tells_sendOnce_bind]
    constructor
    · rintro ⟨a, fs, rfl, h⟩
      cases ha : a.verdict p.activeUrl with
      | final result =>
        rw [ha] at h
        obtain ⟨rfl, rfl, rfl⟩ := h
        exact .final ha
      | leave failure =>
        rw [ha] at h
        obtain ⟨rfl, rfl, rfl⟩ := h
        exact .spent ha
    · intro h
      cases h with
      | @final _ _ a _ ha => exact ⟨a, [], rfl, by rw [ha]; exact ⟨rfl, rfl, rfl⟩⟩
      | @spent _ a _ ha => exact ⟨a, [], rfl, by rw [ha]; exact ⟨rfl, rfl, rfl⟩⟩
  | succ k ih =>
    simp only [sendWithin, tells_sendOnce_bind]
    constructor
    · rintro ⟨a, fs, rfl, h⟩
      cases ha : a.verdict p.activeUrl with
      | final result =>
        rw [ha] at h
        obtain ⟨rfl, rfl, rfl⟩ := h
        exact .final ha
      | leave failure =>
        simp only [ha, tells_bind, tells_rotate, ne_eq, not_true, false_and, or_false,
          true_and] at h
        obtain ⟨gs, m, u, hs, rfl, hsearch, h⟩ := h
        cases u with
        | ok u => exact .on ha hsearch (ih.mp h)
        | error e =>
          obtain ⟨rfl, rfl, rfl⟩ := h
          rw [List.append_nil]
          exact .stuck ha hsearch
    · intro h
      cases h with
      | @final _ _ a _ ha => exact ⟨a, [], rfl, by rw [ha]; exact ⟨rfl, rfl, rfl⟩⟩
      | @stuck _ _ a _ gs _ e ha hsearch =>
        refine ⟨a, gs, rfl, ?_⟩
        simp only [ha, tells_bind, tells_rotate]
        exact ⟨gs, q, .error e, [], by simp, Or.inl ⟨trivial, hsearch⟩, rfl, rfl, rfl⟩
      | @on _ _ a _ gs m hs _ _ ha hsearch h =>
        refine ⟨a, gs ++ hs, rfl, ?_⟩
        simp only [ha, tells_bind, tells_rotate]
        exact ⟨gs, m, .ok (), hs, rfl, Or.inl ⟨trivial, hsearch⟩, ih.mpr h⟩

theorem tells_send {body : Json} {r : Except RpcError Json} :
    (send body).Tells p es q r ↔ Sent (p.endpoints.length - 1) p es q r := by
  simp only [send, tells_view_bind]
  exact tells_sendWithin

end

/-! ## Calls that send a request -/

/-- The request that a call sends, if it sends one. -/
def Call.body? : Call → Option Json
  | .send request => some request
  | .sendBatch requests => some (.arr requests)
  | _ => none

/-- What a call makes of the answer to its request. -/
def Call.gain : Call → Except RpcError Json → Except RpcError Gain
  | .send _, r => r.map .answer
  | .sendBatch _, r => r.bind fun v => (Rpc.batchAnswers v).map .answers
  | _, _ => .ok .nothing

theorem tells_sending {c : Call} {body : Json} (hc : c.body? = some body) {p q : Pool}
    {es : List Encounter} {g : Except RpcError Gain} :
    c.routine.Tells p es q g ↔ ∃ r, Sent (p.endpoints.length - 1) p es q r ∧ g = c.gain r := by
  cases c with
  | ensure => cases hc
  | rotate url => cases hc
  | send request =>
    cases hc
    simp only [Call.routine, tells_bind_pure, tells_send]
    rfl
  | sendBatch requests =>
    cases hc
    have hbatch : sendBatch requests = (send (.arr requests) >>= fun r =>
        pure (r.bind Rpc.batchAnswers)) := by
      unfold sendBatch
      congr 1
      funext r
      cases r <;> rfl
    simp only [Call.routine, hbatch, tells_bind_pure, tells_send]
    constructor
    · rintro ⟨_, ⟨r, h, rfl⟩, rfl⟩
      exact ⟨r, h, by cases r <;> rfl⟩
    · rintro ⟨r, h, rfl⟩
      exact ⟨_, ⟨r, h, rfl⟩, by cases r <;> rfl⟩

/-- A call that sends a request ends with what it makes of the answer. -/
theorem sending_is_sent {ω : Type} {c : Call} {body : Json} (hc : c.body? = some body)
    (w : Wire ω) (s : Site ω) :
    ∃ r, (c.routine.run w none s).1 = some (c.gain r) ∧
      Sent (s.pool.endpoints.length - 1) s.pool (c.routine.story w s)
        (c.routine.run w none s).2.pool r := by
  obtain ⟨g, hg, ht⟩ := Routine.tells_story w c.routine s
  obtain ⟨r, h, rfl⟩ := (tells_sending hc).mp ht
  exact ⟨r, hg, h⟩

/-! ## Tries -/

/-- The places of the endpoints that requests went to, in order. -/
def tried (es : List Encounter) : List Nat :=
  es.filterMap fun
    | .posted i _ => some i
    | _ => none

@[simp] theorem tried_nil : tried [] = [] := rfl

@[simp] theorem tried_append (es fs : List Encounter) : tried (es ++ fs) = tried es ++ tried fs :=
  List.filterMap_append

@[simp] theorem tried_posted (i : Nat) (a : Http.Answer) (es : List Encounter) :
    tried (.posted i a :: es) = i :: tried es := rfl

@[simp] theorem tried_checked (i : Nat) (r : Except RpcError Nat) (es : List Encounter) :
    tried (.checked i r :: es) = tried es := rfl

@[simp] theorem tried_updated (url : String) (r : Except RpcError Unit) (es : List Encounter) :
    tried (.updated url r :: es) = tried es := rfl

theorem mem_tried {es : List Encounter} {i : Nat} : i ∈ tried es ↔ ∃ a, .posted i a ∈ es := by
  simp only [tried, List.mem_filterMap]
  constructor
  · rintro ⟨e, he, hi⟩
    cases e with
    | posted j a => cases hi; exact ⟨a, he⟩
    | checked j r => cases hi
    | updated url r => cases hi
  · rintro ⟨a, he⟩
    exact ⟨_, he, rfl⟩

section

variable {p q : Pool} {es : List Encounter} {r : Except RpcError Unit} {candidates : List Nat}

theorem Refusals.tried_eq_nil (h : Refusals candidates es) : tried es = [] := by
  induction h with
  | nil => rfl
  | cons he _ ih => obtain ⟨failure, rfl⟩ := he; exact ih

theorem Searched.tried_eq_nil (h : Searched p candidates es q r) : tried es = [] := by
  cases h with
  | none hr => exact hr.tried_eq_nil
  | taken hc hr => simp [hr.tried_eq_nil]
  | unusable hc hr => simp [hr.tried_eq_nil]

/-- What a search takes into use is one of its candidates. -/
theorem Searched.active_mem (h : Searched p candidates es q (.ok ())) : q.active ∈ candidates := by
  cases h with
  | taken hc hr => simp [hc]

/-- Sending makes one try more than there are rotations, at most. -/
theorem Sent.tried_length_le {k : Nat} {r : Except RpcError Json} (h : Sent k p es q r) :
    (tried es).length ≤ k + 1 := by
  induction h with
  | final ha => simp
  | spent ha => simp
  | stuck ha hsearch => simp [hsearch.tried_eq_nil]
  | on ha hsearch _ ih => simpa [hsearch.tried_eq_nil] using ih

end

end Pool

end ChainAccess
