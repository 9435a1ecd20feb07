import ChainAccess.Proofs.Pool.Requests
import Mathlib.Data.List.Induction
import Mathlib.Tactic.Common
-- What the pool remembers of failed requests. Leaving an endpoint for another
-- one clears its flags, so that a failure is remembered until the endpoint
-- passes a check. A call whose last rotation is spent leaves no endpoint: it
-- ends with the failure, and the flags of the endpoint it tried last stay as
-- they are. These calls, and no others, make the pool forget.

namespace ChainAccess.Pool

variable {p q : Pool} {hs es fs : List Encounter} {candidates : List Nat} {i : Nat}

/-! ## Failing endpoints -/

/-- A request to the endpoint at a place, or a check that it passed. -/
def Encounter.Renews (i : Nat) : Encounter → Prop
  | .posted j _ => j = i
  | .checked j (.ok _) => j = i
  | _ => False

/-- The last request to the endpoint at a place was one to leave it for, and
it passed no check since. -/
def Failing (i : Nat) (es : List Encounter) : Prop :=
  ∃ pre a post, es = pre ++ .posted i a :: post ∧ a.Leaves ∧ ∀ e ∈ post, ¬ e.Renews i

theorem failing_append :
    Failing i (es ++ fs) ↔ Failing i fs ∨ (Failing i es ∧ ∀ e ∈ fs, ¬ e.Renews i) := by
  constructor
  · rintro ⟨pre, a, post, heq, ha, hpost⟩
    rcases List.append_eq_append_iff.mp heq with ⟨cs, rfl, hcs⟩ | ⟨cs, rfl, hcs⟩
    · exact Or.inl ⟨cs, a, post, hcs, ha, hpost⟩
    · cases cs with
      | nil => exact Or.inl ⟨[], a, post, hcs.symm, ha, hpost⟩
      | cons c cs =>
        obtain ⟨rfl, rfl⟩ := List.cons.inj hcs
        exact Or.inr ⟨⟨pre, a, cs, rfl, ha, fun e he => hpost e (List.mem_append_left _ he)⟩,
          fun e he => hpost e (List.mem_append_right _ he)⟩
  · rintro (⟨pre, a, post, rfl, ha, hpost⟩ | ⟨⟨pre, a, post, rfl, ha, hpost⟩, hfs⟩)
    · exact ⟨es ++ pre, a, post, by simp, ha, hpost⟩
    · refine ⟨pre, a, post ++ fs, by simp, ha, ?_⟩
      intro e he
      rcases List.mem_append.mp he with he | he
      · exact hpost e he
      · exact hfs e he

theorem Failing.mem_tried (h : Failing i es) : i ∈ tried es := by
  obtain ⟨pre, a, post, rfl, -, -⟩ := h
  simp

/-- After a request an endpoint is failing when the request was one to leave
it for, and any other when it was failing before. -/
theorem failing_append_posted {j : Nat} {a : Http.Answer} :
    Failing i (es ++ [.posted j a]) ↔ (j = i ∧ a.Leaves) ∨ (j ≠ i ∧ Failing i es) := by
  have hlast : Failing i [.posted j a] ↔ j = i ∧ a.Leaves := by
    constructor
    · rintro ⟨pre, b, post, heq, hb, -⟩
      cases pre with
      | nil => cases heq; exact ⟨rfl, hb⟩
      | cons c pre => simp at heq
    · rintro ⟨rfl, ha⟩
      exact ⟨[], a, [], rfl, ha, by simp⟩
  rw [failing_append, hlast]
  simp only [List.mem_singleton, forall_eq, Encounter.Renews]
  tauto

/-- An endpoint is failing after a search when it was failing before and is
not the one that passed its check. -/
theorem Searched.failing {r : Except RpcError Unit} (h : Searched p candidates fs q r) :
    Failing i (es ++ fs) ↔ Failing i es ∧ ∀ e ∈ fs, ¬ e.Renews i := by
  rw [failing_append]
  constructor
  · rintro (hf | hf)
    · have hmem := hf.mem_tried
      rw [h.tried_eq_nil] at hmem
      cases hmem
    · exact hf
  · exact Or.inr

/-! ## Memory -/

/-- Every failing endpoint counts as unhealthy, and the pool is not verified
when it is the one in use. -/
def Remembers (es : List Encounter) (p : Pool) : Prop :=
  ∀ i, Failing i es → p.isHealthy i = false ∧ (i = p.active → p.verified = false)

theorem remembers_nil (p : Pool) : Remembers [] p := by
  intro i h
  cases h.mem_tried

theorem Remembers.demote (h : Remembers es p) : Remembers es p.demote := by
  intro i hi
  simp [(h i hi).1]

/-- A search of a pool that is not verified forgets nothing. -/
theorem Remembers.searched {r : Except RpcError Unit} (h : Remembers es p)
    (hv : p.verified = false) (hs : Searched p candidates fs q r) : Remembers (es ++ fs) q := by
  intro i hi
  obtain ⟨hi, hnew⟩ := hs.failing.mp hi
  have hp := (h i hi).1
  have hne : ∀ j ms, .checked j (.ok ms) ∈ fs → i ≠ j := by
    rintro j ms hmem rfl
    exact hnew _ hmem rfl
  cases hs with
  | none hr => simp [hp, hv]
  | @taken missed j rest fs ms hc hr =>
    have hij := hne j ms (by simp)
    simp [markReached_isHealthy_ne _ _ _ _ hij, hp, hij]
  | @unusable missed j rest fs ms failure hc hr =>
    have hij := hne j ms (by simp)
    simp [markReached_isHealthy_ne _ _ _ _ hij, hp, hv]

theorem Remembers.left (h : Remembers es p) (a : Http.Answer) :
    Remembers (es ++ [.posted p.active a]) p.demote := by
  intro i hi
  rcases failing_append_posted.mp hi with ⟨rfl, -⟩ | ⟨-, hi⟩
  · simp
  · exact h.demote i hi

/-- A request that ends the call forgets nothing exactly when it was not one
to leave the endpoint for, or the flags were cleared before it. -/
theorem Remembers.stays_iff (h : Remembers es p) (a : Http.Answer) :
    Remembers (es ++ [.posted p.active a]) p ↔
      (a.Leaves → p.isHealthy p.active = false ∧ p.verified = false) := by
  constructor
  · intro h' ha
    obtain ⟨hh, hv⟩ := h' p.active (failing_append_posted.mpr (Or.inl ⟨rfl, ha⟩))
    exact ⟨hh, hv rfl⟩
  · intro hcleared i hi
    rcases failing_append_posted.mp hi with ⟨rfl, ha⟩ | ⟨-, hi⟩
    · exact ⟨(hcleared ha).1, fun _ => (hcleared ha).2⟩
    · exact h i hi

/-! ## What a call remembers -/

/-- All tries of a call with so many rotations fail, one more than there are
rotations, and the endpoint of the last one has a flag set: it was taken into
use by a rotation, or its flags were not cleared when the call began. -/
def Overlooks (rotations : Nat) (p : Pool) (es : List Encounter) : Prop :=
  (tried es).length = rotations + 1 ∧ (∀ i a, .posted i a ∈ es → a.Leaves) ∧
    (1 ≤ rotations ∨ p.isHealthy p.active = true ∨ p.verified = true)

theorem Searched.active_isHealthy (h : Searched p candidates es q (.ok ()))
    (hc : ∀ i ∈ candidates, i < p.endpoints.length) : q.isHealthy q.active = true := by
  cases h with
  | @taken missed j rest fs ms heq hr =>
    have hj : j < p.endpoints.length := hc j (by simp [heq])
    rw [activate_isHealthy, activate_active]
    exact markReached_isHealthy_self _ _ _ (by simpa using hj)

/-- A rotation hands the question on to the rest of the call. -/
theorem overlooks_on {k : Nat} {a : Http.Answer} {m : Pool} (ha : a.Leaves)
    (hs : Searched p.demote p.demote.alternatives es m (.ok ())) :
    Overlooks (k + 1) p (.posted p.active a :: (es ++ fs)) ↔ Overlooks k m fs := by
  have hhealthy : m.isHealthy m.active = true :=
    hs.active_isHealthy fun i hi => ((mem_alternatives _ _).mp hi).1
  have hes : ∀ i b, .posted i b ∉ es := by
    intro i b hb
    have hmem := mem_tried.mpr ⟨b, hb⟩
    rw [hs.tried_eq_nil] at hmem
    cases hmem
  simp only [Overlooks, tried_posted, tried_append, hs.tried_eq_nil, List.nil_append,
    List.length_cons, Nat.add_right_cancel_iff, List.mem_cons, List.mem_append, hes, false_or,
    hhealthy, Nat.le_add_left, true_or, or_true, and_true, Encounter.posted.injEq]
  constructor
  · rintro ⟨hlen, hall⟩
    exact ⟨hlen, fun i b hb => hall i b (Or.inr hb)⟩
  · rintro ⟨hlen, hall⟩
    refine ⟨hlen, fun i b hb => ?_⟩
    rcases hb with ⟨-, rfl⟩ | hb
    · exact ha
    · exact hall i b hb

theorem Sent.remembers_iff {k : Nat} {r : Except RpcError Json} (h : Sent k p es q r)
    (hr : Remembers hs p) : Remembers (hs ++ es) q ↔ ¬ Overlooks k p es := by
  induction h generalizing hs with
  | @final k p a r ha =>
    have hstay := Http.Answer.not_leaves_of_final ha
    rw [hr.stays_iff]
    simp [Overlooks, hstay]
  | @spent p a failure ha =>
    -- the one way out on which a failing endpoint is not left
    have hl : a.Leaves := (a.leaves_iff p.activeUrl).mpr ⟨failure, ha⟩
    rw [hr.stays_iff]
    simp [Overlooks, hl]
  | @stuck k p a failure es q e ha hsearch =>
    rw [List.append_cons]
    refine iff_of_true ((hr.left a).searched rfl hsearch) ?_
    rintro ⟨hlen, -⟩
    simp [hsearch.tried_eq_nil] at hlen
  | @on k p a failure es m fs q r ha hsearch _ ih =>
    have hl : a.Leaves := (a.leaves_iff p.activeUrl).mpr ⟨failure, ha⟩
    rw [overlooks_on hl hsearch, List.append_cons, ← List.append_assoc]
    exact ih ((hr.left a).searched rfl hsearch)

theorem not_overlooks {k : Nat} (h : tried es = []) : ¬ Overlooks k p es := by
  rintro ⟨hlen, -⟩
  simp [h] at hlen

theorem call_remembers_iff {c : Call} {g : Except RpcError Gain} (h : c.routine.Tells p es q g)
    (hr : Remembers hs p) :
    Remembers (hs ++ es) q ↔ ¬ Overlooks (p.endpoints.length - 1) p es := by
  cases c with
  | send request =>
    obtain ⟨r, hsent, -⟩ := (tells_sending rfl).mp h
    exact hsent.remembers_iff hr
  | sendBatch requests =>
    obtain ⟨r, hsent, -⟩ := (tells_sending rfl).mp h
    exact hsent.remembers_iff hr
  | ensure =>
    obtain ⟨r, h, -⟩ := Routine.tells_bind_pure.mp h
    rcases tells_ensureConnected.mp h with ⟨-, rfl, rfl, -⟩ | ⟨hv, hsearch⟩
    · exact iff_of_true (by simpa using hr) (not_overlooks rfl)
    · exact iff_of_true (hr.searched hv hsearch) (not_overlooks hsearch.tried_eq_nil)
  | rotate url =>
    obtain ⟨r, h, -⟩ := Routine.tells_bind_pure.mp h
    rcases tells_rotate.mp h with ⟨-, hsearch⟩ | ⟨-, rfl, rfl, -⟩
    · exact iff_of_true (hr.demote.searched rfl hsearch) (not_overlooks hsearch.tried_eq_nil)
    · exact iff_of_true (by simpa using hr) (not_overlooks rfl)

/-! ## Calls one after another -/

section

variable {ω : Type} (w : Wire ω)

/-- The site after calls that follow one another. -/
def afterCalls (s : Site ω) (calls : List Call) : Site ω :=
  calls.foldl (fun s c => (c.routine.run w none s).2) s

/-- All that calls meet that follow one another. -/
def chronicle : Site ω → List Call → List Encounter
  | _, [] => []
  | s, c :: calls => c.routine.story w s ++ chronicle (c.routine.run w none s).2 calls

theorem chronicle_snoc (s : Site ω) (calls : List Call) (c : Call) :
    chronicle w s (calls ++ [c]) =
      chronicle w s calls ++ c.routine.story w (afterCalls w s calls) := by
  induction calls generalizing s with
  | nil => simp [chronicle, afterCalls]
  | cons d calls ih => simp [chronicle, afterCalls, ih]

theorem afterCalls_snoc (s : Site ω) (calls : List Call) (c : Call) :
    afterCalls w s (calls ++ [c]) = (c.routine.run w none (afterCalls w s calls)).2 := by
  simp [afterCalls]

/-- One more call forgets nothing exactly when it overlooks nothing. -/
theorem remembers_snoc_iff {s : Site ω} {calls : List Call} (c : Call)
    (hr : Remembers (chronicle w s calls) (afterCalls w s calls).pool) :
    Remembers (chronicle w s (calls ++ [c])) (afterCalls w s (calls ++ [c])).pool ↔
      ¬ Overlooks ((afterCalls w s calls).pool.endpoints.length - 1) (afterCalls w s calls).pool
        (c.routine.story w (afterCalls w s calls)) := by
  obtain ⟨g, -, ht⟩ := Routine.tells_story w c.routine (afterCalls w s calls)
  rw [chronicle_snoc, afterCalls_snoc]
  exact call_remembers_iff ht hr

/-! ## The laws -/

/-- The pool remembers every failure after each of some calls exactly when
none of them overlooks one: a call does that whose tries are as many as the
endpoints and all fail, unless the only endpoint had its flags cleared when
the call began. -/
theorem failures_are_remembered_unless_overlooked (s : Site ω) (calls : List Call) :
    (∀ done rest, calls = done ++ rest →
      Remembers (chronicle w s done) (afterCalls w s done).pool) ↔
    (∀ done c rest, calls = done ++ c :: rest →
      ¬ Overlooks ((afterCalls w s done).pool.endpoints.length - 1) (afterCalls w s done).pool
        (c.routine.story w (afterCalls w s done))) := by
  constructor
  · rintro hall done c rest rfl
    have hnext := hall (done ++ [c]) rest (by simp)
    exact (remembers_snoc_iff w c (hall done (c :: rest) rfl)).mp hnext
  · intro hnone done
    induction done using List.reverseRecOn with
    | nil => exact fun _ _ => remembers_nil _
    | append_singleton done c ih =>
      intro rest heq
      rw [List.append_assoc] at heq
      exact (remembers_snoc_iff w c (ih _ heq)).mpr (hnone done c rest heq)

end

/-- A pool of one endpoint. -/
def onlyOne : Pool := ⟨[⟨"http://a", 90, true, none⟩], 0, false⟩

/-- The only endpoint passes its check, and then it is unavailable. -/
def lastTry : List Encounter :=
  [.checked 0 (.ok 0), .updated "http://a" (.ok ()), .posted 0 (.answered 503 "")]

/-- The failure of the only endpoint is forgotten. -/
theorem the_last_try_is_forgotten :
    let s : Site (List Encounter) := ⟨onlyOne, lastTry, 0, []⟩
    let calls : List Call := [.ensure, .send .null]
    Failing 0 (chronicle replay s calls) ∧ (afterCalls replay s calls).pool.isHealthy 0 = true ∧
      (afterCalls replay s calls).pool.verified = true ∧
      ¬ Remembers (chronicle replay s calls) (afterCalls replay s calls).pool := by
  intro s calls
  let s₁ : Site (List Encounter) := ⟨⟨[⟨"http://a", 90, true, some 0⟩], 0, true⟩,
    [.posted 0 (.answered 503 "")], 0, [.checked "http://a", .updated "http://a"]⟩
  have hensure : (Call.ensure.routine.run replay none s).2 = s₁ := rfl
  have hchronicle : chronicle replay s calls = lastTry := by
    simp only [calls, chronicle, hensure]
    rfl
  have hpool : (afterCalls replay s calls).pool = s₁.pool := by
    simp only [calls, afterCalls, List.foldl_cons, List.foldl_nil, hensure]
    rfl
  rw [hchronicle, hpool]
  have hfail : Failing 0 lastTry :=
    ⟨[.checked 0 (.ok 0), .updated "http://a" (.ok ())], .answered 503 "", [], rfl,
      by simp [Http.Answer.Leaves, Http.leavingStatuses], by simp⟩
  refine ⟨hfail, rfl, rfl, fun hr => ?_⟩
  cases (hr 0 hfail).1

end ChainAccess.Pool
