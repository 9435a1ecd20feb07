import ChainAccess.Proofs.Pool.Departure
import ChainAccess.Proofs.Pool.Outcomes
import ChainAccess.Proofs.Pool.Solo
import Mathlib.Data.List.Nodup
import Mathlib.Tactic.Common
-- The choice of an endpoint by a task that has the pool for itself. The candidates are
-- checked in their order up to the first that passes, which is taken into use. What was
-- checked before it counts as failed, and so does the endpoint that a rotation leaves;
-- nothing else about any endpoint changes.

namespace ChainAccess

/-- The endpoint after a failure. -/
def Endpoint.failed (e : Endpoint) : Endpoint := { e with healthy := false }

/-- The endpoint after a check that it passed. -/
def Endpoint.reached (e : Endpoint) (ms : Nat) : Endpoint :=
  { e with healthy := true, latency := some ms }

namespace Pool

variable {ω α β : Type} {p q : Pool} {w : Wire ω} {s : Site ω} {i j ms : Nat}
  {failed known missed candidates : List Nat} {es : List Encounter}

/-! ## Endpoints after checks -/

theorem getElem?_modify_ite (l : List Endpoint) (f : Endpoint → Endpoint) (i j : Nat) :
    (l.modify i f)[j]? = if j = i then l[j]?.map f else l[j]? := by
  rw [List.getElem?_modify]
  by_cases h : j = i
  · subst h
    simp
  · rw [if_neg h]
    simp [Ne.symm h]

theorem refused_getElem? (p : Pool) (failed : List Nat) (j : Nat) :
    (p.refused failed).endpoints[j]? =
      if j ∈ failed then p.endpoints[j]?.map Endpoint.failed else p.endpoints[j]? := by
  induction failed generalizing p with
  | nil => simp
  | cons i failed ih =>
    have hmark : (p.markFailed i).endpoints[j]? =
        if j = i then p.endpoints[j]?.map Endpoint.failed else p.endpoints[j]? :=
      getElem?_modify_ite p.endpoints Endpoint.failed i j
    -- a second failure changes nothing more
    have htwice : Endpoint.failed ∘ Endpoint.failed = Endpoint.failed := rfl
    rw [refused_cons, ih, hmark]
    by_cases hij : j = i
    · by_cases hj : j ∈ failed
      · rw [if_pos hj, if_pos hij, Option.map_map, htwice, if_pos (List.mem_cons_of_mem _ hj)]
      · rw [if_neg hj, if_pos hij, if_pos (List.mem_cons.mpr (Or.inl hij))]
    · simp [hij]

theorem markReached_getElem? (p : Pool) (i ms j : Nat) :
    (p.markReached i ms).endpoints[j]? =
      if j = i then p.endpoints[j]?.map (·.reached ms) else p.endpoints[j]? :=
  getElem?_modify_ite p.endpoints (·.reached ms) i j

theorem refused_active (p : Pool) (failed : List Nat) : (p.refused failed).active = p.active := by
  induction failed generalizing p with
  | nil => rfl
  | cons i failed ih => exact ih (p.markFailed i)

/-- A search begins with some endpoints that are known to have failed, and with the one in
use not verified. -/
structure Begun (p₀ : Pool) (known : List Nat) (p : Pool) : Prop where
  active : p.active = p₀.active
  verified : p.verified = false
  endpoints : p.endpoints = (p₀.refused known).endpoints

theorem Begun.refused_endpoints {p₀ : Pool} (h : Begun p₀ known p) (missed : List Nat) :
    (p.refused missed).endpoints = (p₀.refused (known ++ missed)).endpoints := by
  apply List.ext_getElem?
  intro j
  have happend : p₀.refused (known ++ missed) = (p₀.refused known).refused missed :=
    List.foldl_append
  rw [happend, refused_getElem?, refused_getElem?, h.endpoints]

theorem Begun.urlAt_eq {p₀ : Pool} (h : Begun p₀ known p) : p.urlAt = p₀.urlAt := by
  have hconfigured : p.configured = p₀.configured := by
    rw [← refused_configured p₀ known]
    unfold configured
    rw [h.endpoints]
  exact funext (urlAt_eq_of_configured hconfigured)

/-- A rotation begins with the failure of the endpoint that it leaves. -/
theorem begun_demote (p : Pool) : Begun p [p.active] p.demote := ⟨rfl, rfl, rfl⟩

/-! ## What a choice leaves -/

/-- The endpoint at a place is taken into use after some failed. -/
structure TakesUp (p : Pool) (failed : List Nat) (i ms : Nat) (q : Pool) : Prop where
  inUse : q.active = i ∧ q.verified = true
  chosen : ∃ e, p.endpoints[i]? = some e ∧ q.endpoints[i]? = some (e.reached ms)
  missed : ∀ j ∈ failed, ∃ e, p.endpoints[j]? = some e ∧ q.endpoints[j]? = some e.failed
  others : ∀ j, j ≠ i → j ∉ failed → q.endpoints[j]? = p.endpoints[j]?

/-- The endpoint in use stays, not verified, after some failed. -/
structure GivesUp (p : Pool) (failed : List Nat) (q : Pool) : Prop where
  inUse : q.active = p.active ∧ q.verified = false
  missed : ∀ j ∈ failed, ∃ e, p.endpoints[j]? = some e ∧ q.endpoints[j]? = some e.failed
  others : ∀ j, j ∉ failed → q.endpoints[j]? = p.endpoints[j]?

theorem takesUp_of_endpoints (hq : q.endpoints = ((p.refused failed).markReached i ms).endpoints)
    (huse : q.active = i ∧ q.verified = true) (hi : i < p.endpoints.length) (hnot : i ∉ failed)
    (hfailed : ∀ j ∈ failed, j < p.endpoints.length) : TakesUp p failed i ms q := by
  have hget : ∀ j, q.endpoints[j]? =
      if j = i then (p.refused failed).endpoints[j]?.map (·.reached ms)
      else (p.refused failed).endpoints[j]? := by
    intro j
    rw [hq, markReached_getElem?]
  refine ⟨huse, ?_, ?_, ?_⟩
  · refine ⟨p.endpoints[i], List.getElem?_eq_getElem hi, ?_⟩
    rw [hget, if_pos rfl, refused_getElem?, if_neg hnot, List.getElem?_eq_getElem hi]
    rfl
  · intro j hj
    have hne : j ≠ i := by
      rintro rfl
      exact hnot hj
    obtain ⟨e, he⟩ : ∃ e, p.endpoints[j]? = some e :=
      ⟨_, List.getElem?_eq_getElem (hfailed j hj)⟩
    refine ⟨e, he, ?_⟩
    rw [hget, if_neg hne, refused_getElem?, if_pos hj, he]
    rfl
  · intro j hne hj
    rw [hget, if_neg hne, refused_getElem?, if_neg hj]

theorem givesUp_of_endpoints (hq : q.endpoints = (p.refused failed).endpoints)
    (huse : q.active = p.active ∧ q.verified = false)
    (hfailed : ∀ j ∈ failed, j < p.endpoints.length) : GivesUp p failed q := by
  refine ⟨huse, ?_, ?_⟩
  · intro j hj
    obtain ⟨e, he⟩ : ∃ e, p.endpoints[j]? = some e :=
      ⟨_, List.getElem?_eq_getElem (hfailed j hj)⟩
    refine ⟨e, he, ?_⟩
    rw [hq, refused_getElem?, if_pos hj, he]
    rfl
  · intro j hj
    rw [hq, refused_getElem?, if_neg hj]

/-! ## Candidates in turn -/

/-- All endpoints but the one in use, those that count as healthy first, and in the
configured order otherwise. -/
structure InTurn (p : Pool) (candidates : List Nat) : Prop where
  mem_iff : ∀ i, i ∈ candidates ↔ i < p.endpoints.length ∧ i ≠ p.active
  ordered : candidates.Pairwise fun i j =>
    (p.isHealthy i = true ∧ p.isHealthy j = false) ∨ (p.isHealthy i = p.isHealthy j ∧ i < j)

theorem InTurn.nodup (h : p.InTurn candidates) : candidates.Nodup := by
  apply h.ordered.imp
  intro i j horder heq
  subst heq
  rcases horder with ⟨hhealthy, hfailed⟩ | ⟨-, hlt⟩
  · rw [hhealthy] at hfailed
    cases hfailed
  · exact Nat.lt_irrefl _ hlt

theorem pairwise_lt_places (p : Pool) (f : Nat → Bool) :
    (p.places.filter f).Pairwise (· < ·) := List.pairwise_lt_range.filter f

theorem activeFirst_eq (h : p.InRange) :
    p.activeFirst = p.active :: p.places.filter (· ≠ p.active) := by
  have hhead : p.places.filter (· = p.active) = [p.active] := by
    have hcount : p.places.count p.active = 1 :=
      List.count_eq_one_of_mem List.nodup_range ((p.mem_places _).mpr h)
    rw [List.filter_eq, hcount]
    rfl
  unfold activeFirst
  rw [hhead]
  rfl

theorem pairwise_alternatives (p : Pool) : p.alternatives.Pairwise fun i j =>
    (p.isHealthy i = true ∧ p.isHealthy j = false) ∨ (p.isHealthy i = p.isHealthy j ∧ i < j) := by
  have hothers := pairwise_lt_places p (· ≠ p.active)
  unfold alternatives
  apply List.pairwise_append.mpr
  refine ⟨?_, ?_, ?_⟩
  · apply (hothers.filter p.isHealthy).imp_of_mem
    intro i j hi hj hlt
    rw [List.mem_filter] at hi hj
    exact Or.inr ⟨hi.2.trans hj.2.symm, hlt⟩
  · apply (hothers.filter (!p.isHealthy ·)).imp_of_mem
    intro i j hi hj hlt
    simp only [List.mem_filter, Bool.not_eq_true'] at hi hj
    exact Or.inr ⟨hi.2.trans hj.2.symm, hlt⟩
  · intro i hi j hj
    simp only [List.mem_filter, Bool.not_eq_true'] at hi hj
    exact Or.inl ⟨hi.2, hj.2⟩

/-- The flag that a rotation clears is not one of the candidates'. -/
theorem inTurn_alternatives (p : Pool) : p.InTurn p.demote.alternatives := by
  have hmem : ∀ i, i ∈ p.demote.alternatives ↔ i < p.endpoints.length ∧ i ≠ p.active := by
    intro i
    rw [mem_alternatives, demote_length, demote_active]
  have hsame : ∀ i ∈ p.demote.alternatives, p.demote.isHealthy i = p.isHealthy i := by
    intro i hi
    rw [demote_isHealthy, decide_eq_true ((hmem i).mp hi).2, Bool.and_true]
  refine ⟨hmem, ?_⟩
  apply (pairwise_alternatives p.demote).imp_of_mem
  intro i j hi hj horder
  rw [hsame i hi, hsame j hj] at horder
  exact horder

/-! ## What is asked -/

/-- The question that an encounter answers; a request is none of a choice. -/
def Encounter.question? (urlOf : Nat → String) : Encounter → Option Contact
  | .checked i _ => some (.checked (urlOf i))
  | .updated url _ => some (.updated url)
  | .posted _ _ => none

namespace Routine

/-- On pools with these URLs the routine checks each endpoint by its URL; it changes no
URL and sends no request. -/
def Examines (urlOf : Nat → String) : Routine α → Prop
  | .done _ => True
  | .step change next => ∀ p : Pool, p.urlAt = urlOf →
    (change p).urlAt = urlOf ∧ (next p).Examines urlOf
  | .acquire next => next.Examines urlOf
  | .release next => next.Examines urlOf
  | .check place url next => url = urlOf place ∧ ∀ r, (next r).Examines urlOf
  | .update _ next => ∀ r, (next r).Examines urlOf
  | .post _ _ _ => False

variable {urlOf : Nat → String}

theorem Examines.bind {r : Routine α} (h : r.Examines urlOf) {k : α → Routine β}
    (hk : ∀ a, (k a).Examines urlOf) : (r >>= k).Examines urlOf := by
  induction r with
  | done a => exact hk a
  | step change next ih =>
    intro p hp
    obtain ⟨hchange, hnext⟩ := h p hp
    exact ⟨hchange, ih p hnext⟩
  | acquire next ih => exact ih h
  | release next ih => exact ih h
  | check place url next ih => exact ⟨h.1, fun r => ih r (h.2 r)⟩
  | update url next ih => exact fun r => ih r (h r)
  | post url body next => exact h.elim

theorem examines_view (f : Pool → α) : (view f).Examines urlOf := fun _ hp => ⟨hp, trivial⟩

/-- What is asked without a deadline is what the story answers. -/
theorem Examines.asked_eq {r : Routine α} {s : Site ω} (h : r.Examines urlOf)
    (hs : s.pool.urlAt = urlOf) :
    r.asked w none s = (r.story w s).filterMap (Encounter.question? urlOf) := by
  induction r generalizing s with
  | done a => rfl
  | step change next ih =>
    obtain ⟨hchange, hnext⟩ := h s.pool hs
    exact ih s.pool hnext hchange
  | acquire next ih => exact ih h hs
  | release next ih => exact ih h hs
  | check place url next ih =>
    obtain ⟨rfl, hnext⟩ := h
    have hrest := ih _ (hnext ((w.check (urlOf place) s.wire).answer.map fun _ =>
      (w.check (urlOf place) s.wire).elapsed))
      (s := s.after (.checked (urlOf place)) (w.check (urlOf place) s.wire)) hs
    exact congrArg (Contact.checked (urlOf place) :: ·) hrest
  | update url next ih =>
    have hrest := ih _ (h (w.update url s.wire).answer)
      (s := s.after (.updated url) (w.update url s.wire)) hs
    exact congrArg (Contact.updated url :: ·) hrest
  | post url body next => exact h.elim

theorem examines_probe (candidates : List Nat) : (probe candidates).Examines urlOf := by
  induction candidates with
  | nil => trivial
  | cons i rest ih =>
    intro p hp
    refine ⟨hp, congrFun hp i, ?_⟩
    intro r
    cases r with
    | ok ms =>
      intro q hq
      refine ⟨?_, trivial⟩
      rw [← hq]
      exact funext (urlAt_eq_of_configured (markReached_configured q i ms))
    | error failure =>
      intro q hq
      refine ⟨?_, ih⟩
      rw [← hq]
      exact funext (urlAt_eq_of_configured (markFailed_configured q i))

theorem examines_search (candidates : List Nat) : (search candidates).Examines urlOf := by
  apply (examines_probe candidates).bind
  intro found
  cases found with
  | none => trivial
  | some i =>
    apply (examines_view _).bind
    intro url r
    cases r with
    | ok u =>
      intro p hp
      exact ⟨hp, trivial⟩
    | error failure => trivial

theorem examines_ensureConnected : ensureConnected.Examines urlOf := by
  apply (examines_view _).bind
  intro verified
  cases verified with
  | true => trivial
  | false =>
    refine Examines.bind (r := lock) trivial fun _ => (examines_view _).bind ?_
    intro found
    cases found with
    | none => trivial
    | some candidates => exact (examines_search candidates).bind fun r => trivial

theorem examines_rotate (url : String) : (rotate url).Examines urlOf := by
  have hnoted : (Routine.step (afterFailureAt url) fun p =>
      .done (rotationFrom? url p)).Examines urlOf := by
    intro p hp
    refine ⟨?_, trivial⟩
    rw [← hp]
    unfold afterFailureAt
    split
    · exact funext (urlAt_eq_of_configured (demote_configured p))
    · rfl
  refine Examines.bind (r := lock) trivial fun _ => hnoted.bind ?_
  intro found
  cases found with
  | none => trivial
  | some candidates =>
    apply (examines_search candidates).bind
    intro r
    cases r with
    | ok u => exact (examines_view _).bind fun _ => trivial
    | error e => trivial

/-- Every answer to an update is one that the wire gives for its URL. -/
theorem answer_of_updated (r : Routine α) (s : Site ω) {url : String}
    {a : Except RpcError Unit} (h : .updated url a ∈ r.story w s) :
    ∃ x, a = (w.update url x).answer := by
  induction r generalizing s with
  | done b => cases h
  | step change next ih => exact ih _ _ h
  | acquire next ih => exact ih _ h
  | release next ih => exact ih _ h
  | check place url' next ih =>
    rcases List.mem_cons.mp h with heq | hrest
    · cases heq
    · exact ih _ _ hrest
  | update url' next ih =>
    rcases List.mem_cons.mp h with heq | hrest
    · cases heq
      exact ⟨s.wire, rfl⟩
    · exact ih _ _ hrest
  | post url' body next ih =>
    rcases List.mem_cons.mp h with heq | hrest
    · cases heq
    · exact ih _ _ hrest

end Routine

/-! ## The choice -/

theorem Refusals.not_updated (h : Refusals missed es) (url : String) (a : Except RpcError Unit) :
    .updated url a ∉ es := by
  intro hmem
  induction h with
  | nil => cases hmem
  | cons he _ ih =>
    rcases List.mem_cons.mp hmem with heq | hmem
    · obtain ⟨failure, rfl⟩ := he
      cases heq
    · exact ih hmem

/-- The client can be pointed to every endpoint of the pool. -/
def Usable (w : Wire ω) (p : Pool) : Prop :=
  ∀ e ∈ p.endpoints, ∀ x, (w.update e.url x).answer = .ok ()

/-- Over HTTP the client can be pointed to every endpoint whose URL parses again. -/
theorem usable_of_isUrl (l : Line ω) (h : ∀ e ∈ p.endpoints, IsUrl e.url) : Usable l.wire p := by
  intro e he x
  exact l.update_isUrl x (h e he)

/-- Run without a deadline, a routine that knows some endpoints to have failed checks the
candidates in their order and chooses the first that passes. -/
structure Chooses (w : Wire ω) (r : Routine (Except RpcError Unit)) (s : Site ω)
    (known candidates : List Nat) : Prop where
  /-- The first candidate that passes is taken into use, or none passes. -/
  choice :
    (∃ missed i rest ms es, candidates = missed ++ i :: rest ∧ Refusals missed es ∧
      r.story w s = es ++ [.checked i (.ok ms), .updated (s.pool.urlAt i) (.ok ())] ∧
      (r.run w none s).1 = some (.ok ()) ∧
      TakesUp s.pool (known ++ missed) i ms (r.run w none s).2.pool) ∨
    (Refusals candidates (r.story w s) ∧
      (r.run w none s).1 = some (.error .noHealthyEndpoint) ∧
      GivesUp s.pool (known ++ candidates) (r.run w none s).2.pool)
  /-- No endpoint is found just when every candidate failed its check. -/
  none_iff : (r.run w none s).1 = some (.error .noHealthyEndpoint) ↔
    Refusals candidates (r.story w s)
  /-- Nothing else is asked, and each endpoint by its URL. -/
  asked : (r.run w none s).2.log =
    s.log ++ (r.story w s).filterMap (Encounter.question? s.pool.urlAt)

/-- A search takes the first candidate into use that passes, or none passes. -/
theorem Searched.choice {p₀ : Pool} {a : Except RpcError Unit} (h : Searched p candidates es q a)
    (hbegun : Begun p₀ known p)
    (hupdates : ∀ i < p₀.endpoints.length, ∀ b, .updated (p₀.urlAt i) b ∈ es → b = .ok ())
    (hin : ∀ j ∈ known ++ candidates, j < p₀.endpoints.length)
    (hnodup : (known ++ candidates).Nodup) :
    (∃ missed i rest ms fs, candidates = missed ++ i :: rest ∧ Refusals missed fs ∧
      es = fs ++ [.checked i (.ok ms), .updated (p₀.urlAt i) (.ok ())] ∧ a = .ok () ∧
      TakesUp p₀ (known ++ missed) i ms q) ∨
    (Refusals candidates es ∧ a = .error .noHealthyEndpoint ∧
      GivesUp p₀ (known ++ candidates) q) := by
  cases h with
  | none hr =>
    refine Or.inr ⟨hr, rfl, givesUp_of_endpoints (hbegun.refused_endpoints _) ⟨?_, ?_⟩ hin⟩
    · rw [refused_active, hbegun.active]
    · rw [refused_verified, hbegun.verified]
  | @taken missed i rest fs ms hc hr =>
    subst hc
    have hi : i < p₀.endpoints.length := hin i (by simp)
    rw [← List.append_assoc] at hin hnodup
    have hnot : i ∉ known ++ missed := by
      intro hmem
      exact (List.nodup_append.mp hnodup).2.2 i hmem i List.mem_cons_self rfl
    refine Or.inl ⟨missed, i, rest, ms, fs, rfl, hr, by rw [hbegun.urlAt_eq], rfl, ?_⟩
    refine takesUp_of_endpoints ?_ ⟨rfl, rfl⟩ hi hnot fun j hj => hin j (List.mem_append_left _ hj)
    apply List.ext_getElem?
    intro j
    rw [activate_endpoints, markReached_getElem?, markReached_getElem?, hbegun.refused_endpoints]
  | @unusable missed i rest fs ms failure hc hr =>
    subst hc
    have hupdated := hupdates i (hin i (by simp)) (.error failure) (by simp [hbegun.urlAt_eq])
    cases hupdated

theorem urlAt_mem (h : i < p.endpoints.length) : ∃ e ∈ p.endpoints, p.urlAt i = e.url := by
  refine ⟨p.endpoints[i], List.getElem_mem h, ?_⟩
  unfold urlAt
  rw [List.getElem?_eq_getElem h]
  rfl

/-- A routine that searches among candidates chooses among them. -/
theorem chooses_of_searched {r : Routine (Except RpcError Unit)} {a : Except RpcError Unit}
    (hexamines : r.Examines s.pool.urlAt) (husable : s.pool.Usable w)
    (hrun : (r.run w none s).1 = some a)
    (hsearched : Searched p candidates (r.story w s) (r.run w none s).2.pool a)
    (hbegun : Begun s.pool known p)
    (hin : ∀ j ∈ known ++ candidates, j < s.pool.endpoints.length)
    (hnodup : (known ++ candidates).Nodup) : Chooses w r s known candidates := by
  have hupdates : ∀ i < s.pool.endpoints.length, ∀ b,
      .updated (s.pool.urlAt i) b ∈ r.story w s → b = .ok () := by
    intro i hi b hb
    obtain ⟨e, he, hurl⟩ := urlAt_mem hi
    obtain ⟨x, rfl⟩ := Routine.answer_of_updated r s hb
    rw [hurl]
    exact husable e he x
  have hchoice := hsearched.choice hbegun hupdates hin hnodup
  refine ⟨?_, ?_, ?_⟩
  · rcases hchoice with ⟨missed, i, rest, ms, es, hc, hr, hstory, rfl, htakes⟩ | ⟨hr, rfl, hgives⟩
    · exact Or.inl ⟨missed, i, rest, ms, es, hc, hr, hstory, hrun, htakes⟩
    · exact Or.inr ⟨hr, hrun, hgives⟩
  · constructor
    · intro hnone
      rw [hrun] at hnone
      rcases hchoice with ⟨missed, i, rest, ms, es, -, -, -, rfl, -⟩ | ⟨hall, -⟩
      · cases hnone
      · exact hall
    · intro hall
      rcases hchoice with ⟨missed, i, rest, ms, es, -, -, hstory, -⟩ | ⟨-, rfl, -⟩
      · have hupdated := hall.not_updated (s.pool.urlAt i) (.ok ())
        rw [hstory] at hupdated
        simp at hupdated
      · exact hrun
  · rw [r.run_log, hexamines.asked_eq rfl]

/-- By one task alone: nothing happens while the endpoint in use is verified, or when
another one is in use than the one to be left. Else the candidates are checked up to the
first that passes: the endpoint in use and then the others in the configured order, or
without the one that is left and the healthy ones first. -/
theorem the_first_endpoint_that_passes_is_taken (w : Wire ω) (s : Site ω)
    (hin : s.pool.InRange) (husable : s.pool.Usable w) :
    (s.pool.verified = true → ensureConnected.run w none s = (some (.ok ()), s)) ∧
    (s.pool.verified = false → ∃ others, others.Pairwise (· < ·) ∧
      (∀ i, i ∈ others ↔ i < s.pool.endpoints.length ∧ i ≠ s.pool.active) ∧
      Chooses w ensureConnected s [] (s.pool.active :: others)) ∧
    ∀ url,
      (s.pool.activeUrl ≠ url → (rotate url).run w none s = (some (.ok ()), s)) ∧
      (s.pool.activeUrl = url → ∃ candidates, s.pool.InTurn candidates ∧
        Chooses w (rotate url) s [s.pool.active] candidates) := by
  refine ⟨Routine.run_ensureConnected_verified w none, ?_, ?_⟩
  · intro hv
    obtain ⟨a, hrun, htells⟩ := Routine.tells_story w ensureConnected s
    rcases tells_ensureConnected.mp htells with ⟨hv', -⟩ | ⟨-, hsearched⟩
    · rw [hv] at hv'
      cases hv'
    · rw [activeFirst_eq hin] at hsearched
      have hmem : ∀ i, i ∈ s.pool.places.filter (· ≠ s.pool.active) ↔
          i < s.pool.endpoints.length ∧ i ≠ s.pool.active := by
        intro i
        simp
      refine ⟨_, pairwise_lt_places s.pool (· ≠ s.pool.active), hmem, ?_⟩
      refine chooses_of_searched Routine.examines_ensureConnected husable hrun hsearched
        ⟨rfl, hv, rfl⟩ ?_ ?_
      · intro j hj
        rcases List.mem_cons.mp hj with rfl | hj
        · exact hin
        · exact ((hmem j).mp hj).1
      · refine List.nodup_cons.mpr ⟨fun h => ((hmem _).mp h).2 rfl, List.nodup_range.filter _⟩
  · intro url
    refine ⟨Routine.run_rotate_stale w none, ?_⟩
    intro hurl
    obtain ⟨a, hrun, htells⟩ := Routine.tells_story w (rotate url) s
    rcases tells_rotate.mp htells with ⟨-, hsearched⟩ | ⟨hother, -⟩
    · have hturn := inTurn_alternatives s.pool
      refine ⟨_, hturn, chooses_of_searched (Routine.examines_rotate url) husable hrun hsearched
        (begun_demote s.pool) ?_ ?_⟩
      · intro j hj
        rcases List.mem_cons.mp hj with rfl | hj
        · exact hin
        · exact ((hturn.mem_iff j).mp hj).1
      · exact List.nodup_cons.mpr ⟨fun h => ((hturn.mem_iff _).mp h).2 rfl, hturn.nodup⟩
    · exact absurd hurl hother

/-! ## A rotation past a failed check -/

theorem isUrl_of_isOk {url : String} (h : (Url.ofString url).isOk = true) : IsUrl url := by
  cases hu : Url.ofString url with
  | ok u => exact ⟨u, hu⟩
  | error e =>
    rw [hu] at h
    cases h

/-- Four endpoints, of which the second counts as failed. -/
def secondFailed : Pool :=
  ⟨[⟨"http://a", 90, true, some 4⟩, ⟨"http://b", 80, false, none⟩, ⟨"http://c", 70, true, none⟩,
    ⟨"http://d", 60, true, none⟩], 0, true⟩

/-- A line that gives some answers in order, each after seven milliseconds. -/
def answering : Line (List Http.Answer) :=
  ⟨fun _ _ answers => ⟨answers.headD (.failed "closed"), 7, answers.tail⟩⟩

/-- The first check fails and the second one passes. -/
def secondPasses : Site (List Http.Answer) :=
  site secondFailed [.failed "reset", .answered 200 "{}"]

/-- A rotation leaves the first endpoint. The two healthy ones are checked before the
second, the fourth is taken into use, and the second stays as it is. -/
theorem a_rotation_passes_over_a_failed_endpoint :
    secondPasses.pool.InRange ∧ secondPasses.pool.Usable answering.wire ∧
    secondPasses.pool.activeUrl = "http://a" ∧
    (∃ candidates, secondPasses.pool.InTurn candidates ∧
      Chooses answering.wire (rotate "http://a") secondPasses [0] candidates) ∧
    ((rotate "http://a").run answering.wire none secondPasses).2.pool =
      ⟨[⟨"http://a", 90, false, some 4⟩, ⟨"http://b", 80, false, none⟩,
        ⟨"http://c", 70, false, none⟩, ⟨"http://d", 60, true, some 7⟩], 3, true⟩ := by
  have hin : secondPasses.pool.InRange := by decide
  have hurls : ∀ e ∈ secondPasses.pool.endpoints, (Url.ofString e.url).isOk = true := by
    decide +kernel
  have husable : secondPasses.pool.Usable answering.wire :=
    usable_of_isUrl answering fun e he => isUrl_of_isOk (hurls e he)
  have hurl : secondPasses.pool.activeUrl = "http://a" := by rfl
  obtain ⟨-, -, hrotate⟩ :=
    the_first_endpoint_that_passes_is_taken answering.wire secondPasses hin husable
  exact ⟨hin, husable, hurl, (hrotate "http://a").2 hurl, by decide +kernel⟩

end Pool

end ChainAccess
