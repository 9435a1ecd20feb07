import ChainAccess.Proofs.Pool.Requests
import Mathlib.Data.List.Forall2
import Mathlib.Tactic.Common
-- Whether a request goes to an endpoint twice within one call. A rotation
-- leaves only the endpoint in use out of its search, and one that the call
-- left before it is still a candidate, behind the healthy ones. So a call
-- comes back to an endpoint exactly when that endpoint passes a check and is
-- taken into use again. Two endpoints are too few for that, three are enough.

namespace ChainAccess.Pool

variable {p q : Pool} {es fs : List Encounter} {seen : List Nat}

/-! ## Going onward -/

/-- None of the endpoints in `seen` is taken into use, and none to which a
request went before: none of them passes a check after which the client is
pointed to it. -/
def Onward : List Nat → List Encounter → Prop
  | seen, .posted i _ :: es => Onward (i :: seen) es
  | seen, .checked i (.ok _) :: .updated _ (.ok _) :: es => i ∉ seen ∧ Onward seen es
  | seen, _ :: es => Onward seen es
  | _, [] => True

theorem Refusals.onward {missed : List Nat} (h : Refusals missed es) :
    Onward seen (es ++ fs) ↔ Onward seen fs := by
  induction h with
  | nil => exact Iff.rfl
  | cons he _ ih =>
    obtain ⟨failure, rfl⟩ := he
    simpa [Onward] using ih

theorem Searched.onward_of_error {candidates : List Nat} {e : RpcError}
    (h : Searched p candidates es q (.error e)) : Onward seen es := by
  cases h with
  | none hr =>
    rw [← List.append_nil es, hr.onward]
    trivial
  | unusable hc hr =>
    rw [hr.onward]
    trivial

theorem Searched.onward_of_ok {candidates : List Nat} (h : Searched p candidates es q (.ok ())) :
    Onward seen (es ++ fs) ↔ q.active ∉ seen ∧ Onward seen fs := by
  cases h with
  | taken hc hr =>
    rw [List.append_assoc, hr.onward]
    exact Iff.rfl

theorem Sent.active_mem_tried {k : Nat} {r : Except RpcError Json} (h : Sent k p es q r) :
    p.active ∈ tried es := by
  cases h <;> simp

/-- Sending tries none of the endpoints in `seen`, and none twice, exactly when
it goes onward. -/
theorem Sent.nodup_iff {k : Nat} {r : Except RpcError Json} (h : Sent k p es q r)
    (hseen : p.active ∉ seen) :
    ((tried es).Nodup ∧ ∀ i ∈ tried es, i ∉ seen) ↔ Onward seen es := by
  induction h generalizing seen with
  | final ha => simp [Onward, hseen]
  | spent ha => simp [Onward, hseen]
  | stuck ha hsearch => simp [Onward, hsearch.tried_eq_nil, hsearch.onward_of_error, hseen]
  | @on k p a failure es m fs q r ha hsearch hsent ih =>
    have hne : m.active ≠ p.active := ((mem_alternatives _ _).mp hsearch.active_mem).2
    simp only [Onward, hsearch.onward_of_ok, tried_posted, tried_append, hsearch.tried_eq_nil,
      List.nil_append, List.nodup_cons, List.mem_cons, forall_eq_or_imp]
    by_cases hm : m.active ∈ seen
    · -- the endpoint taken into use is one of those that were seen
      simp only [hm, or_true, not_true, false_and, iff_false]
      rintro ⟨-, -, hfresh⟩
      exact hfresh m.active hsent.active_mem_tried hm
    · have hm' : m.active ∉ p.active :: seen := by simp [hne, hm]
      rw [← ih hm']
      simp only [hne, hm, hseen, or_self, not_false_iff, true_and, List.mem_cons, not_or]
      constructor
      · rintro ⟨⟨hpa, hnd⟩, hfresh⟩
        refine ⟨hnd, fun i hi => ⟨?_, hfresh i hi⟩⟩
        rintro rfl
        exact hpa hi
      · rintro ⟨hnd, hfresh⟩
        exact ⟨⟨fun hpa => (hfresh _ hpa).1 rfl, hnd⟩, fun i hi => (hfresh i hi).2⟩

/-! ## Pools of two and of three -/

/-- One rotation never comes back. -/
theorem Sent.nodup_of_le_one {k : Nat} {r : Except RpcError Json} (h : Sent k p es q r)
    (hk : k ≤ 1) : (tried es).Nodup := by
  cases h with
  | final ha => simp
  | spent ha => simp
  | stuck ha hsearch => simp [hsearch.tried_eq_nil]
  | @on _ _ _ _ es m fs _ _ ha hsearch hsent =>
    have hne : m.active ≠ p.active := ((mem_alternatives _ _).mp hsearch.active_mem).2
    have htried : tried fs = [m.active] := by
      cases hsent with
      | final hb => simp
      | spent hb => simp
      | stuck hb _ => omega
      | on hb _ _ => omega
    simp [hsearch.tried_eq_nil, htried, hne.symm]

/-- A rotation may take any endpoint but the one in use. -/
theorem exists_rotation {i : Nat} (hi : i < p.endpoints.length) (hne : i ≠ p.active) :
    ∃ es q, Searched p.demote p.demote.alternatives es q (.ok ()) ∧ q.active = i ∧
      q.endpoints.length = p.endpoints.length := by
  have hmem : i ∈ p.demote.alternatives := (mem_alternatives _ _).mpr ⟨by simpa using hi, hne⟩
  obtain ⟨missed, rest, hc⟩ := List.append_of_mem hmem
  have hr : Refusals missed (missed.map fun j => .checked j (.error .noHealthyEndpoint)) := by
    unfold Refusals
    rw [List.forall₂_map_right_iff, List.forall₂_same]
    exact fun j _ => ⟨_, rfl⟩
  have hsearch : Searched p.demote p.demote.alternatives _
      (((p.demote.refused missed).markReached i 0).activate i) (.ok ()) := .taken hc hr
  exact ⟨_, _, hsearch, rfl, by simp⟩

/-- Two rotations may come back to the endpoint that the call began with. -/
theorem exists_circle {k : Nat} (h : 2 ≤ p.endpoints.length) (hp : p.InRange) :
    ∃ es q r, Sent (k + 2) p es q r ∧ ¬ (tried es).Nodup := by
  obtain ⟨i, hi, hne⟩ : ∃ i, i < p.endpoints.length ∧ i ≠ p.active := by
    by_cases h0 : p.active = 0
    · exact ⟨1, by omega, by omega⟩
    · exact ⟨0, by omega, by omega⟩
  -- a rotation to another endpoint, one back, and a request that ends the call
  obtain ⟨es, m, hsearch, hm, hlen⟩ := exists_rotation hi hne
  obtain ⟨fs, n, hback, hn, -⟩ := exists_rotation (p := m) (i := p.active)
    (by rw [hlen]; exact hp) (by rw [hm]; exact hne.symm)
  obtain ⟨_, hfirst⟩ := ((Http.Answer.failed "").leaves_iff p.activeUrl).mp trivial
  obtain ⟨_, hsecond⟩ := ((Http.Answer.failed "").leaves_iff m.activeUrl).mp trivial
  have hlast : Sent k n [.posted n.active (.answered 404 "")] n
      (.error (.http 404 (Http.statusText 404 ""))) := .final rfl
  refine ⟨_, _, _, .on hfirst hsearch (.on hsecond hback hlast), ?_⟩
  simp [hsearch.tried_eq_nil, hback.tried_eq_nil, hn]

/-! ## The laws -/

/-- A call that sends a request tries no endpoint twice exactly when it goes
onward; and whatever comes back, it does so exactly in pools of at most two
endpoints. -/
theorem a_request_comes_back_only_among_three {c : Call} {body : Json} (hc : c.body? = some body)
    (hp : p.InRange) :
    (∀ (ω : Type) (w : Wire ω) (s : Site ω), s.pool = p →
      ((tried (c.routine.story w s)).Nodup ↔ Onward [] (c.routine.story w s))) ∧
    ((∀ (ω : Type) (w : Wire ω) (s : Site ω), s.pool = p →
      (tried (c.routine.story w s)).Nodup) ↔ p.endpoints.length ≤ 2) := by
  refine ⟨?_, ?_, ?_⟩
  · rintro ω w s rfl
    obtain ⟨r, -, h⟩ := sending_is_sent hc w s
    have hnone : s.pool.active ∉ [] := List.not_mem_nil
    simpa using h.nodup_iff hnone
  · intro hall
    by_contra hlen
    obtain ⟨k, hk⟩ : ∃ k, p.endpoints.length - 1 = k + 2 := ⟨p.endpoints.length - 3, by omega⟩
    obtain ⟨es, q, r, hcircle, hnd⟩ := exists_circle (k := k) (by omega) hp
    rw [← hk] at hcircle
    have ht : c.routine.Tells p es q (c.gain r) := (tells_sending hc).mpr ⟨r, hcircle, rfl⟩
    obtain ⟨hstory, -⟩ := Routine.story_replay (s := ⟨p, es, 0, []⟩) ht (List.append_nil es).symm
    apply hnd
    rw [← hstory]
    exact hall _ replay _ rfl
  · rintro hlen ω w s rfl
    obtain ⟨r, -, h⟩ := sending_is_sent hc w s
    exact h.nodup_of_le_one (by omega)

/-- A pool of three endpoints that are up, the first in use. -/
def threeUp : Pool :=
  ⟨[⟨"http://a", 90, true, none⟩, ⟨"http://b", 80, true, none⟩, ⟨"http://c", 70, true, none⟩],
    0, false⟩

/-- The first two are unavailable for requests, the third is down, and the
first passes its check again. -/
def roundTrip : List Encounter :=
  [.posted 0 (.answered 503 ""), .checked 1 (.ok 0), .updated "http://b" (.ok ()),
    .posted 1 (.answered 503 ""), .checked 2 (.error (.connection "down")), .checked 0 (.ok 0),
    .updated "http://a" (.ok ()), .posted 0 (.answered 503 "")]

theorem a_request_comes_back_among_three :
    (Call.send .null).body? = some .null ∧ threeUp.InRange ∧
    (∀ (ω : Type) (w : Wire ω) (s : Site ω), s.pool = threeUp →
      ((tried ((Call.send .null).routine.story w s)).Nodup ↔
        Onward [] ((Call.send .null).routine.story w s))) ∧
    ((∀ (ω : Type) (w : Wire ω) (s : Site ω), s.pool = threeUp →
      (tried ((Call.send .null).routine.story w s)).Nodup) ↔ threeUp.endpoints.length ≤ 2) := by
  have hp : threeUp.InRange := by decide
  exact ⟨rfl, hp, a_request_comes_back_only_among_three rfl hp⟩

/-- The first of three endpoints is asked again at the end of a round trip. -/
theorem the_first_of_three_is_asked_again :
    let story := (Call.send .null).routine.story replay ⟨threeUp, roundTrip, 0, []⟩
    story = roundTrip ∧ tried story = [0, 1, 0] ∧ ¬ (tried story).Nodup := by
  refine ⟨rfl, rfl, ?_⟩
  have htried : tried roundTrip = [0, 1, 0] := rfl
  show ¬ (tried roundTrip).Nodup
  rw [htried]
  decide

end ChainAccess.Pool
