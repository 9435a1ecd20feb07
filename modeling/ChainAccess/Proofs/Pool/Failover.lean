import ChainAccess.Proofs.Pool.Requests
import Mathlib.Data.List.Basic
import Mathlib.Data.List.Perm.Subperm
import Mathlib.Tactic.Common
-- A request finds its way to an endpoint that works. Each rotation leaves a
-- failing endpoint for a healthy one as long as a healthy one passes its
-- check, and none of those left behind counts as healthy any more. So the
-- healthy endpoints beside the one in use become fewer with each rotation,
-- and the rotations suffice to meet every one of them.

namespace ChainAccess.Pool

variable {p q : Pool} {es fs : List Encounter} {x i : Nat}

/-! ## Healthy endpoints beside the one in use -/

/-- The healthy endpoints beside the one in use. -/
def standbys (p : Pool) : List Nat := (p.places.filter (· ≠ p.active)).filter p.isHealthy

theorem mem_standbys :
    i ∈ p.standbys ↔ i < p.endpoints.length ∧ i ≠ p.active ∧ p.isHealthy i = true := by
  simp only [standbys, List.mem_filter, mem_places, decide_eq_true_eq, and_assoc]

theorem mem_standbys_of_isHealthy (h : p.isHealthy i = true) (hi : i ≠ p.active) :
    i ∈ p.standbys := mem_standbys.mpr ⟨lt_of_isHealthy h, hi, h⟩

theorem standbys_nodup (p : Pool) : p.standbys.Nodup :=
  (List.nodup_range.filter _).filter _

theorem demote_standbys (p : Pool) : p.demote.standbys = p.standbys := by
  have hplaces : p.demote.places = p.places := by simp [places]
  unfold standbys
  rw [hplaces, demote_active]
  apply List.filter_congr
  intro j hj
  simp only [List.mem_filter, decide_eq_true_eq] at hj
  simp [hj.2]

theorem alternatives_eq (p : Pool) :
    p.alternatives = p.standbys ++ (p.places.filter (· ≠ p.active)).filter (!p.isHealthy ·) := rfl

/-- Places without repetition are fewer than those of a list that has them all
and one place more. -/
theorem length_lt_of_mem {as bs : List Nat} (hd : as.Nodup) (hsub : ∀ j ∈ as, j ∈ bs ∧ j ≠ i)
    (hi : i ∈ bs) : as.length < bs.length := by
  have herase : as ⊆ bs.erase i := fun j hj =>
    (List.mem_erase_of_ne (hsub j hj).2).mpr (hsub j hj).1
  have hle := (List.subperm_of_subset hd herase).length_le
  rw [List.length_erase_of_mem hi] at hle
  have hpos := List.length_pos_of_mem hi
  omega

theorem standbys_length_lt (h : p.InRange) : p.standbys.length < p.endpoints.length := by
  have hsub : ∀ j ∈ p.standbys, j ∈ p.places ∧ j ≠ p.active := by
    intro j hj
    obtain ⟨hlt, hne, -⟩ := mem_standbys.mp hj
    exact ⟨(p.mem_places j).mpr hlt, hne⟩
  have hlt := length_lt_of_mem (standbys_nodup p) hsub ((p.mem_places _).mpr h)
  simpa [places] using hlt

/-! ## A way that is open -/

/-- The way over `x` is open: `x` passes its checks and answers its requests,
the others answer or are left, and the client can be pointed to each. -/
structure Open (x : Nat) (es : List Encounter) : Prop where
  checks : ∀ r, .checked x r ∈ es → ∃ ms, r = .ok ms
  answers : ∀ i a, .posted i a ∈ es → (∃ v, a.Delivers v) ∨ (i ≠ x ∧ a.Leaves)
  updates : ∀ url r, .updated url r ∈ es → r = .ok ()

theorem Open.mono (h : Open x fs) (hsub : ∀ e ∈ es, e ∈ fs) : Open x es :=
  ⟨fun r hr => h.checks r (hsub _ hr), fun i a ha => h.answers i a (hsub _ ha),
    fun url r hr => h.updates url r (hsub _ hr)⟩

theorem Refusals.mem {missed : List Nat} (h : Refusals missed es) (hi : i ∈ missed) :
    ∃ failure, .checked i (.error failure) ∈ es := by
  induction h with
  | nil => cases hi
  | cons he _ ih =>
    rcases List.mem_cons.mp hi with rfl | hi
    · obtain ⟨failure, rfl⟩ := he
      exact ⟨failure, List.mem_cons_self⟩
    · obtain ⟨failure, hf⟩ := ih hi
      exact ⟨failure, List.mem_cons_of_mem _ hf⟩

/-- No search refuses `x` while the way over it is open. -/
theorem Open.not_mem {missed : List Nat} (h : Open x fs) (hr : Refusals missed es)
    (hsub : ∀ e ∈ es, e ∈ fs) : x ∉ missed := by
  intro hx
  obtain ⟨failure, hf⟩ := hr.mem hx
  obtain ⟨ms, hms⟩ := h.checks _ (hsub _ hf)
  cases hms

/-- The first of two lists holds the place where their concatenation is
split, when the part before that place misses one of its elements. -/
theorem mem_of_append_eq {as bs missed rest : List Nat} (h : as ++ bs = missed ++ i :: rest)
    (hx : x ∈ as) (hxm : x ∉ missed) : i ∈ as := by
  rcases List.append_eq_append_iff.mp h with ⟨cs, rfl, -⟩ | ⟨cs, rfl, hcs⟩
  · exact absurd (List.mem_append_left cs hx) hxm
  · cases cs with
    | nil => simp only [List.append_nil] at hx; exact absurd hx hxm
    | cons j cs =>
      obtain ⟨rfl, -⟩ := List.cons.inj hcs
      simp

/-- A rotation while the way over a healthy endpoint beside the one in use is
open takes a healthy endpoint into use, and fewer remain beside it. -/
theorem Searched.advances {r : Except RpcError Unit}
    (h : Searched p.demote p.demote.alternatives es q r) (hx : x ∈ p.standbys)
    (hopen : Open x es) :
    r = .ok () ∧ q.isHealthy x = true ∧ q.standbys.length < p.standbys.length := by
  rw [alternatives_eq, demote_standbys] at h
  cases h with
  | none hr => exact absurd (List.mem_append_left _ hx) (hopen.not_mem hr fun _ he => he)
  | @unusable missed i rest es ms failure hc hr =>
    have hmem : Encounter.updated (p.demote.urlAt i) (.error failure) ∈
        [Encounter.checked i (.ok ms), .updated (p.demote.urlAt i) (.error failure)] := by simp
    cases hopen.updates _ _ (List.mem_append_right _ hmem)
  | @taken missed i rest es ms hc hr =>
    have hxm : x ∉ missed := hopen.not_mem hr fun _ he => List.mem_append_left _ he
    have hi : i ∈ p.standbys := mem_of_append_eq hc hx hxm
    obtain ⟨hilt, -, -⟩ := mem_standbys.mp hi
    obtain ⟨-, hxa, hxh⟩ := mem_standbys.mp hx
    have hother : ∀ j, j ≠ i →
        ((p.demote.refused missed).markReached i ms).isHealthy j =
          (p.isHealthy j && decide (j ≠ p.active) && decide (j ∉ missed)) := by
      intro j hj
      rw [markReached_isHealthy_ne _ _ _ _ hj, refused_isHealthy, demote_isHealthy]
    refine ⟨rfl, ?_, length_lt_of_mem (standbys_nodup _) ?_ hi⟩
    · rw [activate_isHealthy]
      by_cases hxi : x = i
      · rw [hxi]
        exact markReached_isHealthy_self _ _ _ (by simpa using hilt)
      · simp [hother x hxi, hxh, hxa, hxm]
    · intro j hj
      obtain ⟨hlt, hji, hjh⟩ := mem_standbys.mp hj
      rw [activate_active] at hji
      rw [activate_isHealthy, hother j hji] at hjh
      simp only [Bool.and_eq_true, decide_eq_true_eq] at hjh
      exact ⟨mem_standbys.mpr ⟨by simpa using hlt, hjh.1.2, hjh.1.1⟩, hji⟩

/-- An endpoint that is left is not the one over which the way is open. -/
theorem Open.ne_of_leave {a : Http.Answer} {url : String} {failure : RpcError} (h : Open x es)
    (ha : .posted i a ∈ es) (hl : a.verdict url = .leave failure) : x ≠ i := by
  rcases h.answers i a ha with ⟨v, hv⟩ | ⟨hne, -⟩
  · rw [(a.delivers_iff url v).mp hv] at hl
    cases hl
  · exact hne.symm

/-- Sending with a rotation for each healthy endpoint beside the one in use
brings an answer, when the way over a healthy endpoint is open. -/
theorem Sent.delivers {k : Nat} {r : Except RpcError Json} (h : Sent k p es q r)
    (hx : p.isHealthy x = true) (hopen : Open x es) (hk : p.standbys.length ≤ k) :
    ∃ v i a, r = .ok v ∧ .posted i a ∈ es ∧ a.Delivers v := by
  induction h with
  | @final k p a r ha =>
    rcases hopen.answers _ _ List.mem_cons_self with ⟨v, hv⟩ | ⟨-, hl⟩
    · have hfinal := (a.delivers_iff p.activeUrl v).mp hv
      rw [ha] at hfinal
      cases hfinal
      exact ⟨v, _, a, rfl, List.mem_cons_self, hv⟩
    · exact absurd hl (Http.Answer.not_leaves_of_final ha)
  | @spent p a failure ha =>
    -- no rotation is left, and yet a healthy endpoint is beside the one in use
    have hxa := hopen.ne_of_leave List.mem_cons_self ha
    have hpos := List.length_pos_of_mem (mem_standbys_of_isHealthy hx hxa)
    omega
  | @stuck k p a failure es q e ha hsearch =>
    have hxa := hopen.ne_of_leave List.mem_cons_self ha
    have hadv := hsearch.advances (mem_standbys_of_isHealthy hx hxa)
      (hopen.mono fun _ he => List.mem_cons_of_mem _ he)
    cases hadv.1
  | @on k p a failure es m fs q r ha hsearch _ ih =>
    have hxa := hopen.ne_of_leave List.mem_cons_self ha
    -- one rotation is spent, and one healthy endpoint fewer is left to meet
    obtain ⟨-, hxm, hlt⟩ := hsearch.advances (mem_standbys_of_isHealthy hx hxa)
      (hopen.mono fun _ he => List.mem_cons_of_mem _ (List.mem_append_left _ he))
    obtain ⟨v, i, b, hr, hb, hv⟩ := ih hxm
      (hopen.mono fun _ he => List.mem_cons_of_mem _ (List.mem_append_right _ he)) (by omega)
    exact ⟨v, i, b, hr, List.mem_cons_of_mem _ (List.mem_append_right _ hb), hv⟩

/-! ## The laws -/

/-- A call that sends a request brings the answer of a node after at most as
many tries as there are endpoints, whenever the way over some endpoint is open
that counts as healthy when the call starts. -/
theorem an_open_way_brings_an_answer {ω : Type} {w : Wire ω} {s : Site ω} {c : Call} {body : Json}
    (hc : c.body? = some body) (hp : s.pool.InRange) (hx : s.pool.isHealthy x = true)
    (hopen : Open x (c.routine.story w s)) :
    ∃ v i a, (c.routine.run w none s).1 = some (c.gain (.ok v)) ∧
      .posted i a ∈ c.routine.story w s ∧ a.Delivers v ∧
      (tried (c.routine.story w s)).length ≤ s.pool.endpoints.length := by
  obtain ⟨r, hg, hsent⟩ := sending_is_sent hc w s
  have hk := Nat.le_sub_one_of_lt (standbys_length_lt hp)
  obtain ⟨v, i, a, rfl, ha, hv⟩ := hsent.delivers hx hopen hk
  refine ⟨v, i, a, hg, ha, hv, ?_⟩
  have hle := hsent.tried_length_le
  have hlt := lt_of_isHealthy hx
  omega

/-- A pool of four endpoints, with one in use that counts as unhealthy. -/
def fourMixed : Pool :=
  ⟨[⟨"http://a", 90, true, none⟩, ⟨"http://b", 80, false, none⟩, ⟨"http://c", 70, true, none⟩,
    ⟨"http://d", 60, true, none⟩], 1, false⟩

/-- The first endpoint is down, the second and the third fail, and the fourth
answers. -/
def detour : List Encounter :=
  [.posted 1 (.answered 503 ""), .checked 0 (.error (.connection "down")), .checked 2 (.ok 0),
    .updated "http://c" (.ok ()), .posted 2 (.failed "reset"), .checked 3 (.ok 0),
    .updated "http://d" (.ok ()), .posted 3 (.answered 200 "1")]

theorem detour_open : Open 3 detour := by
  refine ⟨?_, ?_, ?_⟩
  · intro r hr
    simp only [detour, List.mem_cons, Encounter.checked.injEq, reduceCtorEq, List.not_mem_nil,
      or_false, false_or] at hr
    rcases hr with ⟨h, -⟩ | ⟨h, -⟩ | ⟨-, rfl⟩
    · cases h
    · cases h
    · exact ⟨0, rfl⟩
  · intro i a ha
    simp only [detour, List.mem_cons, Encounter.posted.injEq, reduceCtorEq, List.not_mem_nil,
      or_false, false_or] at ha
    rcases ha with ⟨rfl, rfl⟩ | ⟨rfl, rfl⟩ | ⟨rfl, rfl⟩
    · exact Or.inr ⟨by decide, by simp [Http.Answer.Leaves, Http.leavingStatuses]⟩
    · exact Or.inr ⟨by decide, trivial⟩
    · have hparse : (Json.parse? "1").isSome = true := by decide +kernel
      obtain ⟨v, hv⟩ := Option.isSome_iff_exists.mp hparse
      exact Or.inl ⟨v, rfl, hv⟩
  · intro url r hr
    simp only [detour, List.mem_cons, Encounter.updated.injEq, reduceCtorEq, List.not_mem_nil,
      or_false, false_or] at hr
    rcases hr with ⟨-, rfl⟩ | ⟨-, rfl⟩
    · rfl
    · rfl

theorem a_detour_brings_an_answer :
    let c := Call.send .null
    let s : Site (List Encounter) := ⟨fourMixed, detour, 0, []⟩
    c.body? = some .null ∧ fourMixed.InRange ∧ fourMixed.isHealthy 3 = true ∧
      Open 3 (c.routine.story replay s) ∧
      ∃ v i a, (c.routine.run replay none s).1 = some (c.gain (.ok v)) ∧
        .posted i a ∈ c.routine.story replay s ∧ a.Delivers v ∧
        (tried (c.routine.story replay s)).length ≤ fourMixed.endpoints.length := by
  intro c s
  have hstory : c.routine.story replay s = detour := by decide +kernel
  have hopen : Open 3 (c.routine.story replay s) := by
    rw [hstory]
    exact detour_open
  have hp : fourMixed.InRange := by decide
  exact ⟨rfl, hp, rfl, hopen, an_open_way_brings_an_answer (s := s) rfl hp rfl hopen⟩

end ChainAccess.Pool
