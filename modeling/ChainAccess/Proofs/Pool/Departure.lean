import ChainAccess.Pool.Http
import ChainAccess.Proofs.Pool.Soundness
import ChainAccess.Proofs.Pool.Terms
import Mathlib.Data.List.Basic
import Mathlib.Tactic.Common
-- Many tasks leave one endpoint at once. All of them saw it fail, and others
-- make sure of an endpoint meanwhile. As long as each endpoint is reachable
-- throughout or at no time, the pool leaves the endpoint for a reachable one
-- and stays there: whoever comes late finds another endpoint in use.

namespace ChainAccess

/-- A text that stands for a URL. -/
def IsUrl (url : String) : Prop := ∃ u, Url.ofString url = .ok u

namespace Pool

/-! ## Reachable endpoints -/

/-- What may happen while each endpoint is reachable throughout or at no time,
as `reachable` says, and no task is dropped: just the checks of reachable
endpoints pass, and the client can be pointed to every URL. -/
def Event.Fits (reachable : String → Prop) : Event → Prop
  | .checked _ url r => (∃ ms, r = .ok ms) ↔ reachable url
  | .updated url r => IsUrl url → r = .ok ()
  | .dropped => False
  | _ => True

/-- Over HTTP the client can be pointed to every URL. -/
theorem Line.update_isUrl {ω : Type} (l : Line ω) {url : String} (v : ω) (h : IsUrl url) :
    (l.wire.update url v).answer = .ok () := by
  obtain ⟨u, hu⟩ := h
  simp [Line.wire, Url.normalized, hu, Except.map]

variable {p₀ p : Pool} {reachable : String → Prop}

/-- What tasks may count on that leave the endpoint in use in `p₀`: another one
is taken into use only when it is reachable, and then it stays in use. -/
def leaving (p₀ : Pool) (reachable : String → Prop) : Terms where
  holds p := p.configured = p₀.configured ∧ p.InRange ∧
    (p.active ≠ p₀.active → p.verified = true ∧ reachable p.activeUrl)
  follows p q := p.active ≠ p₀.active → q.active = p.active
  admits := Event.Fits reachable
  refl _ _ := rfl
  trans h h' hp := by
    have hq := h hp
    rw [h' (by rwa [hq]), hq]

/-- Something may come whatever a task waits for. -/
theorem leaving_lively : (leaving p₀ reachable).Lively := by
  refine ⟨trivial, trivial, trivial, fun place url => ?_, fun url => ⟨.ok (), fun _ => rfl⟩,
    fun _ _ => ⟨.failed "", trivial⟩⟩
  by_cases h : reachable url
  · exact ⟨.ok 0, iff_of_true ⟨0, rfl⟩ h⟩
  · refine ⟨.error .noHealthyEndpoint, iff_of_false ?_ h⟩
    rintro ⟨ms, hms⟩
    cases hms

/-- The pool has not left the endpoint in use in `p₀`. -/
structure Unmoved (p₀ p : Pool) : Prop where
  configured : p.configured = p₀.configured
  active : p.active = p₀.active

theorem length_of_configured {q : Pool} (h : p.configured = q.configured) :
    p.endpoints.length = q.endpoints.length := by
  simpa [configured] using congrArg List.length h

theorem Unmoved.holds (h : Unmoved p₀ p) (h₀ : p₀.InRange) : (leaving p₀ reachable).holds p := by
  refine ⟨h.configured, ?_, fun hne => absurd h.active hne⟩
  rw [InRange, length_of_configured h.configured, h.active]
  exact h₀

theorem Unmoved.follows (h : Unmoved p₀ p) (q : Pool) : (leaving p₀ reachable).follows p q :=
  fun hne => absurd h.active hne

theorem Unmoved.markReached (h : Unmoved p₀ p) (i ms : Nat) : Unmoved p₀ (p.markReached i ms) :=
  ⟨by rw [markReached_configured, h.configured], h.active⟩

theorem Unmoved.markFailed (h : Unmoved p₀ p) (i : Nat) : Unmoved p₀ (p.markFailed i) :=
  ⟨by rw [markFailed_configured, h.configured], h.active⟩

theorem Unmoved.demote (h : Unmoved p₀ p) : Unmoved p₀ p.demote :=
  ⟨by rw [demote_configured, h.configured], h.active⟩

theorem Unmoved.urlAt (h : Unmoved p₀ p) (i : Nat) : p.urlAt i = p₀.urlAt i :=
  urlAt_eq_of_configured h.configured i

/-! ## Searches that cannot fail -/

/-- What checking candidates finds: a reachable one, or none when there is no
reachable one. -/
def Finds (p₀ : Pool) (reachable : String → Prop) (candidates : List Nat) : Option Nat → Prop
  | some i => i ∈ candidates ∧ reachable (p₀.urlAt i)
  | none => ∀ i ∈ candidates, ¬ reachable (p₀.urlAt i)

variable {candidates : List Nat}

theorem meets_probe (Q : Bool → Pool → Option Nat → Prop) (h₀ : p₀.InRange) (hp : Unmoved p₀ p)
    (hQ : ∀ q found, Unmoved p₀ q → Finds p₀ reachable candidates found → Q true q found) :
    (probe candidates).Meets (leaving p₀ reachable) Q (3 * candidates.length) true p := by
  induction candidates generalizing p with
  | nil => exact hQ p none hp fun i hi => nomatch hi
  | cons i rest ih =>
    refine ⟨hp.holds h₀, hp.follows _, fun r hr => ?_⟩
    have hpass : (∃ ms, r = .ok ms) ↔ reachable (p₀.urlAt i) := by rwa [← hp.urlAt i]
    cases r with
    | ok ms =>
      have hreach := hpass.mp ⟨ms, rfl⟩
      have hp' := hp.markReached i ms
      have hfound := hQ _ (some i) hp' ⟨List.mem_cons_self, hreach⟩
      exact ⟨hp'.holds h₀, hp.follows _, Routine.Meets.mono (k := 0) hfound (Nat.zero_le _)⟩
    | error e =>
      have hmiss : ¬ reachable (p₀.urlAt i) := by
        intro hreach
        obtain ⟨ms, hms⟩ := hpass.mpr hreach
        cases hms
      have hp' := hp.markFailed i
      refine ⟨hp'.holds h₀, hp.follows _, ih hp' fun q found hq hfound => hQ q found hq ?_⟩
      cases found with
      | some j => exact ⟨List.mem_cons_of_mem _ hfound.1, hfound.2⟩
      | none =>
        intro j hj
        rcases List.mem_cons.mp hj with rfl | hj
        · exact hmiss
        · exact hfound j hj

/-- A search with a reachable candidate takes a reachable one into use. -/
theorem meets_search (Q : Bool → Pool → Except RpcError Unit → Prop) (h₀ : p₀.InRange)
    (hurls : ∀ url, reachable url → IsUrl url) (hp : Unmoved p₀ p)
    (hin : ∀ i ∈ candidates, i < p₀.endpoints.length)
    (hsome : ∃ i ∈ candidates, reachable (p₀.urlAt i))
    (hQ : ∀ q, (leaving p₀ reachable).holds q → q.active ∈ candidates → Q true q (.ok ())) :
    (search candidates).Meets (leaving p₀ reachable) Q (3 + 3 * candidates.length) true p := by
  refine Routine.Meets.bind (meets_probe _ h₀ hp fun q found hq hfound => ?_)
  cases found with
  | none =>
    obtain ⟨i, hi, hreach⟩ := hsome
    exact absurd hreach (hfound i hi)
  | some i =>
    have hreach : reachable (q.urlAt i) := by
      rw [hq.urlAt i]
      exact hfound.2
    refine ⟨hq.holds h₀, hq.follows _, fun r hr => ?_⟩
    cases hr (hurls _ hreach)
    have hlt : i < q.endpoints.length := by
      rw [length_of_configured hq.configured]
      exact hin i hfound.1
    have hactive : (leaving p₀ reachable).holds (q.activate i) :=
      ⟨hq.configured, hlt, fun _ => ⟨rfl, hreach⟩⟩
    exact ⟨hactive, hq.follows _, hQ _ hactive hfound.1⟩

theorem activeFirst_length (p : Pool) : p.activeFirst.length ≤ p.endpoints.length := by
  have h := List.length_eq_length_filter_add (l := p.places) (· = p.active)
  simp only [activeFirst, List.length_append]
  simp only [places, List.length_range, decide_not] at h ⊢
  omega

theorem alternatives_length (p : Pool) : p.alternatives.length ≤ p.endpoints.length := by
  have h := List.length_eq_length_filter_add (l := p.places.filter (· ≠ p.active)) p.isHealthy
  have hle := List.length_filter_le (· ≠ p.active) p.places
  simp only [alternatives, List.length_append]
  simp only [places, List.length_range] at h hle ⊢
  omega

/-! ## The calls -/

/-- The steps that suffice for a rotation or a connection. -/
def callSteps (p₀ : Pool) : Nat := 3 * p₀.endpoints.length + 7

/-- Another endpoint than the one in use in `p₀` is reachable. -/
def HasWayOut (p₀ : Pool) (reachable : String → Prop) : Prop :=
  ∃ i, i < p₀.endpoints.length ∧ i ≠ p₀.active ∧ reachable (p₀.urlAt i)

theorem meets_ensureConnected (Q : Bool → Pool → Except RpcError Unit → Prop) (h₀ : p₀.InRange)
    (hurls : ∀ url, reachable url → IsUrl url) (hout : HasWayOut p₀ reachable)
    (hQ : ∀ q, Q false q (.ok ())) :
    ensureConnected.Meets (leaving p₀ reachable) Q (callSteps p₀) false p := by
  simp only [ensureConnected, callSteps, Routine.meets_view_bind_free]
  intro q _ _
  cases q.verified with
  | true => simpa using hQ q
  | false =>
    simp only [Bool.false_eq_true, if_false, Routine.meets_lock_bind]
    -- the pool may be another one when the lock is there
    intro m hm _
    simp only [Routine.view, Routine.meets_step_bind_held]
    refine ⟨hm, Terms.refl _ m, ?_⟩
    cases hv : m.verified with
    | true => simpa using hQ m
    | false =>
      simp only [Bool.false_eq_true, if_false]
      -- a pool that is not verified has not left the endpoint
      have hun : Unmoved p₀ m := by
        refine ⟨hm.1, by_contra fun hne => ?_⟩
        rw [(hm.2.2 hne).1] at hv
        cases hv
      have hlen := length_of_configured hun.configured
      have hbound : 1 + (3 + 3 * m.activeFirst.length) ≤ 3 * p₀.endpoints.length + 4 := by
        have := activeFirst_length m
        omega
      refine Routine.Meets.mono (Routine.Meets.bind ?_) hbound
      refine meets_search _ h₀ hurls hun ?_ ?_ fun q _ _ => hQ q
      · intro i hi
        rw [← hlen]
        exact (mem_activeFirst m i).mp hi
      · obtain ⟨i, hi, -, hreach⟩ := hout
        exact ⟨i, (mem_activeFirst m i).mpr (hlen ▸ hi), hreach⟩

/-- The URLs of a pool tell its endpoints apart. -/
theorem eq_of_urlAt_eq {i j : Nat} (hd : (p.endpoints.map (·.url)).Nodup)
    (hi : i < p.endpoints.length) (hj : j < p.endpoints.length) (h : p.urlAt i = p.urlAt j) :
    i = j := by
  have hij : (p.endpoints.map (·.url))[i]? = (p.endpoints.map (·.url))[j]? := by
    simpa [urlAt, hi, hj] using h
  exact (List.getElem?_inj (by simpa using hi) hd).mp hij

theorem meets_rotate (Q : Bool → Pool → Except RpcError Unit → Prop) (h₀ : p₀.InRange)
    (hdistinct : (p₀.endpoints.map (·.url)).Nodup)
    (hurls : ∀ url, reachable url → IsUrl url) (hout : HasWayOut p₀ reachable)
    (hQ : ∀ q, q.active ≠ p₀.active → Q false q (.ok ())) :
    (rotate p₀.activeUrl).Meets (leaving p₀ reachable) Q (callSteps p₀) false p := by
  simp only [rotate, callSteps, Routine.meets_lock_bind]
  intro q hq _
  simp only [Routine.meets_step_bind_held, afterFailureAt, rotationFrom?]
  by_cases hurl : q.activeUrl = p₀.activeUrl
  · have hun : Unmoved p₀ q := by
      refine ⟨hq.1, ?_⟩
      have hlen := length_of_configured hq.1
      rw [activeUrl, urlAt_eq_of_configured hq.1] at hurl
      exact eq_of_urlAt_eq hdistinct (hlen ▸ hq.2.1) h₀ hurl
    have hlen := length_of_configured hun.demote.configured
    simp only [hurl, if_true]
    refine ⟨hun.demote.holds h₀, hun.follows _, ?_⟩
    have hbound : 2 + (3 + 3 * q.demote.alternatives.length) ≤ 3 * p₀.endpoints.length + 5 := by
      have := alternatives_length q.demote
      omega
    refine Routine.Meets.mono (Routine.Meets.bind ?_) hbound
    refine meets_search _ h₀ hurls hun.demote ?_ ?_ fun m hm hmem => ?_
    · intro i hi
      rw [← hlen]
      exact ((mem_alternatives _ i).mp hi).1
    · obtain ⟨i, hi, hne, hreach⟩ := hout
      refine ⟨i, (mem_alternatives _ i).mpr ⟨hlen ▸ hi, ?_⟩, hreach⟩
      rwa [hun.demote.active]
    · have hne := ((mem_alternatives _ _).mp hmem).2
      rw [hun.demote.active] at hne
      exact ⟨hm, Terms.refl _ m, hQ m hne⟩
  · simp only [hurl, if_false]
    refine ⟨hq, Terms.refl _ q, ?_⟩
    have hne : q.active ≠ p₀.active := by
      intro heq
      rw [activeUrl, urlAt_eq_of_configured hq.1, heq] at hurl
      exact hurl rfl
    simpa using hQ q hne

/-! ## Runs -/

namespace Scene

variable {α : Type}

/-- A run in which the endpoint in use changes `n` times. -/
inductive Turns (s : Scene α) : Nat → List (Nat × Event) → Scene α → Prop
  | nil : Turns s 0 [] s
  | stay {n es t i e u} : Turns s n es t → Move t i e u → u.pool.active = t.pool.active →
      Turns s n (es ++ [(i, e)]) u
  | turn {n es t i e u} : Turns s n es t → Move t i e u → u.pool.active ≠ t.pool.active →
      Turns s (n + 1) (es ++ [(i, e)]) u

/-- In every run the endpoint in use changes some number of times. -/
theorem Interleaving.exists_turns {s t : Scene α} {es : List (Nat × Event)}
    (h : s.Interleaving es t) : ∃ n, s.Turns n es t := by
  induction h with
  | nil => exact ⟨0, .nil⟩
  | @snoc es t i e u _ hm ih =>
    obtain ⟨n, hn⟩ := ih
    by_cases hu : u.pool.active = t.pool.active
    · exact ⟨n, hn.stay hm hu⟩
    · exact ⟨n + 1, hn.turn hm hu⟩

theorem Turns.interleaving {s t : Scene α} {n : Nat} {es : List (Nat × Event)}
    (h : s.Turns n es t) : s.Interleaving es t := by
  induction h with
  | nil => exact .nil
  | stay _ hm _ ih => exact ih.snoc hm
  | turn _ hm _ ih => exact ih.snoc hm

end Scene

/-- What a call to leave the endpoint in use in `p₀`, or to make sure of an
endpoint, ends with: it succeeds, and the pool has left the endpoint after a
call to leave it. -/
def EndsWell (p₀ : Pool) (c : Call) (q : Pool) (r : Except RpcError Gain) : Prop :=
  (∃ g, r = .ok g) ∧ (c = .rotate p₀.activeUrl → q.active ≠ p₀.active)

theorem meets_call {c : Call} (Q : Bool → Pool → Except RpcError Gain → Prop)
    (hc : c = .ensure ∨ c = .rotate p₀.activeUrl) (h₀ : p₀.InRange)
    (hdistinct : (p₀.endpoints.map (·.url)).Nodup)
    (hurls : ∀ url, reachable url → IsUrl url) (hout : HasWayOut p₀ reachable)
    (hQ : ∀ q r, EndsWell p₀ c q r → Q false q r) :
    c.routine.Meets (leaving p₀ reachable) Q (callSteps p₀) false p := by
  have hbound : 0 + callSteps p₀ ≤ callSteps p₀ := by omega
  rcases hc with rfl | rfl
  · refine Routine.Meets.mono (Routine.Meets.bind ?_) hbound
    exact meets_ensureConnected _ h₀ hurls hout fun q => hQ q _ ⟨⟨.nothing, rfl⟩, by simp⟩
  · refine Routine.Meets.mono (Routine.Meets.bind ?_) hbound
    exact meets_rotate _ h₀ hdistinct hurls hout fun q hq =>
      hQ q _ ⟨⟨.nothing, rfl⟩, fun _ => hq⟩

/-- What holds all the time while tasks leave an endpoint: they are orderly,
they keep to the terms, and the endpoint in use has changed once if it is
another one now, and not at all otherwise. -/
structure Leaving (p₀ : Pool) (reachable : String → Prop) (calls : List Call)
    (n : Nat) (es : List (Nat × Event)) (s : Scene (Except RpcError Gain)) : Prop where
  orderly : s.Orderly (Sound p₀.configured)
  meets : s.Meets (leaving p₀ reachable)
    (fun i q r => ∃ c, calls[i]? = some c ∧ EndsWell p₀ c q r) (callSteps p₀) es
  turns : n = if s.pool.active = p₀.active then 0 else 1

section

variable {calls : List Call} {n m i : Nat} {es : List (Nat × Event)} {e : Event}
  {s t : Scene (Except RpcError Gain)}

theorem leaving_start (h₀ : p₀.Sound p₀.configured)
    (hdistinct : (p₀.endpoints.map (·.url)).Nodup)
    (hcalls : ∀ c ∈ calls, c = .ensure ∨ c = .rotate p₀.activeUrl)
    (hurls : ∀ url, reachable url → IsUrl url) (hout : HasWayOut p₀ reachable) :
    Leaving p₀ reachable calls 0 [] (Scene.start p₀ (calls.map Call.routine)) := by
  have hun : Unmoved p₀ p₀ := ⟨rfl, rfl⟩
  refine ⟨orderly_calls h₀ calls, Scene.meets_start (hun.holds h₀.inRange) ?_, ?_⟩
  swap
  · simp [Scene.start]
  intro i r hr
  simp only [List.getElem?_map, Option.map_eq_some_iff] at hr
  obtain ⟨c, hc, rfl⟩ := hr
  exact meets_call _ (hcalls c (List.mem_of_getElem? hc)) h₀.inRange hdistinct hurls hout
    fun q r h => ⟨rfl, c, hc, h⟩

theorem Leaving.move (h : Leaving p₀ reachable calls n es s) (hm : Scene.Move s i e t)
    (he : e.Fits reachable)
    (hturns : m = if t.pool.active = s.pool.active then n else n + 1) :
    Leaving p₀ reachable calls m (es ++ [(i, e)]) t := by
  have hdrop : e ≠ .dropped := by
    rintro rfl
    exact he
  obtain ⟨hmeets, hfollows⟩ := h.meets.move h.orderly hm he hdrop
  refine ⟨h.orderly.move hm, hmeets, ?_⟩
  rw [hturns, h.turns]
  by_cases hs : s.pool.active = p₀.active
  · simp [hs]
  -- the endpoint was left before, and what was taken into use stays
  · have hts := hfollows hs
    simp [hts, hs]

/-- What one step keeps holds after every run. -/
theorem Leaving.of_turns (h₀ : Leaving p₀ reachable calls 0 [] t) (hrun : t.Turns n es s)
    (hfits : ∀ x ∈ es, x.2.Fits reachable) : Leaving p₀ reachable calls n es s := by
  induction hrun with
  | nil => exact h₀
  | stay _ hm heq ih =>
    have hprefix := ih fun x hx => hfits x (List.mem_append_left _ hx)
    exact hprefix.move hm (hfits _ List.mem_concat_self) (by simp [heq])
  | turn _ hm hne ih =>
    have hprefix := ih fun x hx => hfits x (List.mem_append_left _ hx)
    exact hprefix.move hm (hfits _ List.mem_concat_self) (by simp [hne])

/-- All tasks of the scene have returned. -/
def Scene.Returned (s : Scene (Except RpcError Gain)) : Prop :=
  ∀ (i : Nat) (u : Task (Except RpcError Gain)), s.tasks[i]? = some u →
    ∃ r, u.rest = some (.done r)

theorem Scene.returned_of_rests {α : Type} {s : Scene (Except RpcError Gain)} {as : List α}
    {f : α → Except RpcError Gain}
    (h : s.tasks.map (·.rest) = as.map fun a => some (.done (f a))) : s.Returned := by
  intro i u hu
  have hi := congrArg (·[i]?) h
  simp only [List.getElem?_map, hu, Option.map_some] at hi
  obtain ⟨a, -, ha⟩ := Option.map_eq_some_iff.mp hi.symm
  exact ⟨f a, ha.symm⟩

/-- A task that has returned has ended well. -/
theorem Leaving.endsWell (h : Leaving p₀ reachable calls n es s) {r : Except RpcError Gain}
    {holds : Bool} (ht : s.tasks[i]? = some ⟨some (.done r), holds⟩) :
    ∃ c q, calls[i]? = some c ∧ EndsWell p₀ c q r ∧
      (leaving p₀ reachable).follows q s.pool := by
  obtain ⟨k, -, hk⟩ := h.meets.tasks i _ ht
  obtain ⟨q, hq, c, hc, hends⟩ := hk.ended
  exact ⟨c, q, hc, hends, hq⟩

/-- No run stands still before all tasks have returned. -/
theorem Leaving.returned_or_moves (h : Leaving p₀ reachable calls n es s) :
    s.Returned ∨ ∃ i e t, Scene.Move s i e t ∧ e.Fits reachable := by
  have hlively : (leaving p₀ reachable).Lively := leaving_lively
  rcases h.orderly.over_or_moves hlively with hover | hmoves
  · left
    intro i u hu
    rcases hover i u hu with hnone | hdone
    · obtain ⟨k, -, hk⟩ := h.meets.tasks i u hu
      rw [Task.Meets, hnone] at hk
      exact hk.elim
    · exact hdone
  · exact Or.inr hmoves

/-! ## The laws -/

/-- Any number of tasks leave the endpoint in use because they saw it fail,
and others make sure of an endpoint, in whatever order their steps follow one
another. While each endpoint is reachable throughout or at no time and another
one than that in use is reachable, every call returns after a bounded number of
its steps, no run stands still before that, every call succeeds, and the
endpoint in use changes once, to a reachable one that is verified. -/
theorem an_endpoint_is_left_once_by_all_who_saw_it_fail (h₀ : p₀.Sound p₀.configured)
    (hdistinct : (p₀.endpoints.map (·.url)).Nodup)
    (hcalls : ∀ c ∈ calls, c = .ensure ∨ c = .rotate p₀.activeUrl)
    (hsome : .rotate p₀.activeUrl ∈ calls)
    (hurls : ∀ url, reachable url → IsUrl url) (hout : HasWayOut p₀ reachable)
    (hrun : (Scene.start p₀ (calls.map Call.routine)).Interleaving es s)
    (hfits : ∀ x ∈ es, x.2.Fits reachable) :
    (∀ i < calls.length, stepsOf i es ≤ 3 * p₀.endpoints.length + 7) ∧
    (s.Returned ∨ ∃ i e t, Scene.Move s i e t ∧ e.Fits reachable) ∧
    (∀ (i : Nat) (r : Except RpcError Gain) (holds : Bool),
      s.tasks[i]? = some ⟨some (.done r), holds⟩ → ∃ g, r = .ok g) ∧
    (∃ n, (Scene.start p₀ (calls.map Call.routine)).Turns n es s) ∧
    (∀ n, (Scene.start p₀ (calls.map Call.routine)).Turns n es s →
      n ≤ 1 ∧ (s.Returned → n = 1)) ∧
    (s.Returned → s.pool.active ≠ p₀.active ∧ reachable s.pool.activeUrl ∧
      s.pool.verified = true) := by
  have hstart := leaving_start h₀ hdistinct hcalls hurls hout
  obtain ⟨n₀, hturns⟩ := hrun.exists_turns
  have hleaving := hstart.of_turns hturns hfits
  have hlen : s.tasks.length = calls.length := by
    simpa [Scene.start] using hrun.tasks_length
  have hleft : s.Returned → s.pool.active ≠ p₀.active := by
    intro hret
    obtain ⟨i, hi, hc⟩ := List.getElem_of_mem hsome
    obtain ⟨⟨rest, holds⟩, ht⟩ : ∃ u, s.tasks[i]? = some u :=
      ⟨_, List.getElem?_eq_getElem (hlen ▸ hi)⟩
    obtain ⟨r, hr⟩ := hret i _ ht
    cases hr
    obtain ⟨c, q, hci, hends, hfollows⟩ := hleaving.endsWell ht
    -- the task that was to leave the endpoint saw another one in use
    have hq : q.active ≠ p₀.active := by
      rw [List.getElem?_eq_getElem hi, hc, Option.some.injEq] at hci
      exact hends.2 hci.symm
    rwa [hfollows hq]
  refine ⟨?_, hleaving.returned_or_moves, ?_, ⟨n₀, hturns⟩, ?_, ?_⟩
  · intro i hi
    obtain ⟨k, hk, -⟩ := hleaving.meets.tasks i _ (List.getElem?_eq_getElem (hlen ▸ hi))
    exact Nat.le_trans (Nat.le_add_left _ k) hk
  · intro i r holds ht
    obtain ⟨c, q, -, hends, -⟩ := hleaving.endsWell ht
    exact hends.1
  · intro n hn
    have hcount := (hstart.of_turns hn hfits).turns
    refine ⟨?_, fun hret => by simp [hcount, hleft hret]⟩
    rw [hcount]
    split <;> omega
  · intro hret
    obtain ⟨hverified, hreach⟩ := hleaving.meets.pool.2.2 (hleft hret)
    exact ⟨hleft hret, hreach, hverified⟩

end

/-! ## Two that leave and one that makes sure -/

/-- Two tasks leave the first endpoint, and one makes sure of an endpoint. -/
def leavers : List Call := [.rotate "http://a", .rotate "http://a", .ensure]

/-- Just the second endpoint is reachable. -/
def onlySecond (url : String) : Prop := url = "http://b"

theorem onlySecond_isUrl (url : String) (h : onlySecond url) : IsUrl url := by
  have hok : (Url.ofString "http://b").isOk = true := by decide +kernel
  rw [h]
  cases hu : Url.ofString "http://b" with
  | ok u => exact ⟨u, hu⟩
  | error e => simp [hu, Except.isOk, Except.toBool] at hok

/-- The first task takes the second endpoint into use, and the other two find
it there. -/
def departure : List (Nat × Event) :=
  [(2, .looked), (0, .locked), (0, .looked), (0, .looked), (0, .checked 1 "http://b" (.ok 7)),
    (0, .looked), (0, .looked), (0, .updated "http://b" (.ok ())), (0, .looked), (0, .looked),
    (0, .unlocked), (1, .locked), (1, .looked), (1, .unlocked), (2, .locked), (2, .looked),
    (2, .unlocked)]

theorem departure_fits : ∀ x ∈ departure, x.2.Fits onlySecond := by
  simp [departure, Event.Fits, onlySecond]

theorem exists_departure :
    ∃ s, (Scene.start twoUp (leavers.map Call.routine)).Turns 1 departure s ∧
      s.tasks.map (·.rest) = leavers.map fun _ => some (.done (.ok .nothing)) := by
  have hleft := Scene.Turns.nil (s := Scene.start twoUp (leavers.map Call.routine))
    |>.stay (.look (i := 2) rfl) rfl
    |>.stay (.lock (i := 0) rfl rfl) rfl
    |>.stay (.look (i := 0) rfl) rfl
    |>.stay (.look (i := 0) rfl) rfl
    |>.stay (.check (i := 0) (.ok 7) rfl) rfl
    |>.stay (.look (i := 0) rfl) rfl
    |>.stay (.look (i := 0) rfl) rfl
    |>.stay (.update (i := 0) (.ok ()) rfl) rfl
    |>.turn (.look (i := 0) rfl) (by decide)
    |>.stay (.look (i := 0) rfl) rfl
    |>.stay (.unlock (i := 0) rfl) rfl
  have hall := hleft
    |>.stay (.lock (i := 1) rfl rfl) rfl
    |>.stay (.look (i := 1) rfl) rfl
    |>.stay (.unlock (i := 1) rfl) rfl
    |>.stay (.lock (i := 2) rfl rfl) rfl
    |>.stay (.look (i := 2) rfl) rfl
    |>.stay (.unlock (i := 2) rfl) rfl
  exact ⟨_, hall, rfl⟩

theorem two_leave_the_first_endpoint_once :
    ∃ s, (Scene.start twoUp (leavers.map Call.routine)).Turns 1 departure s ∧ s.Returned ∧
      (∀ (i : Nat) (r : Except RpcError Gain) (holds : Bool),
        s.tasks[i]? = some ⟨some (.done r), holds⟩ → ∃ g, r = .ok g) ∧
      s.pool.active ≠ twoUp.active ∧ onlySecond s.pool.activeUrl ∧ s.pool.verified = true := by
  obtain ⟨s, hrun, hrests⟩ := exists_departure
  have hsound : twoUp.Sound twoUp.configured := sound_of_ofUrls rfl
  have hcalls : ∀ c ∈ leavers, c = .ensure ∨ c = .rotate twoUp.activeUrl := by
    simp [leavers, show twoUp.activeUrl = "http://a" from rfl]
  have hout : HasWayOut twoUp onlySecond := ⟨1, by decide, by decide, rfl⟩
  obtain ⟨-, -, hok, -, -, hend⟩ := an_endpoint_is_left_once_by_all_who_saw_it_fail hsound
    (by decide) hcalls List.mem_cons_self onlySecond_isUrl hout hrun.interleaving departure_fits
  have hret := Scene.returned_of_rests hrests
  exact ⟨s, hrun, hret, hok, hend hret⟩

end Pool

end ChainAccess
