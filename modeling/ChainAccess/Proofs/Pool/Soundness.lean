import ChainAccess.Proofs.Pool.Changes
import ChainAccess.Proofs.Pool.Discipline
import Mathlib.Data.List.Basic
import Mathlib.Tactic.Common
-- What holds of a pool at every moment, however the tasks on it interleave,
-- whatever the endpoints answer, and wherever tasks are dropped: the endpoint
-- in use is one of the pool, what is configured stays, and a verified pool
-- uses an endpoint that counts as healthy and whose latency is known.

namespace ChainAccess.Pool

/-! ## Sound pools -/

/-- A pool of what was configured that tells the truth about the endpoint in
use. -/
structure Sound (urls : List (String × UInt32)) (p : Pool) : Prop where
  inRange : p.InRange
  configured : p.configured = urls
  proven : p.verified = true → p.Proven p.active

variable {urls : List (String × UInt32)} {p : Pool}

theorem Sound.demote (h : p.Sound urls) : p.demote.Sound urls := by
  refine ⟨?_, ?_, ?_⟩
  · simpa [InRange] using h.inRange
  · rw [demote_configured, h.configured]
  · intro hv; cases hv

theorem Sound.markReached (h : p.Sound urls) (hv : p.verified = false) (i ms : Nat) :
    (p.markReached i ms).Sound urls := by
  refine ⟨?_, ?_, ?_⟩
  · simpa [InRange] using h.inRange
  · rw [markReached_configured, h.configured]
  · rw [markReached_verified, hv]; intro h'; cases h'

theorem Sound.markFailed (h : p.Sound urls) (hv : p.verified = false) (i : Nat) :
    (p.markFailed i).Sound urls := by
  refine ⟨?_, ?_, ?_⟩
  · simpa [InRange] using h.inRange
  · rw [markFailed_configured, h.configured]
  · rw [markFailed_verified, hv]; intro h'; cases h'

theorem Sound.activate (h : p.Sound urls) {i : Nat} (hi : p.Proven i) :
    (p.activate i).Sound urls := by
  have hlt : i < p.endpoints.length := by
    obtain ⟨e, ms, he, -⟩ := hi
    exact (List.getElem?_eq_some_iff.mp he).1
  exact ⟨hlt, h.configured, fun _ => hi⟩

theorem sound_of_ofUrls (h : Pool.ofUrls urls = .ok p) : p.Sound urls := by
  unfold Pool.ofUrls at h
  split at h
  · cases h
  · next hne =>
    cases h
    refine ⟨?_, ?_, ?_⟩
    · simpa [InRange, List.length_pos_iff, List.isEmpty_iff] using hne
    · simp [Pool.configured, Function.comp_def]
    · intro hv; cases hv

/-! ## The operations keep pools sound -/

/-- Checking candidates leaves a sound pool, and the one found is proven. -/
theorem keeps_probe (Q : Option Pool → Option Nat → Prop) (candidates : List Nat)
    (hp : p.Sound urls) (hv : p.verified = false)
    (hin : ∀ i ∈ candidates, i < p.endpoints.length)
    (hQ : ∀ q r, q.Sound urls → q.verified = false → (∀ i, r = some i → q.Proven i) →
      Q (some q) r) :
    (probe candidates).Keeps (Sound urls) Q (some p) := by
  induction candidates generalizing p with
  | nil => exact hQ p none hp hv (by simp)
  | cons i rest ih =>
    have hi : i < p.endpoints.length := hin i List.mem_cons_self
    simp only [probe, Routine.keeps_bind, Routine.keeps_view_some, Routine.keeps_tryUrl]
    refine ⟨hp, fun r => ?_⟩
    cases r with
    | ok ms =>
      have hp' := hp.markReached hv i ms
      simp only [Routine.keeps_bind, Routine.keeps_change, Routine.keeps_pure]
      refine ⟨hp', hQ _ _ hp' hv ?_⟩
      intro j hj
      cases hj
      exact proven_markReached p i ms hi
    | error e =>
      have hp' := hp.markFailed hv i
      simp only [Routine.keeps_bind, Routine.keeps_change]
      refine ⟨hp', ih hp' hv ?_⟩
      intro j hj
      simpa using hin j (List.mem_cons_of_mem i hj)

theorem keeps_takeUp (Q : Option Pool → Except RpcError Unit → Prop) {i : Nat}
    (hp : p.Sound urls) (hi : p.Proven i) (hQ : ∀ q r, q.Sound urls → Q (some q) r) :
    (takeUp i).Keeps (Sound urls) Q (some p) := by
  simp only [takeUp, Routine.keeps_bind, Routine.keeps_view_some, Routine.keeps_pointTo]
  refine ⟨hp, fun r => ?_⟩
  cases r with
  | ok u =>
    simp only [Routine.keeps_bind, Routine.keeps_change, Routine.keeps_pure]
    exact ⟨hp.activate hi, hQ _ _ (hp.activate hi)⟩
  | error e => exact hQ p _ hp

/-- A search that starts unverified leaves a sound pool. -/
theorem keeps_search (Q : Option Pool → Except RpcError Unit → Prop) (candidates : List Nat)
    (hp : p.Sound urls) (hv : p.verified = false)
    (hin : ∀ i ∈ candidates, i < p.endpoints.length) (hQ : ∀ q r, q.Sound urls → Q (some q) r) :
    (search candidates).Keeps (Sound urls) Q (some p) := by
  simp only [search, Routine.keeps_bind]
  apply keeps_probe _ _ hp hv hin
  intro q r hq _ hr
  cases r with
  | none => exact hQ q _ hq
  | some i => exact keeps_takeUp Q hq (hr i rfl) hQ

theorem keeps_ensureConnected (Q : Option Pool → Except RpcError Unit → Prop)
    (hQ : ∀ r, Q none r) : ensureConnected.Keeps (Sound urls) Q none := by
  simp only [ensureConnected, Routine.keeps_bind, Routine.keeps_view_none]
  intro p _
  split
  · exact hQ _
  · simp only [Routine.keeps_bind, Routine.keeps_lock, Routine.keeps_view_some]
    -- the pool may be another one when the lock is there
    intro q hq
    refine ⟨hq, ?_⟩
    cases hv : q.verified with
    | true => exact hQ _
    | false =>
      simp only [Bool.false_eq_true, if_false, Routine.keeps_bind]
      apply keeps_search _ _ hq hv
      · intro i hi
        exact (mem_activeFirst q i).mp hi
      · intro _ r _
        exact hQ r

theorem keeps_rotate (Q : Option Pool → Except RpcError Unit → Prop) (url : String)
    (hQ : ∀ r, Q none r) : (rotate url).Keeps (Sound urls) Q none := by
  simp only [rotate, Routine.keeps_bind, Routine.keeps_lock, Routine.keeps_step_some,
    Routine.keeps_done, afterFailureAt, rotationFrom?]
  intro p hp
  split
  · refine ⟨hp.demote, ?_⟩
    simp only [Routine.keeps_bind]
    apply keeps_search _ _ hp.demote rfl
    · intro i hi
      exact ((mem_alternatives _ i).mp hi).1
    · intro q r hq
      cases r with
      | ok u => exact ⟨hq, hQ _⟩
      | error e => exact hQ _
  · exact ⟨hp, hQ _⟩

theorem keeps_sendWithin (Q : Option Pool → Except RpcError Json → Prop) (body : Json)
    (rotations : Nat) (hQ : ∀ r, Q none r) :
    (sendWithin body rotations).Keeps (Sound urls) Q none := by
  induction rotations with
  | zero =>
    simp only [sendWithin, sendOnce, Routine.keeps_bind, Routine.keeps_view_none,
      Routine.keeps_postTo, Routine.keeps_pure]
    intro p _ a
    cases a.verdict p.activeUrl <;> exact hQ _
  | succ rotations ih =>
    simp only [sendWithin, sendOnce, Routine.keeps_bind, Routine.keeps_view_none,
      Routine.keeps_postTo, Routine.keeps_pure]
    intro p _ a
    cases a.verdict p.activeUrl with
    | final result => exact hQ _
    | leave failure =>
      simp only [Routine.keeps_bind]
      apply keeps_rotate
      intro r
      cases r with
      | ok u => exact ih
      | error e => exact hQ _

theorem keeps_send (Q : Option Pool → Except RpcError Json → Prop) (body : Json)
    (hQ : ∀ r, Q none r) : (send body).Keeps (Sound urls) Q none := by
  simp only [send, Routine.keeps_bind, Routine.keeps_view_none]
  intro p _
  exact keeps_sendWithin Q body _ hQ

/-- Every call keeps the pool sound and gives the lock back. -/
theorem keeps_call (c : Call) : c.routine.Keeps (Sound urls) (fun g _ => g = none) none := by
  cases c with
  | ensure =>
    simp only [Call.routine, Routine.keeps_bind]
    exact keeps_ensureConnected _ fun _ => rfl
  | rotate url =>
    simp only [Call.routine, Routine.keeps_bind]
    exact keeps_rotate _ url fun _ => rfl
  | send request =>
    simp only [Call.routine, Routine.keeps_bind]
    exact keeps_send _ request fun _ => rfl
  | sendBatch requests =>
    simp only [Call.routine, sendBatch, Routine.keeps_bind]
    apply keeps_send
    intro r
    cases r <;> rfl

theorem orderly_calls (hp : p.Sound urls) (calls : List Call) :
    (Scene.start p (calls.map Call.routine)).Orderly (Sound urls) := by
  apply Scene.orderly_start hp
  intro r hr
  obtain ⟨c, -, rfl⟩ := List.mem_map.mp hr
  exact keeps_call c

/-! ## The laws -/

/-- Whatever calls the tasks make on a new pool, in whatever order their steps
follow one another, whatever comes back and whichever tasks are dropped: the
endpoint in use is one of the pool, what is configured stays, a verified pool
uses a healthy endpoint of known latency, and at most one task has the lock,
so that two never check endpoints at the same time. -/
theorem a_pool_is_sound_at_every_moment (hp : Pool.ofUrls urls = .ok p) (calls : List Call)
    {es : List (Nat × Event)} {s : Scene (Except RpcError Gain)}
    (h : (Scene.start p (calls.map Call.routine)).Interleaving es s) :
    s.pool.active < s.pool.endpoints.length ∧
    s.pool.endpoints.map (fun e => (e.url, e.weight)) = urls ∧
    (s.pool.verified = true → ∃ e ms, s.pool.endpoints[s.pool.active]? = some e ∧
      e.healthy = true ∧ e.latency = some ms) ∧
    (∀ i j, s.Holds i → s.Holds j → i = j) ∧
    (∀ i j, s.Checks i → s.Checks j → i = j) := by
  have inv := (orderly_calls (sound_of_ofUrls hp) calls).interleaving h
  refine ⟨inv.pool.inRange, inv.pool.configured, inv.pool.proven, inv.exclusive, ?_⟩
  intro i j hi hj
  exact inv.exclusive i j (inv.holds_of_checks hi) (inv.holds_of_checks hj)

/-- A pool of two endpoints that are up, the first in use. -/
def twoUp : Pool := ⟨[⟨"http://a", 90, true, none⟩, ⟨"http://b", 80, true, none⟩], 0, false⟩

/-- One task makes sure of an endpoint while another leaves the first one. -/
def rivals : List Call := [.ensure, .rotate "http://a"]

/-- The first task is dropped after its check, while it has the lock, and the
second takes the second endpoint into use. -/
theorem exists_dropped_check :
    ∃ es s, (Scene.start twoUp (rivals.map Call.routine)).Interleaving es s ∧
      s.pool.active = 1 ∧ s.pool.verified = true := by
  have hcheck := Scene.Interleaving.nil (s := Scene.start twoUp (rivals.map Call.routine))
    |>.snoc (.look (i := 0) rfl)
    |>.snoc (.lock (i := 0) rfl rfl)
    |>.snoc (.look (i := 0) rfl)
    |>.snoc (.look (i := 0) rfl)
    |>.snoc (.check (i := 0) (.ok 5) rfl)
    |>.snoc (.look (i := 0) rfl)
    |>.snoc (.drop (i := 0) rfl)
  have hrotation := hcheck
    |>.snoc (.lock (i := 1) rfl rfl)
    |>.snoc (.look (i := 1) rfl)
    |>.snoc (.look (i := 1) rfl)
    |>.snoc (.check (i := 1) (.ok 7) rfl)
    |>.snoc (.look (i := 1) rfl)
    |>.snoc (.look (i := 1) rfl)
    |>.snoc (.update (i := 1) (.ok ()) rfl)
    |>.snoc (.look (i := 1) rfl)
  exact ⟨_, _, hrotation, rfl, rfl⟩

theorem a_pool_is_sound_after_a_dropped_check :
    ∃ es s, Pool.ofUrls [("http://a", 90), ("http://b", 80)] = .ok twoUp ∧
      (Scene.start twoUp (rivals.map Call.routine)).Interleaving es s ∧
      s.pool.verified = true ∧
      s.pool.active < s.pool.endpoints.length ∧
      s.pool.endpoints.map (fun e => (e.url, e.weight)) = [("http://a", 90), ("http://b", 80)] ∧
      (s.pool.verified = true → ∃ e ms, s.pool.endpoints[s.pool.active]? = some e ∧
        e.healthy = true ∧ e.latency = some ms) ∧
      (∀ i j, s.Holds i → s.Holds j → i = j) ∧
      (∀ i j, s.Checks i → s.Checks j → i = j) := by
  obtain ⟨es, s, hrun, -, hv⟩ := exists_dropped_check
  exact ⟨es, s, rfl, hrun, hv, a_pool_is_sound_at_every_moment rfl rivals hrun⟩

end ChainAccess.Pool
