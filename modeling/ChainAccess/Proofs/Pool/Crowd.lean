import ChainAccess.Pool.Crowd
import ChainAccess.Proofs.Pool.Soundness
import Mathlib.Data.List.Basic
import Mathlib.Tactic.Common
-- The runs that are carried out are interleavings: those of a crowd, whose
-- tasks take the lock in the order in which they asked for it, and those of a
-- routine alone, which a deadline may drop. So what holds in every scene that
-- interleavings reach holds of them.

namespace ChainAccess.Pool

variable {ω α : Type} {I : Pool → Prop}

namespace Scene

/-! ## What tasks share -/

/-- The scene has the pool that the tasks share, and whoever has the lock in
the scene is its holder. -/
structure Shows (s : Scene α) (sh : Shared ω) : Prop where
  pool : s.pool = sh.site.pool
  holder : ∀ j, s.Holds j → sh.holder = some j

/-- A task that may take the lock finds it free in the scene. -/
theorem Shows.unlocked {s : Scene α} {sh : Shared ω} (hs : s.Shows sh) (inv : s.Orderly I)
    {i : Nat} {next : Routine α} {holds : Bool}
    (ht : s.tasks[i]? = some ⟨some (.acquire next), holds⟩) (hmay : sh.mayLock i = true) :
    s.locked = false := by
  cases hl : s.locked with
  | false => rfl
  | true =>
    obtain ⟨j, hj⟩ := inv.locked_iff.mp hl
    have hji : j = i := by simpa [Shared.mayLock, hs.holder j hj] using hmay
    -- a task that has the lock does not ask for it
    obtain ⟨t, htj, hh⟩ := hj
    rw [hji, ht, Option.some.injEq] at htj
    subst htj
    cases hh
    exact (inv.tasks i _ ht).elim

/-- Task `i` gets to the routine `r` by steps that end with what the tasks
share as in `sh`. -/
def Reaches (s : Scene α) (i : Nat) (r : Routine α) (sh : Shared ω) : Prop :=
  ∃ es t holds, s.Interleaving es t ∧ t.Shows sh ∧ t.tasks = s.tasks.set i ⟨some r, holds⟩

theorem Reaches.here {s : Scene α} {i : Nat} {r : Routine α} {sh : Shared ω} {holds : Bool}
    (ht : s.tasks[i]? = some ⟨some r, holds⟩) (hs : s.Shows sh) : s.Reaches i r sh := by
  refine ⟨[], s, holds, .nil, hs, ?_⟩
  obtain ⟨hi, hget⟩ := List.getElem?_eq_some_iff.mp ht
  rw [← hget, List.set_getElem_self]

theorem Reaches.after {s t : Scene α} {i : Nat} {r : Routine α} {sh : Shared ω} {e : Event}
    {u : Task α} (hm : Move s i e t) (htasks : t.tasks = s.tasks.set i u)
    (h : t.Reaches i r sh) : s.Reaches i r sh := by
  obtain ⟨es, v, holds, hrun, hs, hv⟩ := h
  refine ⟨_, v, holds, (Interleaving.single hm).trans hrun, hs, ?_⟩
  rw [hv, htasks, List.set_set]

/-- A step that leaves the lock with whom it is shows the new pool. -/
theorem Shows.put {s : Scene α} {sh sh' : Shared ω} (hs : s.Shows sh) {i : Nat}
    {rest rest' : Option (Routine α)} {holds : Bool} (ht : s.tasks[i]? = some ⟨rest, holds⟩)
    {q : Pool} (hq : q = sh'.site.pool) (hh : sh'.holder = sh.holder) :
    ({ s with pool := q }.put i ⟨rest', holds⟩).Shows sh' := by
  refine ⟨hq, ?_⟩
  intro j hj
  rw [holds_put (s := { s with pool := q }) ht] at hj
  rw [hh]
  split at hj
  · next hji => subst hji; exact hs.holder j ⟨_, ht, hj⟩
  · exact hs.holder j hj

end Scene

open Scene

/-! ## Crowds -/

/-- What a task does until it waits is an interleaving. -/
theorem advance_is_an_interleaving (w : Wire ω) (i : Nat) (r : Routine α) {sh : Shared ω}
    {s : Scene α} {holds : Bool} (inv : s.Orderly I) (hs : s.Shows sh)
    (ht : s.tasks[i]? = some ⟨some r, holds⟩) :
    s.Reaches i (r.advance w i sh).1.routine (r.advance w i sh).2 := by
  induction r generalizing sh s holds with
  | done a => exact .here ht hs
  | step change next ih =>
    have hm : Move s i .looked _ := .look ht
    refine .after hm rfl ?_
    simp only [Routine.advance]
    rw [← hs.pool]
    exact ih _ (inv.move hm) (hs.put ht rfl rfl) (task_put_self ht)
  | acquire next ih =>
    simp only [Routine.advance]
    split
    · next hmay =>
      have hfree := hs.unlocked inv ht hmay
      have hm : Move s i .locked _ := .lock ht hfree
      refine .after hm rfl (ih (inv.move hm) ⟨hs.pool, fun j hj => ?_⟩ (task_put_self ht))
      rw [holds_put (s := { s with locked := true }) ht] at hj
      split at hj
      · next hji => rw [hji]
      · rw [inv.locked_iff.mpr ⟨j, hj⟩] at hfree; cases hfree
    · have henqueue : (sh.enqueue i).site = sh.site ∧ (sh.enqueue i).holder = sh.holder := by
        unfold Shared.enqueue
        split <;> exact ⟨rfl, rfl⟩
      refine .here ht ⟨?_, fun j hj => ?_⟩
      · rw [henqueue.1, hs.pool]
      · rw [henqueue.2, hs.holder j hj]
  | release next ih =>
    have hm : Move s i .unlocked _ := .unlock ht
    refine .after hm rfl (ih (inv.move hm) ⟨hs.pool, fun j hj => ?_⟩ (task_put_self ht))
    -- nobody has the lock after it was given back
    have := (inv.move hm).locked_iff.mpr ⟨j, hj⟩
    cases this
  | check place url next ih =>
    have hm := Move.check (s := s) ((w.check url sh.site.wire).answer.map
      fun _ => (w.check url sh.site.wire).elapsed) ht
    refine .after hm rfl ?_
    simp only [Routine.advance, Shared.ask]
    split
    · exact ih _ (inv.move hm) (hs.put ht hs.pool rfl) (task_put_self ht)
    · exact .here (task_put_self ht) (hs.put ht hs.pool rfl)
  | update url next ih =>
    have hm := Move.update (s := s) (w.update url sh.site.wire).answer ht
    refine .after hm rfl ?_
    simp only [Routine.advance, Shared.ask]
    split
    · exact ih _ (inv.move hm) (hs.put ht hs.pool rfl) (task_put_self ht)
    · exact .here (task_put_self ht) (hs.put ht hs.pool rfl)
  | post url body next ih =>
    have hm := Move.post (s := s) (w.post url body sh.site.wire).answer ht
    refine .after hm rfl ?_
    simp only [Routine.advance, Shared.ask]
    split
    · exact ih _ (inv.move hm) (hs.put ht hs.pool rfl) (task_put_self ht)
    · exact .here (task_put_self ht) (hs.put ht hs.pool rfl)

/-- The scene has what the tasks of a crowd share and the routines that are
still before them. -/
structure Scene.Depicts (s : Scene α) (c : Crowd ω α) : Prop where
  shows : s.Shows c.shared
  tasks : s.tasks.map (·.rest) = c.members.map fun m => some m.routine

theorem Scene.Depicts.task {s : Scene α} {c : Crowd ω α} (hd : s.Depicts c) {i : Nat}
    {m : Member α} (hm : c.members[i]? = some m) :
    ∃ holds, s.tasks[i]? = some ⟨some m.routine, holds⟩ := by
  have hi := congrArg (·[i]?) hd.tasks
  simp only [List.getElem?_map, hm, Option.map_some, Option.map_eq_some_iff] at hi
  obtain ⟨⟨rest, holds⟩, ht, rfl⟩ := hi
  exact ⟨holds, ht⟩

theorem turn_is_an_interleaving (w : Wire ω) {s : Scene α} {c : Crowd ω α} (inv : s.Orderly I)
    (hd : s.Depicts c) (i : Nat) :
    ∃ es t, s.Interleaving es t ∧ t.Depicts (c.turn w i) := by
  unfold Crowd.turn
  split
  · exact ⟨[], s, .nil, hd⟩
  · next m hm =>
    split
    · exact ⟨[], s, .nil, hd⟩
    · obtain ⟨holds, ht⟩ := hd.task hm
      obtain ⟨es, t, holds', hrun, hs, htasks⟩ :=
        advance_is_an_interleaving w i m.routine inv hd.shows ht
      refine ⟨es, t, hrun, hs, ?_⟩
      rw [htasks, List.map_set, hd.tasks, List.map_set]

theorem turns_are_an_interleaving (w : Wire ω) (is : List Nat) {s : Scene α} {c : Crowd ω α}
    (inv : s.Orderly I) (hd : s.Depicts c) :
    ∃ es t, s.Interleaving es t ∧ t.Depicts (is.foldl (Crowd.turn w) c) := by
  induction is generalizing s c with
  | nil => exact ⟨[], s, .nil, hd⟩
  | cons i is ih =>
    obtain ⟨es, t, hrun, hd'⟩ := turn_is_an_interleaving w inv hd i
    obtain ⟨fs, u, hrun', hd''⟩ := ih (inv.interleaving hrun) hd'
    exact ⟨es ++ fs, u, hrun.trans hrun', hd''⟩

/-- A run of a crowd is an interleaving of its tasks. -/
theorem crowd_is_an_interleaving (w : Wire ω) (rounds : Nat) {s : Scene α} {c : Crowd ω α}
    (inv : s.Orderly I) (hd : s.Depicts c) :
    ∃ es t, s.Interleaving es t ∧ t.Depicts (c.run w rounds) := by
  induction rounds generalizing s c with
  | zero => exact ⟨[], s, .nil, hd⟩
  | succ rounds ih =>
    unfold Crowd.run
    split
    · obtain ⟨es, t, hrun, hd'⟩ :=
        turns_are_an_interleaving w (List.range c.members.length) inv hd
      obtain ⟨fs, u, hrun', hd''⟩ := ih (inv.interleaving hrun) hd'
      exact ⟨es ++ fs, u, hrun.trans hrun', hd''⟩
    · split
      · exact ih inv ⟨⟨hd.shows.pool, hd.shows.holder⟩, hd.tasks⟩
      · exact ⟨[], s, .nil, hd⟩

/-! ## A routine alone -/

/-- The only task of the scene gets to its end with a value, or is dropped
without one, and leaves the pool `p`. -/
def Scene.RunsTo (s : Scene α) (p : Pool) (value : Option α) : Prop :=
  ∃ es t, s.Interleaving es t ∧ t.pool = p ∧ t.tasks.map (·.rest) = [value.map .done]

theorem Scene.RunsTo.after {s t : Scene α} {i : Nat} {e : Event} {p : Pool} {value : Option α}
    (hm : Move s i e t) (h : t.RunsTo p value) : s.RunsTo p value := by
  obtain ⟨es, u, hrun, hu⟩ := h
  exact ⟨_, u, (Interleaving.single hm).trans hrun, hu⟩

theorem Scene.tasks_put_alone {s : Scene α} {t u : Task α} (h : s.tasks = [u]) :
    (s.put 0 t).tasks = [t] := by
  simp [put, h]

theorem Scene.RunsTo.drop {s : Scene α} {t : Task α} (ht : s.tasks = [t]) :
    s.RunsTo s.pool none := by
  refine ⟨_, _, .single (.drop (i := 0) (t := t) ?_), rfl, ?_⟩ <;> simp [put, ht]

theorem Scene.Orderly.unlocked_of_alone {s : Scene α} (inv : s.Orderly I) {next : Routine α}
    {holds : Bool} (ht : s.tasks = [⟨some (.acquire next), holds⟩]) : s.locked = false := by
  cases hl : s.locked with
  | false => rfl
  | true =>
    obtain ⟨i, t, hi, hh⟩ := inv.locked_iff.mp hl
    have hkeeps := inv.tasks i t hi
    rw [ht, List.getElem?_singleton] at hi
    split at hi
    · cases hi
      cases hh
      exact hkeeps.elim
    · cases hi

/-- A run of a routine alone is an interleaving of its steps, with a drop at
the end when the deadline cuts it. -/
theorem run_is_an_interleaving (w : Wire ω) (deadline : Option Nat) (r : Routine α) {s : Site ω}
    {t : Scene α} {holds : Bool} (inv : t.Orderly I) (hp : t.pool = s.pool)
    (ht : t.tasks = [⟨some r, holds⟩]) :
    t.RunsTo (r.run w deadline s).2.pool (r.run w deadline s).1 := by
  induction r generalizing s t holds with
  | done a => exact ⟨[], t, .nil, hp, by simp [ht, Routine.run]⟩
  | step change next ih =>
    have hm : Move t 0 .looked _ := .look (by rw [ht]; rfl)
    refine .after hm ?_
    simp only [Routine.run, ← hp]
    exact ih _ (inv.move hm) rfl (tasks_put_alone ht)
  | acquire next ih =>
    have hm : Move t 0 .locked _ := .lock (by rw [ht]; rfl) (inv.unlocked_of_alone ht)
    exact .after hm (ih (inv.move hm) hp (tasks_put_alone ht))
  | release next ih =>
    have hm : Move t 0 .unlocked _ := .unlock (by rw [ht]; rfl)
    exact .after hm (ih (inv.move hm) hp (tasks_put_alone ht))
  | check place url next ih =>
    simp only [Routine.run]
    split
    · rw [Site.after, ← hp]; exact .drop ht
    · have hm := Move.check (s := t) (i := 0) ((w.check url s.wire).answer.map
        fun _ => (w.check url s.wire).elapsed) (by rw [ht]; rfl)
      exact .after hm (ih _ (inv.move hm) hp (tasks_put_alone ht))
  | update url next ih =>
    simp only [Routine.run]
    split
    · rw [Site.after, ← hp]; exact .drop ht
    · have hm := Move.update (s := t) (i := 0) (w.update url s.wire).answer (by rw [ht]; rfl)
      exact .after hm (ih _ (inv.move hm) hp (tasks_put_alone ht))
  | post url body next ih =>
    simp only [Routine.run]
    split
    · rw [Site.after, ← hp]; exact .drop ht
    · have hm := Move.post (s := t) (i := 0) (w.post url body s.wire).answer (by rw [ht]; rfl)
      exact .after hm (ih _ (inv.move hm) hp (tasks_put_alone ht))

/-! ## The laws -/

/-- However many calls run side by side, over whatever wire, they leave a
sound pool. -/
theorem calls_side_by_side_leave_a_sound_pool (w : Wire ω) {urls : List (String × UInt32)}
    {s : Site ω} (hp : s.pool.Sound urls) (calls : List Call) :
    (runTogether w s (calls.map Call.routine)).2.pool.Sound urls := by
  have hd : (Scene.start s.pool (calls.map Call.routine)).Depicts
      (Crowd.start s (calls.map Call.routine)) := by
    refine ⟨⟨rfl, ?_⟩, ?_⟩
    · intro j hj
      have := (orderly_calls hp calls).locked_iff.mpr ⟨j, hj⟩
      cases this
    · simp [Scene.start, Crowd.start, Function.comp_def]
  obtain ⟨es, t, hrun, hd'⟩ := crowd_is_an_interleaving w _ (orderly_calls hp calls) hd
  have hsound := ((orderly_calls hp calls).interleaving hrun).pool
  rw [hd'.shows.pool] at hsound
  exact hsound

/-- A call that has the pool for itself leaves a sound pool, also when a
deadline drops it. -/
theorem a_call_leaves_a_sound_pool (w : Wire ω) (deadline : Option Nat)
    {urls : List (String × UInt32)} {s : Site ω} (hp : s.pool.Sound urls) (c : Call) :
    (c.routine.run w deadline s).2.pool.Sound urls := by
  obtain ⟨es, t, hrun, ht, -⟩ :=
    run_is_an_interleaving w deadline c.routine (orderly_calls hp [c]) rfl rfl
  rw [← ht]
  exact ((orderly_calls hp [c]).interleaving hrun).pool

end ChainAccess.Pool
