import ChainAccess.Pool.Run
-- Many tasks on one pool, in any order. A task takes one step at a time: it
-- looks at the pool or changes it, it takes the lock when the lock is free or
-- gives it back, or an answer that it waits for comes, whatever the answer
-- is. At any step a task may be dropped, and then the lock is free again if
-- the task had it. Nothing else is known of the order of the steps.

namespace ChainAccess.Pool

/-! ## Tasks and what they share -/

/-- A task: the steps still before it, none once it was dropped, and whether
it has the lock. -/
structure Task (α : Type) where
  rest : Option (Routine α)
  holds : Bool

/-- A pool, whether its lock is taken, and the tasks on it. -/
structure Scene (α : Type) where
  pool : Pool
  locked : Bool
  tasks : List (Task α)

/-- What happens to a task in one step. -/
inductive Event where
  /-- It looks at the pool or changes it. -/
  | looked
  | locked
  | unlocked
  | checked (place : Nat) (url : String) (answer : Except RpcError Nat)
  | updated (url : String) (answer : Except RpcError Unit)
  | posted (url : String) (body : Json) (answer : Http.Answer)
  | dropped

namespace Scene

variable {α : Type}

/-- Tasks that are all about to start. -/
def start (p : Pool) (routines : List (Routine α)) : Scene α :=
  ⟨p, false, routines.map fun r => ⟨some r, false⟩⟩

/-- The scene with another state of task `i`. -/
def put (s : Scene α) (i : Nat) (t : Task α) : Scene α := { s with tasks := s.tasks.set i t }

/-- Task `i` has the lock. -/
def Holds (s : Scene α) (i : Nat) : Prop := ∃ t, s.tasks[i]? = some t ∧ t.holds = true

/-- Task `i` runs a check of an endpoint. -/
def Checks (s : Scene α) (i : Nat) : Prop :=
  ∃ place url next holds, s.tasks[i]? = some ⟨some (.check place url next), holds⟩

/-! ## Steps and runs -/

/-- One step of task `i`. -/
inductive Move (s : Scene α) (i : Nat) : Event → Scene α → Prop
  | look {change next holds} : s.tasks[i]? = some ⟨some (.step change next), holds⟩ →
      Move s i .looked ({ s with pool := change s.pool }.put i ⟨some (next s.pool), holds⟩)
  | lock {next holds} : s.tasks[i]? = some ⟨some (.acquire next), holds⟩ → s.locked = false →
      Move s i .locked ({ s with locked := true }.put i ⟨some next, true⟩)
  | unlock {next holds} : s.tasks[i]? = some ⟨some (.release next), holds⟩ →
      Move s i .unlocked ({ s with locked := false }.put i ⟨some next, false⟩)
  | check {place url next holds} (answer : Except RpcError Nat) :
      s.tasks[i]? = some ⟨some (.check place url next), holds⟩ →
      Move s i (.checked place url answer) (s.put i ⟨some (next answer), holds⟩)
  | update {url next holds} (answer : Except RpcError Unit) :
      s.tasks[i]? = some ⟨some (.update url next), holds⟩ →
      Move s i (.updated url answer) (s.put i ⟨some (next answer), holds⟩)
  | post {url body next holds} (answer : Http.Answer) :
      s.tasks[i]? = some ⟨some (.post url body next), holds⟩ →
      Move s i (.posted url body answer) (s.put i ⟨some (next answer), holds⟩)
  | drop {t} : s.tasks[i]? = some t →
      Move s i .dropped ({ s with locked := s.locked && !t.holds }.put i ⟨none, false⟩)

/-- A run: steps of the tasks one after another, each with the number of its
task. -/
inductive Interleaving (s : Scene α) : List (Nat × Event) → Scene α → Prop
  | nil : Interleaving s [] s
  | snoc {es t i e u} : Interleaving s es t → Move t i e u → Interleaving s (es ++ [(i, e)]) u

theorem Interleaving.trans {s t u : Scene α} {es fs : List (Nat × Event)}
    (h : Interleaving s es t) (h' : Interleaving t fs u) : Interleaving s (es ++ fs) u := by
  induction h' with
  | nil => simpa using h
  | snoc _ hm ih => rw [← List.append_assoc]; exact ih.snoc hm

theorem Interleaving.single {s t : Scene α} {i : Nat} {e : Event} (h : Move s i e t) :
    Interleaving s [(i, e)] t := Interleaving.nil.snoc h

/-! ## The scene after a step -/

theorem Move.tasks_length {s t : Scene α} {i : Nat} {e : Event} (h : Move s i e t) :
    t.tasks.length = s.tasks.length := by
  cases h <;> simp [put]

theorem Interleaving.tasks_length {s t : Scene α} {es : List (Nat × Event)}
    (h : Interleaving s es t) : t.tasks.length = s.tasks.length := by
  induction h with
  | nil => rfl
  | snoc _ hm ih => rw [hm.tasks_length, ih]

@[simp] theorem put_locked (s : Scene α) (i : Nat) (t : Task α) :
    (s.put i t).locked = s.locked := rfl

theorem lt_of_task {s : Scene α} {i : Nat} {t : Task α} (h : s.tasks[i]? = some t) :
    i < s.tasks.length := (List.getElem?_eq_some_iff.mp h).1

/-- A task of the scene after a change of task `i` is the new one or an old
one. -/
theorem task_put {s : Scene α} {i j : Nat} {t u : Task α} (h : (s.put i t).tasks[j]? = some u) :
    (j = i ∧ u = t) ∨ (j ≠ i ∧ s.tasks[j]? = some u) := by
  by_cases hj : j = i
  · subst hj
    have hlt : j < s.tasks.length := by simpa [put] using lt_of_task h
    simp only [put, List.getElem?_set_self hlt, Option.some.injEq] at h
    exact Or.inl ⟨rfl, h.symm⟩
  · simp only [put, List.getElem?_set_ne (Ne.symm hj)] at h
    exact Or.inr ⟨hj, h⟩

theorem task_put_self {s : Scene α} {i : Nat} {t u : Task α} (h : s.tasks[i]? = some u) :
    (s.put i t).tasks[i]? = some t := by
  simp [put, List.getElem?_set_self (lt_of_task h)]

theorem task_put_ne {s : Scene α} {i j : Nat} {t : Task α} (h : j ≠ i) :
    (s.put i t).tasks[j]? = s.tasks[j]? := by
  simp [put, List.getElem?_set_ne (Ne.symm h)]

/-- After a change of task `i` the same others hold the lock, and task `i`
does when its new state says so. -/
theorem holds_put {s : Scene α} {i j : Nat} {t u : Task α} (h : s.tasks[i]? = some u) :
    (s.put i t).Holds j ↔ if j = i then t.holds = true else s.Holds j := by
  unfold Holds
  split
  · next hj => subst hj; simp [task_put_self h]
  · next hj => rw [task_put_ne hj]

end Scene

end ChainAccess.Pool
