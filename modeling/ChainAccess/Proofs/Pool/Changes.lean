import ChainAccess.Pool.Basic
import Mathlib.Data.List.Basic
import Mathlib.Tactic.Common
-- What each change of the pool does to what can be seen of it: how many
-- endpoints there are, which are configured, which count as healthy, and
-- which one is in use. No change touches what is configured.

namespace ChainAccess.Pool

/-! ## What can be seen of a pool -/

/-- What is configured: the URLs and weights in order of preference. -/
def configured (p : Pool) : List (String × UInt32) := p.endpoints.map fun e => (e.url, e.weight)

/-- The endpoint in use is one of the pool. -/
def InRange (p : Pool) : Prop := p.active < p.endpoints.length

instance (p : Pool) : Decidable p.InRange := Nat.decLt _ _

/-- The endpoint at a place counts as healthy and its latency is known. -/
def Proven (p : Pool) (i : Nat) : Prop :=
  ∃ e ms, p.endpoints[i]? = some e ∧ e.healthy = true ∧ e.latency = some ms

variable (p : Pool) (i j ms : Nat)

theorem lt_of_isHealthy {p : Pool} {i : Nat} (h : p.isHealthy i = true) :
    i < p.endpoints.length := by
  unfold isHealthy at h
  rcases Nat.lt_or_ge i p.endpoints.length with hi | hi
  · exact hi
  · simp [List.getElem?_eq_none hi] at h

theorem urlAt_eq_of_configured {p q : Pool} (h : p.configured = q.configured) (i : Nat) :
    p.urlAt i = q.urlAt i := by
  have hurls : ∀ r : Pool, r.urlAt i = (r.configured[i]?.map (·.1)).getD "" := by
    intro r
    simp [urlAt, configured, Function.comp_def]
  rw [hurls p, hurls q, h]

theorem urls_eq_of_configured {p q : Pool} (h : p.configured = q.configured) :
    p.endpoints.map (·.url) = q.endpoints.map (·.url) := by
  simpa [configured, Function.comp_def] using congrArg (List.map Prod.fst) h

/-! ## A failure of the endpoint in use -/

@[simp] theorem demote_length : p.demote.endpoints.length = p.endpoints.length := by
  simp [demote]

@[simp] theorem demote_active : p.demote.active = p.active := rfl

@[simp] theorem demote_verified : p.demote.verified = false := rfl

/-- A change of the flags of one endpoint leaves what is configured. -/
theorem configured_modify (es : List Endpoint) (f : Endpoint → Endpoint)
    (hf : ∀ e, (f e).url = e.url ∧ (f e).weight = e.weight) :
    (es.modify i f).map (fun e => (e.url, e.weight)) = es.map (fun e => (e.url, e.weight)) := by
  apply List.ext_getElem?
  intro k
  simp only [List.getElem?_map, List.getElem?_modify]
  rcases es[k]? with _ | e
  · rfl
  · by_cases hk : i = k <;> simp [hk, hf e]

@[simp] theorem demote_configured : p.demote.configured = p.configured :=
  configured_modify _ _ _ fun _ => ⟨rfl, rfl⟩

@[simp] theorem demote_isHealthy :
    p.demote.isHealthy j = (p.isHealthy j && decide (j ≠ p.active)) := by
  simp only [isHealthy, demote, List.getElem?_modify]
  rcases p.endpoints[j]? with _ | e
  · rfl
  · by_cases hj : p.active = j
    · simp [hj]
    · simp [hj, Ne.symm hj]

/-! ## Outcomes of checks -/

@[simp] theorem markFailed_length : (p.markFailed i).endpoints.length = p.endpoints.length := by
  simp [markFailed]

@[simp] theorem markFailed_active : (p.markFailed i).active = p.active := rfl

@[simp] theorem markFailed_verified : (p.markFailed i).verified = p.verified := rfl

@[simp] theorem markFailed_configured : (p.markFailed i).configured = p.configured :=
  configured_modify _ _ _ fun _ => ⟨rfl, rfl⟩

@[simp] theorem markFailed_isHealthy :
    (p.markFailed i).isHealthy j = (p.isHealthy j && decide (j ≠ i)) := by
  simp only [isHealthy, markFailed, List.getElem?_modify]
  rcases p.endpoints[j]? with _ | e
  · rfl
  · by_cases hj : i = j
    · simp [hj]
    · simp [hj, Ne.symm hj]

@[simp] theorem markReached_length :
    (p.markReached i ms).endpoints.length = p.endpoints.length := by
  simp [markReached]

@[simp] theorem markReached_active : (p.markReached i ms).active = p.active := rfl

@[simp] theorem markReached_verified : (p.markReached i ms).verified = p.verified := rfl

@[simp] theorem markReached_configured : (p.markReached i ms).configured = p.configured :=
  configured_modify _ _ _ fun _ => ⟨rfl, rfl⟩

theorem markReached_isHealthy_self (h : i < p.endpoints.length) :
    (p.markReached i ms).isHealthy i = true := by
  simp [isHealthy, markReached, h]

theorem markReached_isHealthy_ne (h : j ≠ i) :
    (p.markReached i ms).isHealthy j = p.isHealthy j := by
  simp [isHealthy, markReached, List.getElem?_modify_ne _ _ (Ne.symm h)]

theorem proven_markReached (h : i < p.endpoints.length) : (p.markReached i ms).Proven i := by
  refine ⟨{ p.endpoints[i] with healthy := true, latency := some ms }, ms, ?_, rfl, rfl⟩
  simp [markReached, h]

/-- The pool after each of some endpoints failed its check. -/
def refused (p : Pool) (missed : List Nat) : Pool := missed.foldl markFailed p

variable (missed : List Nat)

@[simp] theorem refused_nil : p.refused [] = p := rfl

@[simp] theorem refused_cons : p.refused (i :: missed) = (p.markFailed i).refused missed := rfl

@[simp] theorem refused_length : (p.refused missed).endpoints.length = p.endpoints.length := by
  induction missed generalizing p with
  | nil => rfl
  | cons i missed ih => simp [ih]

@[simp] theorem refused_verified : (p.refused missed).verified = p.verified := by
  induction missed generalizing p with
  | nil => rfl
  | cons i missed ih => simp [ih]

@[simp] theorem refused_configured : (p.refused missed).configured = p.configured := by
  induction missed generalizing p with
  | nil => rfl
  | cons i missed ih => simp [ih]

@[simp] theorem refused_isHealthy :
    (p.refused missed).isHealthy j = (p.isHealthy j && decide (j ∉ missed)) := by
  induction missed generalizing p with
  | nil => simp
  | cons i missed ih => simp [ih, Bool.and_assoc]

/-! ## A change of the endpoint in use -/

@[simp] theorem activate_endpoints : (p.activate i).endpoints = p.endpoints := rfl

@[simp] theorem activate_active : (p.activate i).active = i := rfl

@[simp] theorem activate_isHealthy : (p.activate i).isHealthy j = p.isHealthy j := rfl

/-! ## Candidates -/

@[simp] theorem mem_places : i ∈ p.places ↔ i < p.endpoints.length := by
  simp [places]

theorem mem_activeFirst : i ∈ p.activeFirst ↔ i < p.endpoints.length := by
  simp only [activeFirst, List.mem_append, List.mem_filter, mem_places, decide_eq_true_eq]
  tauto

theorem mem_alternatives : i ∈ p.alternatives ↔ i < p.endpoints.length ∧ i ≠ p.active := by
  simp only [alternatives, List.mem_append, List.mem_filter, mem_places, decide_eq_true_eq]
  cases p.isHealthy i <;> simp

end ChainAccess.Pool
