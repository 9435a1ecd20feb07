import ChainAccess.Contract.Registry
import ChainAccess.Proofs.Contract.Overloads
import ChainAccess.Proofs.Handle.Schedule
import ChainAccess.Proofs.Handle.Transcripts
import Mathlib.Data.List.Dedup
import Mathlib.Tactic.Common
-- The registry of a contract. It has one operation for each name of a function, and
-- the operation looks the function up by the arguments when it is run; a name without
-- an operation is one that a call does not find either. So the registry does whatever
-- the contract does, and an unknown name ends with the first attempt that is connected.

namespace ChainAccess

open Workflow

variable {σ : Type}

/-! ## Operations by name -/

namespace Registry

variable {r : Registry σ} {name other : String} {op : Operation σ}

theorem get?_register_self : (r.register name op).get? name = some op := by
  unfold register get?
  have hgone : (r.entries.filter (·.1 != name)).find? (·.1 == name) = none := by
    simp [List.find?_eq_none]
  simp [List.find?_append, hgone]

theorem get?_register_of_ne (hne : other ≠ name) :
    (r.register name op).get? other = r.get? other := by
  have hkept : (r.entries.filter (·.1 != name)).find? (·.1 == other) =
      r.entries.find? (·.1 == other) := by
    rw [List.find?_filter]
    congr 1
    grind
  have hlast : (name == other) = false := by simpa using Ne.symm hne
  unfold register get?
  simp [List.find?_append, hkept, hlast]

/-- Names registered one after another have the operations that they were given. -/
theorem get?_registered (ops : String → Operation σ) (names : List String) (r : Registry σ)
    (name : String) :
    (names.foldl (fun r name => r.register name (ops name)) r).get? name =
      if name ∈ names then some (ops name) else r.get? name := by
  induction names generalizing r with
  | nil => simp
  | cons first rest ih =>
    rw [List.foldl_cons, ih]
    by_cases hrest : name ∈ rest
    · simp [hrest]
    · by_cases hfirst : name = first
      · simp [hfirst, get?_register_self]
      · simp [hrest, hfirst, get?_register_of_ne hfirst]

end Registry

theorem Abi.Interface.mem_names {i : Abi.Interface} {method : String} :
    method ∈ i.names ↔ i.overloads method ≠ [] := by
  simp [names, sorted, List.mem_eraseDups, overloads_eq_nil_iff]

namespace Contract

variable {c : Contract} {method : String} {args : List Abi.Value}

theorem get?_registry (c : Contract) (method : String) :
    (c.registry : Registry σ).get? method =
      if c.interface.overloads method = [] then none
      else some fun t args => c.call t method args := by
  unfold registry
  rw [Registry.get?_registered fun name t args => c.call t name args]
  by_cases hunknown : c.interface.overloads method = []
  · have hno : method ∉ c.interface.names := by simpa [Abi.Interface.mem_names] using hunknown
    rw [if_neg hno, if_pos hunknown]
    rfl
  · rw [if_pos (Abi.Interface.mem_names.mpr hunknown), if_neg hunknown]

/-- An operation by its name is a call of the method; without an operation there is
nothing to call. -/
theorem invoke_registry (c : Contract) (t : Transport σ) (method : String)
    (args : List Abi.Value) : c.registry.invoke t method args = c.call t method args := by
  unfold Registry.invoke
  rw [get?_registry]
  by_cases hunknown : c.interface.overloads method = []
  · rw [if_pos hunknown, call_of_unknown hunknown]
  · rw [if_neg hunknown]

/-! ## Unknown names -/

/-- The first attempt that is connected is the last, and nothing follows the
connection. -/
theorem callRetrying_of_unknown {h : Handle σ} {w₀ w u : World σ} {n : Nat}
    (hunknown : c.interface.overloads method = [])
    (hbegins : h.Begins (c.call h.transport method args) w₀ n w)
    (hconnect : h.transport.ensureConnected.run w = (.done (), u)) :
    (c.callRetrying h method args).run w₀ = (.failed (.methodNotFound method), u) := by
  have hattempt : (h.attempt (c.call h.transport method args)).run w =
      (.failed (.methodNotFound method), u) := by
    rw [Handle.attempt_of_connected hconnect, call_of_unknown hunknown]
    rfl
  exact Backoff.run_eq_iff.mpr ⟨n, w, hbegins, hattempt, Or.inl rfl⟩

/-- Nothing was exchanged. -/
def NothingAsked {α : Type} (_ : Nat) (es : List Exchange) (_ : Outcome RpcError α) : Prop :=
  es = []

theorem repeatable_nothingAsked {α : Type} :
    Repeatable (NothingAsked : Nat → List Exchange → Outcome RpcError α → Prop) where
  mono _ _ _ _ _ h := h
  silent _ _ := rfl
  late _ _ _ h := h
  more _ _ _ _ _ h h' := by rw [NothingAsked, h, h']; rfl

theorem transcript_of_unknown (h : Handle σ) (hunknown : c.interface.overloads method = [])
    (w₀ : World σ) : (c.callRetrying h.transcribed method args).transcript w₀ = [] := by
  have hcall : Accounts (c.call h.transcribed.transport method args)
      (c.call h.transport method args) (NothingAsked 1) := by
    rw [call_of_unknown hunknown, call_of_unknown hunknown]
    exact accounts_fail rfl
  obtain ⟨es, hes, hnone⟩ :=
    Handle.accounts_retrying (h := h) hcall repeatable_nothingAsked none w₀
  unfold callRetrying
  rw [hes.transcript]
  exact hnone

/-! ## The law -/

/-- Run by its name from the registry of a contract, a method does what a call of it
does: it comes to the same, and so do the log of all connections, requests and rests,
the clock and the node, under any deadline and policy. With every list of arguments
both pick the same function. A name that no function has is not found by the first
attempt that is connected, and the node is asked for nothing. -/
theorem a_registry_is_faithful_to_its_contract (c : Contract) (h : Handle σ) (method : String)
    (args : List Abi.Value) :
    (∀ d w, h.invoke c.registry method args d w = c.callRetrying h method args d w) ∧
    (∀ f, c.interface.find method (some args.length) = .ok f →
      ∃ op, c.registry.get? method = some op ∧
        op h.transport args = c.callBy h.transport f args ∧
        c.call h.transport method args = c.callBy h.transport f args) ∧
    ((∀ f ∈ c.interface.functions, f.name ≠ method) → ∀ w₀,
      (h.transcribed.invoke c.registry method args).transcript w₀ = [] ∧
      ∀ n w u, h.Begins (c.registry.invoke h.transport method args) w₀ n w →
        h.transport.ensureConnected.run w = (.done (), u) →
        (h.invoke c.registry method args).run w₀ = (.failed (.methodNotFound method), u)) := by
  have hinvoke : ∀ {σ : Type} (h : Handle σ),
      h.invoke c.registry method args = c.callRetrying h method args := by
    intro σ h
    unfold Handle.invoke callRetrying
    rw [invoke_registry]
  refine ⟨fun d w => by rw [hinvoke], fun f hfound => ?_, fun hnames w₀ => ⟨?_, ?_⟩⟩
  · have hknown : c.interface.overloads method ≠ [] := by
      intro hunknown
      rw [Abi.Interface.find_of_unknown hunknown] at hfound
      cases hfound
    exact ⟨_, by rw [get?_registry, if_neg hknown], call_of_found hfound _, call_of_found hfound _⟩
  · rw [hinvoke]
    exact transcript_of_unknown h (Abi.Interface.overloads_eq_nil_iff.mpr hnames) w₀
  · intro n w u hbegins hconnect
    rw [hinvoke]
    rw [invoke_registry] at hbegins
    exact callRetrying_of_unknown (Abi.Interface.overloads_eq_nil_iff.mpr hnames) hbegins hconnect

end Contract

end ChainAccess
