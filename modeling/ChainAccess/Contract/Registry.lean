import ChainAccess.Contract.Binding
-- Named operations. A registry maps names to operations on a node; a handle
-- runs the operation of a name under its policy of attempts and looks the name
-- up anew in each attempt.

namespace ChainAccess

/-- An operation on a node. -/
abbrev Operation (σ : Type) : Type :=
  Transport σ → List Abi.Value → Workflow σ RpcError (List Abi.Value)

/-- Named operations, each name once. -/
structure Registry (σ : Type) where
  entries : List (String × Operation σ)

namespace Registry

variable {σ : Type}

/-- No operations. -/
def empty : Registry σ := ⟨[]⟩

/-- The operation of a name. -/
def get? (r : Registry σ) (name : String) : Option (Operation σ) :=
  (r.entries.find? (·.1 == name)).map (·.2)

/-- Whether the name has an operation. -/
def contains (r : Registry σ) (name : String) : Bool := (r.get? name).isSome

/-- The registry with an operation under a name, in the place of an older one. -/
def register (r : Registry σ) (name : String) (op : Operation σ) : Registry σ :=
  ⟨r.entries.filter (·.1 != name) ++ [(name, op)]⟩

/-- How many operations there are. -/
def size (r : Registry σ) : Nat := r.entries.length

/-- Whether there are none. -/
def isEmpty (r : Registry σ) : Bool := r.entries.isEmpty

/-- The names in order. -/
def names (r : Registry σ) : List String := (r.entries.map (·.1)).mergeSort fun a b => a ≤ b

/-- The registry as a log shows it. -/
def text (r : Registry σ) : String :=
  "MethodRegistry \x7b methods: [" ++ ", ".intercalate (r.names.map Quoted.string) ++ "] \x7d"

/-- Runs the operation of a name once. -/
def invoke (r : Registry σ) (t : Transport σ) (name : String) (args : List Abi.Value) :
    Workflow σ RpcError (List Abi.Value) :=
  match r.get? name with
  | some op => op t args
  | none => Workflow.fail (.methodNotFound name)

end Registry

/-- Runs the operation of a name under the policy of attempts. -/
def Handle.invoke {σ : Type} (h : Handle σ) (r : Registry σ) (name : String)
    (args : List Abi.Value) : Workflow σ RpcError (List Abi.Value) :=
  h.retrying (r.invoke h.transport name args)

/-- An operation for each method of a contract. -/
def Contract.registry {σ : Type} (c : Contract) : Registry σ :=
  c.interface.names.foldl (fun r name => r.register name fun t args => c.call t name args) .empty

end ChainAccess
