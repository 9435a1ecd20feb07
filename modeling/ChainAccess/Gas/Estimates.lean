-- The last successful estimate of each method, before any factor.

namespace ChainAccess.Gas

/-- Estimates by the name of the method. -/
structure Estimates where
  entries : List (String × UInt64)
  deriving DecidableEq, Repr

namespace Estimates

/-- No estimates. -/
def empty : Estimates := ⟨[]⟩

/-- The estimate of a method. -/
def get? (c : Estimates) (method : String) : Option UInt64 :=
  (c.entries.find? (·.1 == method)).map (·.2)

/-- The estimates with a new one of a method in the place of the old. -/
def record (c : Estimates) (method : String) (gas : UInt64) : Estimates :=
  ⟨(method, gas) :: c.entries.filter (·.1 != method)⟩

end Estimates

end ChainAccess.Gas
