-- Scripts: answers in the order in which they are given. The last answer is
-- given again and again.

namespace ChainAccess.Scripted

/-- The next answer of a script and what stays of it. -/
def next? {α : Type} : List α → Option (α × List α)
  | [] => none
  | [a] => some (a, [a])
  | a :: rest => some (a, rest)

/-- A script for each of several names. -/
abbrev Scripts (α : Type) := List (String × List α)

/-- The next answer of the script under a name, and the scripts after it. -/
def Scripts.take {α : Type} (name : String) : Scripts α → Option α × Scripts α
  | [] => (none, [])
  | (k, script) :: rest =>
    if k = name then
      match next? script with
      | some (a, left) => (some a, (k, left) :: rest)
      | none => (none, (k, script) :: rest)
    else
      let (a, left) := Scripts.take name rest
      (a, (k, script) :: left)

end ChainAccess.Scripted
