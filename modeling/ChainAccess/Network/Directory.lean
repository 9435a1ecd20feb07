import ChainAccess.Files.Tree
import ChainAccess.Network.Basic
-- Networks in files. A file is read and validated; a directory gives the
-- networks of all its JSON files under their names without extension, and
-- skips the files that give none.

namespace ChainAccess.Network

/-- Why a file gives no network, or a directory none at all. -/
inductive ConfigError where
  | validation (flaw : Flaw)
  | parse (fault : Json.Fault)
  | file (message : String)

/-- The words for an error. -/
def ConfigError.message : ConfigError → String
  | .validation flaw => "Validation error: " ++ flaw.message
  | .parse fault => "Parse error: " ++ fault.message?.getD "not a network"
  | .file m => "File error: " ++ m

/-- The network that the content of a file writes, validated. Bytes that are
no text spoil it. -/
def ofContent (content : Bytes) : Except ConfigError Network := do
  let n ← ((Json.readBytes content).as read).mapError .parse
  n.validate.mapError .validation
  return n

/-- The network in a file; a directory in its place is unreadable. -/
def ofFile : Option FileTree → Except ConfigError Network
  | none => .error (.file "No such file or directory")
  | some .sealed => .error (.file "Permission denied (os error 13)")
  | some (.dir _) => .error (.parse .malformed)
  | some (.file content) => ofContent content

/-- Where networks are looked for when no directory is named. -/
def defaultDirectory : String := "config/networks"

/-- The network of an entry of a directory under its name, if it gives one. -/
def ofEntry : String × FileTree → Option (String × Network)
  | (name, e) =>
    if Path.isJson name then
      ((ofFile (some e)).toOption).map fun n => ((Path.stem? name).getD "unknown", n)
    else none

/-- Puts a network under its name, in the place of an earlier one. -/
def collect (found : List (String × Network)) : String × Network → List (String × Network)
  | (name, n) => found.filter (·.1 != name) ++ [(name, n)]

/-- The networks of a directory under their names. -/
def ofDirectory : Option FileTree → Except ConfigError (List (String × Network))
  | none => .error (.file "networks directory not found")
  | some (.file _) | some .sealed => .error (.file "Not a directory")
  | some (.dir entries) => .ok ((entries.filterMap ofEntry).foldl collect [])

end ChainAccess.Network
