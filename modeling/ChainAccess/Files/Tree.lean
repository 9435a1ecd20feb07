import ChainAccess.Text.Hex
import ChainAccess.Text.Lower
-- Files and directories as a tree, and the parts of their paths. A directory
-- keeps its entries in the order in which it lists them.

namespace ChainAccess

/-! ## Paths -/

namespace Path

/-- The components of a path; empty ones and single points say nothing. -/
def components (path : String) : List String :=
  ((path.toList.splitOnP (· = '/')).map String.ofList).filter fun c => c ≠ "" && c ≠ "."

/-- The last component, unless it goes up. -/
def fileName? (path : String) : Option String := (components path).getLast?.filter (· ≠ "..")

/-- Splits a name at its last point; a point at the front splits nothing. -/
def splitName (name : String) : String × Option String :=
  let cs := name.toList
  let ext := (cs.reverse.takeWhile (· ≠ '.')).reverse
  let stem := cs.take (cs.length - ext.length - 1)
  if ext.length = cs.length || stem.isEmpty then (name, none)
  else (String.ofList stem, some (String.ofList ext))

/-- What follows the last point of the last component. -/
def extension? (path : String) : Option String := (fileName? path).bind fun n => (splitName n).2

/-- The last component without its extension. -/
def stem? (path : String) : Option String := (fileName? path).map fun n => (splitName n).1

/-- Whether the extension is that of JSON, in any case. -/
def isJson (path : String) : Bool :=
  (extension? path).any fun e => Text.lower e.toList = "json".toList

end Path

/-! ## Trees -/

/-- A file with its content, or a directory with its entries. -/
inductive FileTree where
  | file (content : Bytes)
  /-- A file that cannot be read. -/
  | sealed
  | dir (entries : List (String × FileTree))
  deriving Repr, Inhabited

namespace FileTree

/-- The entries of a directory; a file has none. -/
def entries : FileTree → List (String × FileTree)
  | .file _ | .sealed => []
  | .dir entries => entries

/-- The entry of a directory with a name. -/
def child? (name : String) (t : FileTree) : Option FileTree :=
  (t.entries.find? (·.1 == name)).map (·.2)

/-- Goes down the components; `above` holds the directories passed. -/
def walk (above : List FileTree) (t : FileTree) : List String → Option FileTree
  | [] => some t
  | c :: rest =>
    if c = ".." then
      match above with
      | [] => walk [] t rest
      | parent :: above => walk above parent rest
    else (t.child? c).bind fun child => walk (t :: above) child rest

/-- What lies at a path. -/
def at? (t : FileTree) (path : String) : Option FileTree := t.walk [] (Path.components path)

/-- Puts an entry at a place below a directory; the directories on the way are
made. -/
def put : FileTree → List String → FileTree → FileTree
  | .dir entries, [], .dir _ => .dir entries
  | _, [], entry => entry
  | t, c :: rest, entry =>
    let inner := ((t.child? c).getD (.dir [])).put rest entry
    if (t.child? c).isSome then
      .dir (t.entries.map fun (k, e) => if k == c then (k, inner) else (k, e))
    else .dir (t.entries ++ [(c, inner)])

end FileTree

end ChainAccess
