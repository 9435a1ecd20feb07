import ChainAccess.CommandLine.Basic
import ChainAccess.Diagnosis
import ChainAccess.Network.Directory
-- What a run of the program shows and how it exits. The environment, the
-- files it reads and the line to the endpoints are given.

namespace ChainAccess.CommandLine

/-! ## Settings -/

/-- The variable that picks the findings to show. -/
def levelVariable : String := "RUST_LOG"

/-- The file with settings for variables that are not set. -/
def settingsFile : String := ".env"

/-- A text without blanks around it. -/
def trimmed (cs : List Char) : List Char :=
  Text.trimEnd Char.isWhitespace (cs.dropWhile Char.isWhitespace)

/-- A value without the quotes around it. -/
def unquoted (cs : List Char) : List Char :=
  match cs.head?, cs.getLast? with
  | some '"', some '"' | some '\'', some '\'' => (cs.drop 1).take (cs.length - 2)
  | _, _ => cs

/-- The setting of a line: a name and a value around an equals sign. -/
def setting? (line : List Char) : Option (String × String) :=
  let cs := trimmed line
  let name := trimmed (cs.takeWhile (· ≠ '='))
  let value := trimmed ((cs.dropWhile (· ≠ '=')).drop 1)
  if cs.head? = some '#' || name.isEmpty || !cs.contains '=' then none
  else some (String.ofList name, String.ofList (unquoted value))

/-- The settings of a text, line by line. -/
def settings (text : String) : List (String × String) :=
  (text.toList.splitOnP (· = '\n')).filterMap setting?

/-- The level of the findings to show, from the environment or else from the
settings. -/
def shownLevel (environment : List (String × String)) (file : Option FileTree) : Level :=
  let more :=
    match file with
    | some (.file content) => settings (Utf8.lossy content)
    | _ => []
  (((environment ++ more).lookup levelVariable).bind Level.ofString?).getD .info

/-! ## Running -/

/-- What a run leaves behind. -/
structure Ending where
  exit : Nat
  output : List String
  errors : List String
  deriving DecidableEq, Repr

/-- The name and the version of the program. -/
def versionText : String := "oracle-staker 0.1.0"

/-- The help of the program. -/
def helpLines : List String :=
  ["Checks RPC connectivity and gas settings of a staker network configuration", "",
   "Usage: oracle-staker [OPTIONS] --network <PATH>", "", "Options:",
   "      --network <PATH>     Path to the network configuration file",
   "      --account <ADDRESS>  Staker account to report balance and pending nonce for",
   "  -h, --help               Print help", "  -V, --version            Print version"]

/-- The end of a run with arguments that make no command. -/
def Ending.ofUsageError (e : UsageError) : Ending :=
  ⟨2, [], e.lines ++ ["", "For more information, try '--help'."]⟩

/-- The end of a run whose network could not be loaded. -/
def Ending.ofConfigError (path : String) (e : Network.ConfigError) : Ending :=
  ⟨1, [], ["Error: Failed to load " ++ path, "", "Caused by:", "    " ++ e.message]⟩

/-- The end of a diagnosis. -/
def Ending.ofDiagnosis (least : Level) (found : List Finding) (failure : Option RpcError) :
    Ending :=
  ⟨if failure.isSome then 1 else 0, (found.filter (Finding.isShown least)).map Finding.line,
    (failure.map fun e => "Error: " ++ e.message).toList⟩

/-- The files that a command reads. -/
def Command.files : Command → List String
  | .diagnose path _ => [settingsFile, path]
  | _ => []

/-- Runs a command. -/
def Command.run {ω : Type} (environment : List (String × String))
    (file : String → Option FileTree) (l : Pool.Line ω) (w : ω) : Command → Ending
  | .version => ⟨0, [versionText], []⟩
  | .help => ⟨0, helpLines, []⟩
  | .diagnose path account =>
    match Network.ofFile (file path) with
    | .error e => .ofConfigError path e
    | .ok n =>
      let (found, failure) := Diagnosis.run n account l w
      .ofDiagnosis (shownLevel environment (file settingsFile)) found failure

/-- Runs the program. -/
def run {ω : Type} (environment : List (String × String)) (file : String → Option FileTree)
    (l : Pool.Line ω) (w : ω) (args : List String) : Ending :=
  match Command.ofArguments args with
  | .error e => .ofUsageError e
  | .ok c => c.run environment file l w

end ChainAccess.CommandLine
