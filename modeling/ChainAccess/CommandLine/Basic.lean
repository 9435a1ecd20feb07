import ChainAccess.Chain.Address
-- The arguments of the program. An option takes its value behind an equals
-- sign or as the next argument; one that still waits for its value when the
-- next option or the end comes has none. Each option may stand once.

namespace ChainAccess.CommandLine

/-! ## Commands and usage errors -/

/-- An option with a value. -/
inductive Flag where
  | network | account
  deriving DecidableEq, Repr

/-- The name of an option. -/
def Flag.name : Flag → String
  | .network => "network"
  | .account => "account"

/-- An option as messages show it. -/
def Flag.usage : Flag → String
  | .network => "--network <PATH>"
  | .account => "--account <ADDRESS>"

/-- What the program is asked to do. -/
inductive Command where
  | version
  | help
  /-- Diagnose the network in the file at a path, with an account. -/
  | diagnose (path : String) (account : Option Address)
  deriving DecidableEq, Repr

/-- Why arguments make no command. -/
inductive UsageError where
  | missingOption (flag : Flag)
  | missingValue (flag : Flag)
  | invalidValue (flag : Flag) (value : String)
  | repeated (flag : Flag)
  | unexpected (argument : String)
  /-- An option that takes no value has one. -/
  | surplusValue (value option : String)
  deriving DecidableEq, Repr

/-- The words for a usage error, line by line. -/
def UsageError.lines : UsageError → List String
  | .missingOption f =>
    ["error: the following required arguments were not provided:", "  " ++ f.usage]
  | .missingValue f =>
    ["error: a value is required for '" ++ f.usage ++ "' but none was supplied"]
  | .invalidValue f v =>
    ["error: invalid value '" ++ v ++ "' for '" ++ f.usage ++ "': not an address"]
  | .repeated f => ["error: the argument '" ++ f.usage ++ "' cannot be used multiple times"]
  | .unexpected a => ["error: unexpected argument '" ++ a ++ "' found"]
  | .surplusValue v o =>
    ["error: unexpected value '" ++ v ++ "' for '" ++ o ++ "' found; no more were expected"]

/-! ## Reading the arguments -/

/-- What was read of the arguments. -/
structure Scan where
  path : Option String
  account : Option Address
  /-- The option read last, with its value if that has come, not yet looked
  at. -/
  pending : Option (Flag × Option String)

/-- Takes over the value of an option. -/
def Scan.take (s : Scan) : Flag → String → Except UsageError Scan
  | .network, v =>
    if s.path.isSome then .error (.repeated .network)
    else if v.isEmpty then .error (.missingValue .network)
    else .ok { s with path := some v }
  | .account, v =>
    if s.account.isSome then .error (.repeated .account)
    else
      match Address.ofString? v with
      | some a => .ok { s with account := some a }
      | none => .error (.invalidValue .account v)

/-- Looks at the option read last. -/
def Scan.settle (s : Scan) : Except UsageError Scan :=
  match s.pending with
  | none => .ok s
  | some (f, none) => .error (.missingValue f)
  | some (f, some v) => { s with pending := none }.take f v

/-- What an argument is. -/
inductive Argument where
  /-- Only plain arguments follow. -/
  | stop
  | version (value : Option String)
  | help (value : Option String)
  | flag (f : Flag) (value : Option String)
  /-- An option that does not exist. -/
  | unknown (shown : String)
  | plain (text : String)

/-- Splits an argument at its first equals sign. -/
def splitValue (cs : List Char) : String × Option String :=
  let name := cs.takeWhile (· ≠ '=')
  let rest := cs.dropWhile (· ≠ '=')
  (String.ofList name, if rest.isEmpty then none else some (String.ofList (rest.drop 1)))

/-- Tells what an argument is. -/
def Argument.ofString (arg : String) : Argument :=
  match arg.toList with
  | ['-', '-'] => .stop
  | '-' :: '-' :: cs =>
    let (name, value) := splitValue cs
    if name = "version" then .version value
    else if name = "help" then .help value
    else
      match [Flag.network, Flag.account].find? (·.name = name) with
      | some f => .flag f value
      | none => .unknown ("--" ++ name)
  | '-' :: 'V' :: _ => .version none
  | '-' :: 'h' :: _ => .help none
  | '-' :: c :: _ => .unknown (String.ofList ['-', c])
  | _ => .plain arg

/-- The command at the end of the arguments. -/
def Scan.finish (s : Scan) : Except UsageError Command := do
  let s ← s.settle
  match s.path with
  | some path => return .diagnose path s.account
  | none => throw (.missingOption .network)

/-- A request that ends the reading at once; it takes no value. -/
def Scan.stopAt (s : Scan) (c : Command) (option : String) :
    Option String → Except UsageError Command
  | none => s.settle.map fun _ => c
  | some v => .error (.surplusValue v option)

/-- Reads the arguments from left to right. -/
def Scan.read (s : Scan) : List String → Except UsageError Command
  | [] => s.finish
  | arg :: rest =>
    match Argument.ofString arg with
    | .stop =>
      match rest with
      | [] => s.finish
      | first :: _ => .error (.unexpected first)
    | .version value => s.stopAt .version "--version" value
    | .help value => s.stopAt .help "--help" value
    | .unknown shown => .error (.unexpected shown)
    | .flag f none => do
      let s ← s.settle
      { s with pending := some (f, none) }.read rest
    | .flag f (some v) => do
      let s ← s.settle
      let s ← { s with pending := none }.take f v
      s.read rest
    | .plain text =>
      match s.pending with
      | some (f, none) => { s with pending := some (f, some text) }.read rest
      | _ => .error (.unexpected text)

/-- The command that arguments write. -/
def Command.ofArguments (args : List String) : Except UsageError Command :=
  (⟨none, none, none⟩ : Scan).read args

end ChainAccess.CommandLine
