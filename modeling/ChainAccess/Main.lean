import ChainAccess.CommandLine.Run
-- The program. It reads the files that its command names and shows what the
-- run leaves behind. It has no line to the outside of its own, so that every
-- endpoint counts as unreachable.

namespace ChainAccess.CommandLine

/-- The file at a path, or a directory without looking into it. -/
def readFile (path : String) : IO (Option FileTree) := do
  try
    return some (.file (← IO.FS.readBinFile path).toList)
  catch
    | .inappropriateType .. => return some (.dir [])
    | .permissionDenied .. => return some .sealed
    | _ => return none

/-- The files that the arguments name. -/
def readFiles (args : List String) : IO (List (String × FileTree)) := do
  let paths := ((Command.ofArguments args).toOption.map Command.files).getD []
  paths.filterMapM fun path => return (← readFile path).map (path, ·)

end ChainAccess.CommandLine

open ChainAccess CommandLine in
/-- Runs the program. -/
def main (args : List String) : IO UInt32 := do
  let files ← readFiles args
  let level ← IO.getEnv levelVariable
  let environment := (level.map (levelVariable, ·)).toList
  let ending := run environment (files.lookup ·) .unreachable () args
  for line in ending.output do
    IO.println line
  for line in ending.errors do
    IO.eprintln line
  return UInt32.ofNat ending.exit
