import Versioning.Cli.Program

set_option autoImplicit false

/-! # Command line

The outer layer of the program: it looks at the file system and the environment, hands what it found
to `Invocation.outcome`, and writes out what that comes to. -/

namespace Versioning.Cli

/-- What stands at a path where the settings file may be. -/
def placementAt (text : String) : IO Settings.Placement := do
  let path := (← IO.currentDir) / text
  if ! (← path.pathExists) then return .absent
  if (← path.metadata).type != .file then return .directory
  try
    return .file (some (← IO.FS.readFile path))
  catch _ => return .file none

/-- All that this run depends on. -/
def observe (arguments : List String) : IO Invocation := do
  let start := (← IO.currentDir).components.drop 1
  let placements ← (Settings.upward start).mapM fun directory =>
    placementAt ("/" ++ "/".intercalate (directory ++ [Settings.fileName]))
  let journalFilter ← IO.getEnv "RUST_LOG"
  let forcedColours ← IO.getEnv "CLICOLOR_FORCE"
  let refusedColours ← IO.getEnv "NO_COLOR"
  return ⟨arguments, placements, ⟨journalFilter, forcedColours, refusedColours⟩⟩

/-- Write out what a run comes to. -/
def report (outcome : Outcome) : IO Unit := do
  match outcome with
  | .finished _ output errors => do
      (← IO.getStderr).putStr errors
      (← IO.getStdout).putStr output
  | .misuse => (← IO.getStderr).putStr usage
  | .unusableSettings =>
      (← IO.getStderr).putStr ("Error: Failed to load " ++ Settings.fileName ++ "\n")

end Versioning.Cli

/-- Run the program on its arguments. -/
def main (arguments : List String) : IO UInt32 := do
  let outcome := (← Versioning.Cli.observe arguments).outcome
  Versioning.Cli.report outcome
  return UInt32.ofNat outcome.exitCode
