/-
The command line program: it gathers what a run finds around itself, and shows how the run ends.
-/
import Diagrams.Program

namespace Diagrams.Program

/-- The variables that settings are read from. -/
def settingVariables : List String :=
  ["DIAGRAM_ENV", "DIAGRAM_LOG_LEVEL", "DIAGRAM_AUTO_LAYOUT", "DIAGRAM_CELL_WIDTH",
    "DIAGRAM_CELL_HEIGHT", "DIAGRAM_LAYOUT_ORIGIN", "DIAGRAM_CLASS_OFFSET", "DIAGRAM_CLASS_STEP"]

/-- The variables that are set. -/
def readEnvironment : IO Environment :=
  settingVariables.filterMapM fun name => do
    return (← IO.getEnv name).map fun value => (name, value.toList)

/-- What stands at a path. -/
def readEntry (path : Text) : IO Entry := do
  try
    return .file (← IO.FS.readBinFile (Path.normal path).string).toList
  catch
    | .noFileOrDirectory .. => return .missing
    -- a way through a file cannot be opened; a directory can, and fails to be read
    | .inappropriateType (some _) .. => return .missing
    | .inappropriateType none .. => return .directory
    | .invalidArgument _ 36 _ => return .tooLong
    | error => throw error

/-- What to type. -/
def usageLine : String := "usage: diagrams [-h] [--json] [-v] [sql|java] input"

/-- Run the program on the arguments that the shell passes on. -/
def fromShell (arguments : List String) : IO UInt32 := do
  let line := arguments.map String.toList
  let environment ← readEnvironment
  let input : Option CommandLine.Source := (CommandLine.read line).toOption.map (·.input)
  let standardInput ← match input with
    | some .standardInput => pure (← (← IO.getStdin).readBinToEnd).toList
    | _ => pure []
  let entry ← match input with
    | some (.path path) => readEntry path
    | _ => pure .missing
  match run { environment, standardInput, entry := fun _ => entry } line with
  | .finished status output notices =>
    for notice in notices do
      IO.eprintln notice.line
    IO.print output
    return UInt32.ofNat status
  | .help =>
    IO.println usageLine
    return 0
  | .usage =>
    IO.eprintln usageLine
    return 2
  | .failed failure =>
    IO.eprintln failure.message
    return 1

end Diagrams.Program

def main (arguments : List String) : IO UInt32 :=
  Diagrams.Program.fromShell arguments
