/-
A whole run of the program, as a function of what it finds around itself.
-/
import Diagrams.CommandLine
import Diagrams.Text.Utf8

namespace Diagrams

/-- What stands at a path. -/
inductive Entry
  | missing
  | directory
  | file (bytes : List UInt8)
  /-- A name on the way, or the way as a whole, is too long to be followed. -/
  | tooLong

/-- What a run finds around itself. -/
structure Surroundings where
  /-- The variables that are set. -/
  environment : Environment := []
  /-- The bytes on the standard input. -/
  standardInput : List UInt8 := []
  /-- What stands at each path. -/
  entry : Text → Entry := fun _ => .missing

/-- Why a run breaks off. -/
inductive Failure
  /-- A measure of the layout is no number. -/
  | notANumber (value : Text)
  /-- The level for notices is not known. -/
  | unknownLevel (name : Text)
  /-- There is no input to read. -/
  | noInput
  /-- The way to the input is too long. -/
  | tooLong (path : Text)
  /-- The input is a directory. -/
  | isDirectory (path : Text)
  /-- The input is not UTF-8. -/
  | undecodable (error : Utf8.DecodeError)

/-- The wording of a failure. -/
def Failure.message : Failure → String
  | notANumber value => Settings.notANumber value
  | unknownLevel name => "Unknown level: " ++ (Text.quoted name).string
  | noInput => "expected str, bytes or os.PathLike object, not list"
  | tooLong path => "[Errno 36] File name too long: " ++ (Text.quoted path).string
  | isDirectory path => "[Errno 21] Is a directory: " ++ (Text.quoted path).string
  | undecodable error => error.message

/-- How a run ends. -/
inductive Outcome
  /-- It ends with a status, having printed a text and shown notices. -/
  | finished (status : Nat) (output : String) (notices : List Notice)
  /-- Help is asked for. -/
  | help
  /-- The command line is not understood. -/
  | usage
  /-- It breaks off. -/
  | failed (failure : Failure)

/-- The rank from which on notices are shown, by the name of a level. -/
def levelRank? (name : Text) : Option Nat :=
  [("CRITICAL", 50), ("FATAL", 50), ("ERROR", 40), ("WARN", 30), ("WARNING", 30), ("INFO", 20),
    ("DEBUG", 10), ("NOTSET", 0)].lookup name.string

namespace Path

/-- The names that a path leads through. -/
def components (path : Text) : List Text :=
  (path.splitWhere (· == '/')).filter fun name => !name.isEmpty && name ≠ ['.']

/-- The root of a path.  Exactly two slashes at the front are kept. -/
def root (path : Text) : Text :=
  let slashes := path.takeWhile (· == '/')
  if slashes.length = 2 then slashes else slashes.take 1

/-- A path without empty names and without names that lead nowhere. -/
def normal (path : Text) : Text :=
  let text := root path ++ Text.joined ['/'] (components path)
  if text.isEmpty then ['.'] else text

end Path

namespace Program

/-- The text that bytes stand for, with every line ending in a line feed. -/
def decoded (bytes : List UInt8) : Except Failure Text :=
  match Utf8.decode bytes with
  | .ok text => .ok (Utf8.unifyNewlines text)
  | .error error => .error (.undecodable error)

/-- The text of the input, or the path where it is missing. -/
def readInput (surroundings : Surroundings) :
    CommandLine.Source → Except Failure (Except Text Text)
  | .standardInput => return .ok (← decoded surroundings.standardInput)
  | .nowhere => throw .noInput
  | .path path =>
    match surroundings.entry path with
    | .missing => return .error path
    | .directory => throw (.isDirectory (Path.normal path))
    | .tooLong => throw (.tooLong (Path.normal path))
    | .file bytes => return .ok (← decoded bytes)

/-- Carry out what a command line asks for. -/
def perform (surroundings : Surroundings) (settings : Settings)
    (arguments : CommandLine.Arguments) : Except Failure Outcome := do
  let rank ←
    if arguments.verbose then pure Level.debug.rank
    else match levelRank? settings.logLevel with
      | some rank => pure rank
      | none => throw (.unknownLevel settings.logLevel)
  match ← readInput surroundings arguments.input with
  | .error path =>
    return .finished 1 (Drawing.ofLines ["❌ Error: File not found: " ++ path.string]) []
  | .ok source =>
    let generation := generate arguments.kind source arguments.asJson settings
    return .finished (if generation.drawing.isSome then 0 else 1) generation.output
      (generation.notices.filter fun notice => rank ≤ notice.level.rank)

/-- Run the program.  The settings are read before the command line. -/
def run (surroundings : Surroundings) (line : List Text) : Outcome :=
  match Settings.ofEnvironment surroundings.environment
      (.selected surroundings.environment) with
  | .error value => .failed (.notANumber value)
  | .ok settings =>
    match CommandLine.read line with
    | .error .help => .help
    | .error .usage => .usage
    | .ok arguments =>
      match perform surroundings settings arguments with
      | .ok outcome => outcome
      | .error failure => .failed failure

end Program

end Diagrams
