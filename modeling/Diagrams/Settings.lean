/-
Settings, as they are read from the environment.

There are four profiles, which differ in what holds when a variable is not set.  The measures of
the layout are the same for all of them; a measure that is no number is an error whatever the
profile.
-/
import Diagrams.Code.Reading
import Diagrams.Decimal.Reading
import Diagrams.Er.Layout
import Diagrams.Text.Lower
import Diagrams.Text.Quoted

namespace Diagrams

/-- The variables that are set. -/
abbrev Environment := List (String × Text)

/-- The value of a variable, or what stands for it when it is not set. -/
def Environment.getOr (environment : Environment) (key : String) (default : String) : Text :=
  (environment.lookup key).getD default.toList

/-- A set of defaults. -/
inductive Profile
  | base
  | development
  | production
  | testing
  deriving DecidableEq, Repr

/-- The profile that the environment selects; development unless it names another one. -/
def Profile.selected (environment : Environment) : Profile :=
  let name := Environment.getOr environment "DIAGRAM_ENV" "development"
  if name = "production".toList then production
  else if name = "testing".toList then testing
  else development

/-- The measures of a layout. -/
structure Measures where
  /-- How wide a cell of the grid is. -/
  cellWidth : Float := 250
  /-- How high a cell of the grid is. -/
  cellHeight : Float := 300
  /-- Where the grid starts, in both directions. -/
  layoutOrigin : Float := 50
  /-- Where the diagonal of classes starts. -/
  classOffset : Float := 100
  /-- How far it is from one class to the next. -/
  classStep : Float := 50

/-- What holds for one profile. -/
structure Settings where
  /-- Whether this is a profile for finding errors. -/
  debug : Bool := false
  /-- Whether this is a profile for tests. -/
  testing : Bool := false
  /-- The least important notices that are shown. -/
  logLevel : Text := "WARNING".toList
  /-- Whether tables and classes are placed. -/
  autoLayout : Bool := true
  /-- The measures of the layout. -/
  measures : Measures := {}

namespace Settings

/-- The grid for tables, if they are placed. -/
def grid? (settings : Settings) : Option Er.Grid :=
  if settings.autoLayout then
    some
      { cellWidth := settings.measures.cellWidth, cellHeight := settings.measures.cellHeight
        startX := settings.measures.layoutOrigin, startY := settings.measures.layoutOrigin }
  else none

/-- The diagonal for classes, if they are placed. -/
def diagonal? (settings : Settings) : Option Code.Diagonal :=
  if settings.autoLayout then
    some { offset := settings.measures.classOffset, step := settings.measures.classStep }
  else none

/-- Whether a value switches something on. -/
def isOn (value : Text) : Bool :=
  ["1", "true", "yes", "on"].contains (value.trim.lower : Text).string

/-- The wording of the error for a measure that is no number. -/
def notANumber (value : Text) : String :=
  "could not convert string to float: " ++ (Text.quoted value).string

/-- A measure; the error is the text that is no number. -/
def measure (environment : Environment) (key default : String) : Except Text Float :=
  let value := Environment.getOr environment key default
  match Decimal.readFloat? value with
  | some x => .ok x
  | none => .error value

/-- The measures that the environment sets; the first text that is no number is the error. -/
def measuresOf (environment : Environment) : Except Text Measures := do
  let cellWidth ← measure environment "DIAGRAM_CELL_WIDTH" "250"
  let cellHeight ← measure environment "DIAGRAM_CELL_HEIGHT" "300"
  let layoutOrigin ← measure environment "DIAGRAM_LAYOUT_ORIGIN" "50"
  let classOffset ← measure environment "DIAGRAM_CLASS_OFFSET" "100"
  let classStep ← measure environment "DIAGRAM_CLASS_STEP" "50"
  return { cellWidth, cellHeight, layoutOrigin, classOffset, classStep }

/-- The settings of a profile. -/
def ofEnvironment (environment : Environment) (profile : Profile) : Except Text Settings :=
  (measuresOf environment).map fun measures =>
    { debug := profile == .development
      testing := profile == .testing
      logLevel := Environment.getOr environment "DIAGRAM_LOG_LEVEL"
        (if profile = .development then "INFO" else "WARNING")
      autoLayout := isOn (Environment.getOr environment "DIAGRAM_AUTO_LAYOUT"
        (if profile = .testing then "false" else "true"))
      measures }

/-- The measures with which nothing can be drawn. -/
def unusableMeasures (settings : Settings) : List String :=
  ([("CELL_WIDTH", settings.measures.cellWidth), ("CELL_HEIGHT", settings.measures.cellHeight),
    ("CLASS_STEP", settings.measures.classStep)].filter fun entry => entry.2 ≤ 0).map (·.1)

/-- Check that a drawing can be made with the settings; the error is the wording. -/
def validate (settings : Settings) : Except String Unit :=
  match settings.unusableMeasures with
  | [] => .ok ()
  | names => .error ("Invalid layout configuration: " ++ ", ".intercalate names)

end Settings

end Diagrams
