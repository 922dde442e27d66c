/-
Notices: what a reader of scripts or sources reports about its work.
-/

namespace Diagrams

/-- How important a notice is. -/
inductive Level
  | debug
  | info
  deriving DecidableEq, Repr

/-- The rank of a level; a higher rank is more important. -/
def Level.rank : Level → Nat
  | debug => 10
  | info => 20

/-- The name of a level. -/
def Level.word : Level → String
  | debug => "DEBUG"
  | info => "INFO"

/-- The parts of the program that report. -/
inductive Reporter
  | registry
  | inference
  | schemaReader
  | codeReader
  deriving DecidableEq, Repr

/-- The name under which a part of the program reports. -/
def Reporter.word : Reporter → String
  | registry => "diagram_generator.core.registry"
  | inference => "diagram_generator.core.inference"
  | schemaReader => "diagram_generator.core.sql_parser"
  | codeReader => "diagram_generator.core.java_parser"

/-- One line of a report. -/
structure Notice where
  /-- How important it is. -/
  level : Level
  /-- Which part of the program reports. -/
  reporter : Reporter
  /-- What is reported. -/
  message : String
  deriving DecidableEq, Repr

/-- A notice as one line of text. -/
def Notice.line (notice : Notice) : String :=
  notice.level.word ++ " " ++ notice.reporter.word ++ ": " ++ notice.message

end Diagrams
