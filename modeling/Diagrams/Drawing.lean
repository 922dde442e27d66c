/-
From a text to what is printed about it: a listing or a document of the diagram that it
describes.
-/
import Diagrams.Code.Reading
import Diagrams.Er.Document
import Diagrams.Schema.Reading
import Diagrams.Settings
import Diagrams.Uml.Document

namespace Diagrams

/-- What a text is. -/
inductive InputKind
  | schema
  | code
  deriving DecidableEq, Repr

/-- The diagram that a text describes. -/
inductive Drawing
  | tables (diagram : Er.Diagram)
  | classes (diagram : Uml.Diagram)

namespace Drawing

/-- Whether there is nothing to draw. -/
def isEmpty : Drawing → Bool
  | tables diagram => diagram.members.isEmpty
  | classes diagram => diagram.members.isEmpty

/-- The drawing in a message. -/
def summary : Drawing → String
  | tables diagram => Er.Diagram.summary diagram
  | classes diagram => Uml.Diagram.summary diagram

/-- The drawing as a document. -/
def document : Drawing → Json
  | tables diagram => Er.Diagram.document diagram
  | classes diagram => Uml.Diagram.document diagram

/-- The lines that list relationships. -/
def relationshipLines (relationships : List String) : List String :=
  ["", "🔗 " ++ toString relationships.length ++ " relationship(s):"] ++
    relationships.map ("   - " ++ ·)

/-- The lines that list a table with its columns. -/
def entityLines (entity : Er.Entity) : List String :=
  ("   - " ++ entity.name.string) :: entity.columns.map fun column => "       " ++ column.text

/-- The lines that list a type with its members. -/
def classLines (type : Uml.Class) : List String :=
  ("   - " ++ type.kind.word ++ " " ++ type.name.string ++ (if type.isStub then " (stub)" else ""))
    :: (type.fields.map fun field => "       " ++ field.text) ++
      type.methods.map fun method => "       " ++ method.text

/-- The lines of the listing of a drawing. -/
def lines : Drawing → List String
  | tables diagram =>
    ("✅ Found " ++ toString diagram.members.length ++ " table(s):") ::
      diagram.nodes.flatMap entityLines ++
        relationshipLines (diagram.shownEdges.map (Er.Diagram.edgeText diagram))
  | classes diagram =>
    ("✅ Found " ++ toString diagram.members.length ++ " class(es):") ::
      diagram.nodes.flatMap classLines ++
        relationshipLines (diagram.shownEdges.map (Uml.Diagram.edgeText diagram))

/-- Lines of text, each with the line feed that ends it. -/
def ofLines (lines : List String) : String := String.join (lines.map (· ++ "\n"))

/-- What is printed when there is nothing to draw. -/
def nothingFound : InputKind → String
  | .schema => "❌ No CREATE TABLE statements found in the input"
  | .code => "❌ No class declarations found in the input"

end Drawing

/-- What came of a text. -/
structure Generation where
  /-- What is printed. -/
  output : String
  /-- The drawing, unless there is nothing to draw. -/
  drawing : Option Drawing
  /-- What was reported on the way. -/
  notices : List Notice

/-- Read a text of the given kind. -/
def draw (kind : InputKind) (source : Text) (settings : Settings) : Drawing × List Notice :=
  match kind with
  | .schema =>
    let reading := Schema.read source Schema.defaultTitle settings.grid?
    (.tables reading.diagram, reading.events.map Schema.Event.notice)
  | .code =>
    let reading := Code.read source Code.defaultTitle settings.diagonal?
    (.classes reading.diagram, reading.events.flatMap Code.Event.notices)

/-- Read a text and print its diagram, as a document or as a listing. -/
def generate (kind : InputKind) (source : Text) (asJson : Bool) (settings : Settings) :
    Generation :=
  let (drawing, notices) := draw kind source settings
  if drawing.isEmpty then
    { output := Drawing.ofLines [Drawing.nothingFound kind], drawing := none, notices }
  else
    let lines := if asJson then [drawing.document.pretty.string] else drawing.lines
    { output := Drawing.ofLines lines, drawing := some drawing, notices }

end Diagrams
