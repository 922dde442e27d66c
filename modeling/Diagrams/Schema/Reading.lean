/-
Reading a whole schema script into an entity-relationship diagram.

Statements are read one after the other.  A table definition adds a table, a change to a table
marks keys of a table that is there already, and a statement that is neither is skipped.  Foreign
keys wait until all statements are read, so that a table may refer to one further down.
-/
import Diagrams.Er.Layout
import Diagrams.Log
import Diagrams.Schema.Table
import Diagrams.Text.Quoted

namespace Diagrams.Schema

/-- What happens while a script is read. -/
inductive Event
  /-- A statement is no strict table definition. -/
  | strictReadingFailed (error : TableError)
  /-- A part of a list cannot be read as a column. -/
  | partUnreadable (part table : Text)
  /-- A statement says nothing about a table. -/
  | statementSkipped (statement : Text)
  /-- A statement changes a table that is not there. -/
  | tableUnknown (table : Text)
  /-- A table takes over the name of another one. -/
  | tableRedeclared (table : Text)
  /-- A foreign key refers to a table that is not there. -/
  | keyDropped (key : Er.ForeignKey)
  /-- The script has been read. -/
  | finished (tables relationships statements skipped : Nat)

/-- The notice of an event. -/
def Event.notice : Event → Notice
  | strictReadingFailed error =>
    ⟨.debug, .schemaReader,
      "Strict parse failed (" ++ error.message ++ "), trying fallback extraction"⟩
  | partUnreadable part table =>
    ⟨.debug, .schemaReader,
      "Skipping unreadable column text '" ++ part.string ++ "' in table '" ++ table.string ++ "'"⟩
  | statementSkipped statement =>
    ⟨.debug, .schemaReader,
      "Skipping statement: " ++ (Text.quoted (statement.take 60)).string⟩
  | tableUnknown table =>
    ⟨.debug, .schemaReader,
      "ALTER TABLE on undeclared table '" ++ table.string ++ "' ignored"⟩
  | tableRedeclared table =>
    ⟨.debug, .registry,
      "Symbol '" ++ table.string ++ "' redeclared, registry slot overwritten"⟩
  | keyDropped key =>
    ⟨.debug, .inference,
      "Dropping foreign key " ++ key.sourceTable.string ++ "." ++ key.column.string ++
        ": table '" ++ key.targetTable.string ++ "' is not declared"⟩
  | finished tables relationships statements skipped =>
    ⟨.info, .schemaReader,
      "Parsed " ++ toString tables ++ " table(s) and " ++ toString relationships ++
        " relationship(s) from " ++ toString statements ++ " statement(s), " ++
        toString skipped ++ " skipped"⟩

/-- How far the reading of a script has come. -/
structure Progress where
  /-- The diagram so far, without relationships. -/
  diagram : Er.Diagram
  /-- The foreign keys that wait for their tables. -/
  pending : List Er.ForeignKey := []
  /-- How many statements were skipped. -/
  skipped : Nat := 0
  /-- What has happened, latest first. -/
  events : List Event := []

namespace Progress

/-- Note an event. -/
def report (progress : Progress) (event : Event) : Progress :=
  { progress with events := event :: progress.events }

/-- Skip a statement. -/
def skip (progress : Progress) (event : Event) : Progress :=
  { progress.report event with skipped := progress.skipped + 1 }

/-- Add a table with its foreign keys. -/
def addTable (progress : Progress) (definition : Definition) : Progress :=
  let diagram := progress.diagram
  let noted :=
    if diagram.registry.overwrites definition.entity.name (some diagram.nextNode) then
      progress.report (.tableRedeclared definition.entity.name)
    else progress
  { noted with
    diagram := diagram.insert definition.entity
    pending := progress.pending ++ definition.foreignKeys }

/-- Mark the keys that a change adds to a table. -/
def changeTable (progress : Progress) (table changes : Text) : Progress :=
  match progress.diagram.lookup? table with
  | none => progress.skip (.tableUnknown table)
  | some node =>
    let name := progress.diagram.nameOf node
    let primaryKeys := (Grammar.addPrimaryKey.findAll changes).flatMap fun found =>
      identifierList (found.text .columns)
    let keys := (Grammar.addForeignKey.findAll changes).flatMap fun found =>
      foreignKeys name (found.text .columns) (found.text .target) (found.text? .targetColumns)
    { progress with
      diagram := progress.diagram.modify node (·.applyKeys primaryKeys keys)
      pending := progress.pending ++ keys }

/-- Read a table definition, strictly if that works and permissively if not. -/
def defineTable (progress : Progress) (statement : Text) : Progress :=
  match readTable statement with
  | .ok definition => progress.addTable definition
  | .error error =>
    let failed := progress.report (.strictReadingFailed error)
    match salvageTable statement with
    | none => failed.skip (.statementSkipped statement)
    | some salvage =>
      let table := salvage.definition.entity.name
      (salvage.unreadable.foldl (fun p part => p.report (.partUnreadable part table))
        failed).addTable salvage.definition

/-- Read one statement. -/
def readStatement (progress : Progress) (statement : Text) : Progress :=
  let bare := stripComments statement
  match Grammar.alterTable.matchStart? bare with
  | some change => progress.changeTable (change.text .name) (change.text .options)
  | none => progress.defineTable bare

end Progress

/-- A script that has been read. -/
structure Reading where
  /-- The diagram. -/
  diagram : Er.Diagram
  /-- How many statements were skipped. -/
  skipped : Nat
  /-- What happened, in order. -/
  events : List Event

/-- Read the statements of a script into a diagram without relationships. -/
def readStatements (script title : Text) : Progress :=
  (statements script).foldl Progress.readStatement { diagram := .empty title }

/-- Read a script.  With a grid, the tables are placed on it. -/
def read (script title : Text) (grid : Option Er.Grid) : Reading :=
  let progress := readStatements script title
  let edges := progress.diagram.relationshipsOf progress.pending
  let connected := progress.diagram.resolveForeignKeys progress.pending
  let dropped := progress.pending.filter progress.diagram.isDangling
  let diagram := match grid with
    | some grid => connected.autoLayout grid
    | none => connected
  { diagram
    skipped := progress.skipped
    events := progress.events.reverse ++ dropped.map .keyDropped ++
      [.finished diagram.members.length edges.length (statements script).length progress.skipped] }

/-- The title of a diagram that has none of its own. -/
def defaultTitle : Text := "ER Diagram".toList

end Diagrams.Schema
