/-
Table definitions.

A definition is read in two ways.  `readTable` is strict: every part of the list has to be a
column or a known constraint, and the first part that is not decides the error.  `salvageTable`
needs no more than the name of a table and keeps whatever columns and keys it can make out.
Both collect columns and keys in a `Draft` and mark the key columns at the end, so that a key may
be written in front of its columns.
-/
import Diagrams.Schema.Grammar
import Diagrams.Schema.Identifier
import Diagrams.Schema.Script

namespace Diagrams.Schema

/-- Why a statement is not a readable table definition. -/
inductive TableError
  /-- It does not start like one. -/
  | notATable
  /-- The list of the table is not closed. -/
  | unbalanced (table : Text)
  /-- There is nothing between two commas of the list. -/
  | emptyPart (table : Text)
  /-- A part of the list is neither a column nor a known constraint. -/
  | unreadablePart (part table : Text)
  deriving DecidableEq, Repr

/-- The wording of an error. -/
def TableError.message : TableError → String
  | notATable => "not a CREATE TABLE statement"
  | unbalanced table => "unbalanced parentheses in table '" ++ table.string ++ "'"
  | emptyPart table => "empty column definition in table '" ++ table.string ++ "'"
  | unreadablePart part table =>
    "unrecognized column definition '" ++ part.string ++ "' in table '" ++ table.string ++ "'"

/-- A table with the foreign keys that its definition declares. -/
structure Definition where
  /-- The table. -/
  entity : Er.Entity
  /-- Its foreign keys, in order. -/
  foreignKeys : List Er.ForeignKey

/-- A table definition that is being read. -/
structure Draft where
  /-- The name of the table. -/
  table : Text
  /-- The columns so far. -/
  columns : List Er.Column := []
  /-- The names of the primary-key columns so far. -/
  primaryKeys : List Text := []
  /-- The foreign keys so far. -/
  foreignKeys : List Er.ForeignKey := []

namespace Draft

/-- Add the primary key that a match notes. -/
def addPrimaryKey (draft : Draft) (found : Match Slot) : Draft :=
  { draft with primaryKeys := draft.primaryKeys ++ identifierList (found.text .columns) }

/-- Add the foreign keys that a match notes, for the given columns. -/
def addForeignKeys (draft : Draft) (columns : Text) (found : Match Slot) : Draft :=
  { draft with
    foreignKeys := draft.foreignKeys ++
      Schema.foreignKeys draft.table columns (found.text .target) (found.text? .targetColumns) }

/-- Add the column that a match notes, with the options that follow it. -/
def addColumn (draft : Draft) (found : Match Slot) (options : Text) : Draft :=
  let name := found.text .name
  let column : Er.Column :=
    { name, type := normalizeType (found.text .type)
      isNullable := !Grammar.notNull.occursIn options }
  let withColumn :=
    { draft with
      columns := draft.columns ++ [column]
      primaryKeys :=
        if Grammar.inlinePrimaryKey.occursIn options then draft.primaryKeys ++ [name]
        else draft.primaryKeys }
  match Grammar.inlineReferences.find? options with
  | some reference => withColumn.addForeignKeys name reference
  | none => withColumn

/-- The table with its key columns marked. -/
def finish (draft : Draft) : Definition :=
  let entity : Er.Entity := { name := draft.table, columns := draft.columns }
  { entity := entity.applyKeys draft.primaryKeys draft.foreignKeys
    foreignKeys := draft.foreignKeys }

end Draft

/-! ### The strict reading -/

/-- Read one part of the list of a table. -/
def readPart (draft : Draft) (part : Text) : Except TableError Draft :=
  if part.isEmpty then .error (.emptyPart draft.table)
  else if let some found := Grammar.primaryKeyPart.matchStart? part then
    .ok (draft.addPrimaryKey found)
  else if let some found := Grammar.foreignKeyPart.matchStart? part then
    .ok (draft.addForeignKeys (found.text .columns) found)
  else if (Grammar.otherConstraint.matchStart? part).isSome then .ok draft
  else match Grammar.column.matchStart? part with
    | some found =>
      if isConstraintWord (found.text .name) then .error (.unreadablePart part draft.table)
      else .ok (draft.addColumn found (found.text .options))
    | none => .error (.unreadablePart part draft.table)

/-- Read a table definition strictly. -/
def readTable (statement : Text) : Except TableError Definition :=
  match Grammar.createTable.matchStart? statement with
  | none => .error .notATable
  | some header =>
    let table := header.text .name
    match Brackets.round.body? ('(' :: header.rest) with
    | none => .error (.unbalanced table)
    | some (list, _) =>
      ((parts list).foldlM readPart { table }).map Draft.finish

/-! ### The permissive reading -/

/-- What could be made out of a statement. -/
structure Salvage where
  /-- The table with its foreign keys. -/
  definition : Definition
  /-- The parts of its list that could not be read. -/
  unreadable : List Text

/-- The list of a table after its name: up to the closing bracket, or as far as the statement
goes. -/
def looseList (afterName : Text) : Text :=
  match afterName.dropWhile (· != '(') with
  | [] => []
  | opening :: rest =>
    match Brackets.round.body? (opening :: rest) with
    | some (list, _) => list
    | none => (Text.dropEnd isBlank rest).dropEnd (· == ';')

/-- Read one part of a list as a column, or pass over it.  The second result lists the parts that
could not be read. -/
def salvagePart : Draft × List Text → Text → Draft × List Text
  | (draft, unreadable), part =>
    if isConstraintWord (part.words.head?.getD []) ||
        (Grammar.otherConstraint.matchStart? part).isSome then
      (draft, unreadable)
    else match Grammar.looseColumn.matchStart? part with
      | some found => (draft.addColumn found found.rest, unreadable)
      | none => (draft, unreadable ++ [part])

/-- Make out what can be made out of a statement that names a table. -/
def salvageTable (statement : Text) : Option Salvage :=
  (Grammar.looseTable.find? statement).map fun header =>
    let start : Draft := { table := header.text .name }
    let withPrimary :=
      (Grammar.primaryKeyAnywhere.findAll statement).foldl Draft.addPrimaryKey start
    let withKeys := (Grammar.foreignKeyAnywhere.findAll statement).foldl
      (fun draft found => draft.addForeignKeys (found.text .columns) found) withPrimary
    let (draft, unreadable) := (parts (looseList header.rest)).foldl salvagePart (withKeys, [])
    { definition := draft.finish, unreadable }

end Diagrams.Schema
