/-
Entities of an entity-relationship diagram: tables with their columns.

Column names are compared without regard to case, and the first column of a name is the one that
the name stands for.
-/
import Diagrams.Graph

namespace Diagrams.Er

/-- A column of a table. -/
structure Column where
  /-- The name, as it was written. -/
  name : Text
  /-- The data type, in its normal spelling. -/
  type : Text
  /-- Whether the column belongs to the primary key. -/
  isPrimaryKey : Bool := false
  /-- Whether the column belongs to a foreign key. -/
  isForeignKey : Bool := false
  /-- The table that the foreign key refers to. -/
  referencedTable : Option Text := none
  /-- The column that the foreign key refers to, where it says so. -/
  referencedColumn : Option Text := none
  /-- Whether the column may be null. -/
  isNullable : Bool := true
  deriving DecidableEq, Repr

namespace Column

/-- The column as part of the primary key, which is never null. -/
def markPrimaryKey (column : Column) : Column :=
  { column with isPrimaryKey := true, isNullable := false }

/-- The column as part of a foreign key. -/
def markForeignKey (table : Text) (reference : Option Text) (column : Column) : Column :=
  { column with isForeignKey := true, referencedTable := table, referencedColumn := reference }

/-- The column with the rule of primary keys applied: they are never null. -/
def normalized (column : Column) : Column :=
  { column with isNullable := column.isNullable && !column.isPrimaryKey }

/-- The column in a listing. -/
def text (column : Column) : String :=
  column.name.string ++ " (" ++ column.type.string ++ ")" ++
    (if column.isPrimaryKey then " PK" else "") ++
    (if column.isForeignKey then " FK" else "") ++
    (if column.isNullable then "" else " NOT NULL")

/-- The column in a message. -/
def summary (column : Column) : String :=
  let reference := (column.referencedTable.map Text.string).getD "None"
  "Attribute(name=" ++ column.name.string ++
    (if column.isPrimaryKey then " [PK]" else "") ++
    (if column.isForeignKey then " [FK -> " ++ reference ++ "]" else "") ++
    ", type=" ++ column.type.string ++ ")"

end Column

/-- A table with its place in the drawing. -/
structure Entity where
  /-- The name of the table. -/
  name : Text
  /-- The columns, in order. -/
  columns : List Column := []
  /-- How far to the right the table is drawn. -/
  x : Float := 0
  /-- How far down the table is drawn. -/
  y : Float := 0

instance : Named Entity := ⟨Entity.name⟩

namespace Entity

/-- Add a column at the end. -/
def addColumn (entity : Entity) (column : Column) : Entity :=
  { entity with columns := entity.columns ++ [column] }

/-- The place of the column that a name stands for. -/
def columnIndex? (entity : Entity) (name : Text) : Option Nat :=
  entity.columns.findIdx? fun column => column.name.lower = name.lower

/-- The column that a name stands for. -/
def column? (entity : Entity) (name : Text) : Option Column :=
  entity.columns.find? fun column => column.name.lower = name.lower

/-- Change the column that a name stands for, if there is one. -/
def modifyColumn (entity : Entity) (name : Text) (change : Column → Column) : Entity :=
  match entity.columnIndex? name with
  | some index => { entity with columns := entity.columns.modify index change }
  | none => entity

/-- The columns of the primary key. -/
def primaryKeys (entity : Entity) : List Column := entity.columns.filter (·.isPrimaryKey)

/-- Whether a column alone is the primary key.  One part of a longer key does not tell rows
apart. -/
def isUniqueKey (entity : Entity) (name : Text) : Bool :=
  (entity.column? name).any (·.isPrimaryKey) && entity.primaryKeys.length == 1

/-- The entity in a message. -/
def summary (entity : Entity) : String :=
  "Entity(name=" ++ entity.name.string ++ ", attributes=" ++
    toString entity.columns.length ++ ")"

end Entity

end Diagrams.Er
