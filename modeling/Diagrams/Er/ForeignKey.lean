/-
Foreign keys, and the relationships that they give rise to once all tables are known.

A foreign key names tables and columns.  It becomes a relationship when both tables are in the
diagram; otherwise it is dropped.  Making relationships changes no table, so what becomes of a
foreign key depends on the tables alone and not on the keys in front of it.
-/
import Diagrams.Er.Diagram

namespace Diagrams.Er

/-- One column that refers to another table. -/
structure ForeignKey where
  /-- The table that the column is in. -/
  sourceTable : Text
  /-- The column. -/
  column : Text
  /-- The table referred to. -/
  targetTable : Text
  /-- The column referred to, where it is given. -/
  targetColumn : Option Text
  deriving DecidableEq, Repr

/-- Mark the key columns of a table.  Names without a column are passed over. -/
def Entity.applyKeys (entity : Entity) (primaryKeys : List Text) (foreignKeys : List ForeignKey) :
    Entity :=
  let withPrimary := primaryKeys.foldl (fun e name => e.modifyColumn name .markPrimaryKey) entity
  foreignKeys.foldl
    (fun e key => e.modifyColumn key.column (.markForeignKey key.targetTable key.targetColumn))
    withPrimary

namespace Diagram

/-- The relationship that a foreign key gives rise to.  The source counts as one row when the
column is the whole primary key there, the target when the column is part of the primary key. -/
def relationshipOf? (diagram : Diagram) (key : ForeignKey) : Option (Edge Relationship) := do
  let source ← diagram.lookup? key.sourceTable
  let target ← diagram.lookup? key.targetTable
  let sourceColumn := diagram.columnIndex? source key.column
  let targetColumn := key.targetColumn.bind (diagram.columnIndex? target)
  let sourceIsKey := (diagram.node? source).any (·.isUniqueKey key.column)
  let targetIsKey := (diagram.column? target targetColumn).any (·.isPrimaryKey)
  return diagram.relationship source target (.classify sourceIsKey targetIsKey)
    sourceColumn targetColumn []

/-- Whether a foreign key is dropped because the table that it refers to is missing. -/
def isDangling (diagram : Diagram) (key : ForeignKey) : Bool :=
  (diagram.lookup? key.sourceTable).isSome && (diagram.lookup? key.targetTable).isNone

/-- The relationships that foreign keys give rise to, in order. -/
def relationshipsOf (diagram : Diagram) (keys : List ForeignKey) : List (Edge Relationship) :=
  keys.filterMap diagram.relationshipOf?

/-- The diagram with the relationships that foreign keys give rise to. -/
def resolveForeignKeys (diagram : Diagram) (keys : List ForeignKey) : Diagram :=
  (diagram.relationshipsOf keys).foldl Graph.connect diagram

end Diagram

end Diagrams.Er
