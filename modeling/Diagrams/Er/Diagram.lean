/-
Entity-relationship diagrams: tables, and relationships between them.
-/
import Diagrams.Er.Entity

namespace Diagrams.Er

/-- How many rows on either side of a relationship belong together. -/
inductive Cardinality
  | oneToOne
  | oneToMany
  | manyToOne
  | manyToMany
  deriving DecidableEq, Repr

namespace Cardinality

/-- A side counts as one when its column is a key there. -/
def classify : (sourceIsKey targetIsKey : Bool) → Cardinality
  | true, true => oneToOne
  | false, true => manyToOne
  | true, false => oneToMany
  | false, false => manyToMany

/-- The name of the cardinality in a document. -/
def word : Cardinality → String
  | oneToOne => "ONE_TO_ONE"
  | oneToMany => "ONE_TO_MANY"
  | manyToOne => "MANY_TO_ONE"
  | manyToMany => "MANY_TO_MANY"

/-- The cardinality as it is drawn. -/
def symbol : Cardinality → String
  | oneToOne => "1:1"
  | oneToMany => "1:N"
  | manyToOne => "N:1"
  | manyToMany => "N:M"

end Cardinality

/-- What a relationship says about its two tables. -/
structure Relationship where
  /-- The name, fixed when the relationship is made. -/
  name : Text
  /-- How many rows belong together. -/
  cardinality : Cardinality
  /-- The place of the referring column in the source table. -/
  sourceColumn : Option Nat := none
  /-- The place of the column referred to in the target table. -/
  targetColumn : Option Nat := none
  deriving DecidableEq, Repr

/-- An entity-relationship diagram. -/
abbrev Diagram := Graph Entity Relationship

namespace Diagram

/-- A diagram without tables.  Table names do not regard case. -/
def empty (title : Text) : Diagram := { title, registry := { caseSensitive := false } }

/-- A relationship between two tables.  Without a name of its own it is named for the tables. -/
def relationship (diagram : Diagram) (source target : Nat) (cardinality : Cardinality)
    (sourceColumn targetColumn : Option Nat) (name : Text) : Edge Relationship :=
  { source, target
    label :=
      { cardinality, sourceColumn, targetColumn
        name :=
          if name.isEmpty then diagram.nameOf source ++ '_' :: diagram.nameOf target else name } }

/-- The place in a table of the column that a name stands for. -/
def columnIndex? (diagram : Diagram) (entity : Nat) (column : Text) : Option Nat :=
  (diagram.node? entity).bind (·.columnIndex? column)

/-- The column at a place in a table. -/
def column? (diagram : Diagram) (entity : Nat) (index : Option Nat) : Option Column :=
  (diagram.node? entity).bind fun table => index.bind fun place => table.columns[place]?

/-- A relationship in a listing. -/
def edgeText (diagram : Diagram) (edge : Edge Relationship) : String :=
  (diagram.nameOf edge.source).string ++ " " ++ edge.label.cardinality.symbol ++ " " ++
    (diagram.nameOf edge.target).string

/-- A relationship in a message. -/
def edgeSummary (diagram : Diagram) (edge : Edge Relationship) : String :=
  "Relationship(" ++ (diagram.nameOf edge.source).string ++ " -> " ++
    (diagram.nameOf edge.target).string ++ ", type=" ++ edge.label.cardinality.word ++ ")"

/-- A diagram in a message. -/
def summary (diagram : Diagram) : String :=
  "ERDiagram(entities=" ++ toString diagram.members.length ++ ", relationships=" ++
    toString diagram.edges.length ++ ")"

end Diagram

end Diagrams.Er
