/-
Class diagrams: types, and relationships between them.
-/
import Diagrams.Uml.Class

namespace Diagrams.Uml

/-- How two types are related. -/
inductive RelationshipKind
  | association
  | inheritance
  | implementation
  | dependency
  | aggregation
  | composition
  deriving DecidableEq, Repr

/-- The word for a kind of relationship. -/
def RelationshipKind.word : RelationshipKind → String
  | association => "association"
  | inheritance => "inheritance"
  | implementation => "implementation"
  | dependency => "dependency"
  | aggregation => "aggregation"
  | composition => "composition"

/-- The name of a kind of relationship in a document. -/
def RelationshipKind.capitals (kind : RelationshipKind) : String := kind.word.toUpper

/-- What a relationship says about its two types. -/
structure Relationship where
  /-- How the types are related. -/
  kind : RelationshipKind
  /-- What is written at the source: a number or a role. -/
  sourceLabel : Option Text := none
  /-- What is written at the target. -/
  targetLabel : Option Text := none
  deriving DecidableEq, Repr

/-- A class diagram. -/
abbrev Diagram := Graph Class Relationship

namespace Diagram

/-- A diagram without types.  Type names regard case. -/
def empty (title : Text) : Diagram := { title }

/-- The type that a name stands for, and whether it had to be made: then a stub of the given kind
is added. -/
def resolveOrStub (diagram : Diagram) (name : Text) (kind : Kind) : (Nat × Bool) × Diagram :=
  let ((node, created), registry) := diagram.registry.resolveOrStub name fun _ => diagram.nextNode
  if created then
    ((node, true),
      { diagram.create (.stub name kind) with members := diagram.members ++ [node], registry })
  else ((node, false), diagram)

/-- A relationship in a listing. -/
def edgeText (diagram : Diagram) (edge : Edge Relationship) : String :=
  (diagram.nameOf edge.source).string ++ " --[" ++ edge.label.kind.word ++ "]--> " ++
    (diagram.nameOf edge.target).string

/-- A relationship in a message. -/
def edgeSummary (diagram : Diagram) (edge : Edge Relationship) : String :=
  "UMLRelationship(" ++ (diagram.nameOf edge.source).string ++ " -> " ++
    (diagram.nameOf edge.target).string ++ ", type=" ++ edge.label.kind.capitals ++ ")"

/-- A diagram in a message. -/
def summary (diagram : Diagram) : String :=
  "UMLDiagram(classes=" ++ toString diagram.members.length ++ ", relationships=" ++
    toString diagram.edges.length ++ ")"

end Diagram

end Diagrams.Uml
