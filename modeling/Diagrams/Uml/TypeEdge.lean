/-
Relationships that follow from declarations: supertypes and interfaces, and fields whose type is
in the diagram.

A type may be named before it is declared, or may not be declared at all; then a stub stands for
it.  Supertypes are resolved before interfaces, so a name that occurs in both roles gets the stub
of a supertype.
-/
import Diagrams.Uml.CommonType
import Diagrams.Uml.Diagram

namespace Diagrams.Uml

/-- A supertype or interface that a declaration names. -/
structure TypeEdge where
  /-- The declared type. -/
  source : Text
  /-- The type that it names. -/
  target : Text
  deriving DecidableEq, Repr

/-- The role of the type that a declaration names. -/
inductive Role
  | supertype
  | interface
  deriving DecidableEq, Repr

/-- The kind of relationship that a role gives rise to. -/
def Role.relationshipKind : Role → RelationshipKind
  | supertype => .inheritance
  | interface => .implementation

/-- The kind of the stub for a type in a role. -/
def Role.stubKind : Role → Kind
  | supertype => .ordinary
  | interface => .interface

/-- A stub that was added for a type. -/
structure StubNote where
  /-- The declared type that names it. -/
  source : Text
  /-- The name of the stub. -/
  name : Text
  /-- The kind of the stub. -/
  kind : Kind
  deriving DecidableEq, Repr

namespace Diagram

/-- Add the relationship that a declaration gives rise to, with a stub where the type that it
names is missing.  Nothing happens if the declared type itself is missing. -/
def resolveEdge (role : Role) (state : Diagram × List StubNote) (edge : TypeEdge) :
    Diagram × List StubNote :=
  let (diagram, stubs) := state
  match diagram.lookup? edge.source with
  | none => state
  | some source =>
    let ((target, created), resolved) := diagram.resolveOrStub edge.target role.stubKind
    (resolved.connect { source, target, label := { kind := role.relationshipKind } },
      if created then stubs ++ [⟨edge.source, edge.target, role.stubKind⟩] else stubs)

/-- Add the relationships for all supertypes and then for all interfaces; the second result lists
the stubs in the order in which they were added. -/
def resolveTypeEdges (diagram : Diagram) (supertypes interfaces : List TypeEdge) :
    Diagram × List StubNote :=
  interfaces.foldl (resolveEdge .interface)
    (supertypes.foldl (resolveEdge .supertype) (diagram, []))

/-- The composition that a field gives rise to when its type is in the diagram and no common
one. -/
def compositionOf? (diagram : Diagram) (owner : Nat) (field : Field) :
    Option (Edge Relationship) :=
  if isCommonType field.type then none
  else (diagram.lookup? field.type).map fun target =>
    { source := owner, target
      label := { kind := .composition, targetLabel := some ['1'] } }

/-- The compositions that the fields of all types give rise to, in order. -/
def compositions (diagram : Diagram) : List (Edge Relationship) :=
  diagram.members.flatMap fun node =>
    ((diagram.node? node).map (·.fields)).getD [] |>.filterMap (diagram.compositionOf? node)

/-- The diagram with the compositions that its fields give rise to. -/
def inferCompositions (diagram : Diagram) : Diagram :=
  diagram.compositions.foldl Graph.connect diagram

end Diagram

end Diagrams.Uml
