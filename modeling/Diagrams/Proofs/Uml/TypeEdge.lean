/-
Making the relationships of types, one at a time.

Asking for the type of a name either finds one, and then nothing changes, or inserts a stub, and
then it is as if the stub had been declared.  So resolving an edge is at most one insertion and then
one connection, both between types that their names stand for.  Compositions come from the fields
alone and are all known before the first of them is made.
-/
import Diagrams.Uml.TypeEdge
import Diagrams.Proofs.Graph.Step

namespace Diagrams.Uml.Diagram

/-! ### Stubs -/

theorem resolveOrStub_of_known {diagram : Diagram} {name : Text} {node : Nat}
    (h : diagram.lookup? name = some node) (kind : Kind) :
    diagram.resolveOrStub name kind = ((node, false), diagram) := by
  have hget : diagram.registry.get? name = some node := h
  simp [resolveOrStub, Registry.resolveOrStub, hget]

/-- Where a name is free, asking for its type is showing a stub. -/
theorem resolveOrStub_of_free {diagram : Diagram} {name : Text}
    (h : diagram.lookup? name = none) (kind : Kind) :
    diagram.resolveOrStub name kind
      = ((diagram.nextNode, true), Graph.insert diagram (.stub name kind)) := by
  have hget : diagram.registry.get? name = none := h
  have hregistry := Graph.registry_insert diagram (Class.stub name kind)
  simp only [resolveOrStub, Registry.resolveOrStub, hget, if_true]
  have hname : Named.name (Class.stub name kind) = name := rfl
  rw [hname] at hregistry
  refine Prod.ext rfl ?_
  show _ = { Graph.insert diagram (.stub name kind) with
    registry := (Graph.insert diagram (.stub name kind)).registry }
  rw [hregistry]
  rfl

theorem consistent_resolveOrStub {diagram : Diagram} (h : Graph.Consistent diagram) (name : Text)
    (kind : Kind) : Graph.Consistent (diagram.resolveOrStub name kind).2 := by
  cases hlookup : diagram.lookup? name with
  | some node =>
      rw [resolveOrStub_of_known hlookup]
      exact h
  | none =>
      rw [resolveOrStub_of_free hlookup]
      exact h.insert _

/-- What was shown is still shown, and so is the type that was asked for. -/
theorem shown_resolveOrStub {diagram : Diagram} (h : Graph.Consistent diagram) (name : Text)
    (kind : Kind) :
    (∀ node ∈ diagram.members, node ∈ (diagram.resolveOrStub name kind).2.members) ∧
      (diagram.resolveOrStub name kind).1.1 ∈ (diagram.resolveOrStub name kind).2.members := by
  cases hlookup : diagram.lookup? name with
  | some node =>
      rw [resolveOrStub_of_known hlookup]
      exact ⟨fun _ hnode => hnode, (h.names.of_lookup? hlookup).1⟩
  | none =>
      rw [resolveOrStub_of_free hlookup]
      exact ⟨fun _ hnode => List.mem_append_left _ hnode, List.mem_append_right _ (by simp)⟩

/-! ### Edges between types -/

theorem resolveEdge_of_unknown {diagram : Diagram} {edge : TypeEdge}
    (h : diagram.lookup? edge.source = none) (role : Role) (stubs : List StubNote) :
    resolveEdge role (diagram, stubs) edge = (diagram, stubs) := by
  simp [resolveEdge, h]

theorem resolveEdge_of_known {diagram : Diagram} {edge : TypeEdge} {source : Nat}
    (h : diagram.lookup? edge.source = some source) (role : Role) (stubs : List StubNote) :
    (resolveEdge role (diagram, stubs) edge).1
      = Graph.connect (diagram.resolveOrStub edge.target role.stubKind).2
          { source, target := (diagram.resolveOrStub edge.target role.stubKind).1.1
            label := { kind := role.relationshipKind } } := by
  simp [resolveEdge, h]

theorem consistent_resolveEdge {state : Diagram × List StubNote} (h : Graph.Consistent state.1)
    (role : Role) (edge : TypeEdge) : Graph.Consistent (resolveEdge role state edge).1 := by
  obtain ⟨diagram, stubs⟩ := state
  cases hsource : diagram.lookup? edge.source with
  | none =>
      rw [resolveEdge_of_unknown hsource]
      exact h
  | some source =>
      rw [resolveEdge_of_known hsource]
      obtain ⟨hold, hnew⟩ := shown_resolveOrStub h edge.target role.stubKind
      refine (consistent_resolveOrStub h edge.target role.stubKind).connect ?_ hnew
      exact hold source (h.names.of_lookup? hsource).1

/-- What resolving one edge keeps of a diagram, resolving edges keeps. -/
theorem resolveTypeEdges_induction {motive : Diagram → Prop} {diagram : Diagram}
    (start : motive diagram)
    (step : ∀ role state edge, motive state.1 → motive (resolveEdge role state edge).1)
    (supertypes interfaces : List TypeEdge) :
    motive (diagram.resolveTypeEdges supertypes interfaces).1 := by
  have hsupertypes := List.foldlRecOn
    (motive := fun state : Diagram × List StubNote => motive state.1)
    supertypes (resolveEdge .supertype) (b := (diagram, [])) start fun state hstate edge _ =>
      step .supertype state edge hstate
  exact List.foldlRecOn (motive := fun state : Diagram × List StubNote => motive state.1)
    interfaces (resolveEdge .interface) hsupertypes fun state hstate edge _ =>
      step .interface state edge hstate

theorem consistent_resolveTypeEdges {diagram : Diagram} (h : Graph.Consistent diagram)
    (supertypes interfaces : List TypeEdge) :
    Graph.Consistent (diagram.resolveTypeEdges supertypes interfaces).1 := by
  refine resolveTypeEdges_induction (motive := Graph.Consistent) h ?_ supertypes interfaces
  exact fun role _ edge hstate => consistent_resolveEdge hstate role edge

/-! ### Compositions -/

theorem compositionOf?_eq_some_iff (diagram : Diagram) (owner : Nat) (field : Field)
    (edge : Edge Relationship) :
    diagram.compositionOf? owner field = some edge ↔
      isCommonType field.type = false ∧ ∃ target, diagram.lookup? field.type = some target ∧
        edge = { source := owner, target
                 label := { kind := .composition, targetLabel := some ['1'] } } := by
  unfold compositionOf?
  cases isCommonType field.type with
  | true => simp
  | false =>
      simp only [Bool.false_eq_true, if_false, Option.map_eq_some_iff, true_and]
      exact exists_congr fun target => and_congr_right fun _ => eq_comm

theorem mem_compositions (diagram : Diagram) (edge : Edge Relationship) :
    edge ∈ diagram.compositions ↔
      ∃ owner ∈ diagram.members, ∃ type, diagram.node? owner = some type ∧
        ∃ field ∈ type.fields, diagram.compositionOf? owner field = some edge := by
  unfold compositions
  rw [List.mem_flatMap]
  refine exists_congr fun owner => and_congr_right fun _ => ?_
  cases diagram.node? owner with
  | none => simp
  | some type => simp

theorem consistent_inferCompositions {diagram : Diagram} (h : Graph.Consistent diagram) :
    Graph.Consistent diagram.inferCompositions := by
  refine h.foldl_connect fun edge hedge => ?_
  obtain ⟨owner, howner, type, -, field, -, hfield⟩ := (mem_compositions ..).mp hedge
  obtain ⟨-, target, htarget, rfl⟩ := (compositionOf?_eq_some_iff ..).mp hfield
  exact ⟨howner, (h.names.of_lookup? htarget).1⟩

end Diagrams.Uml.Diagram
