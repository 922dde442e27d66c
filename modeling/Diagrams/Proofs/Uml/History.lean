/-
Histories of class diagrams.

Types come into a class diagram in two ways: they are shown like the nodes of any diagram, or a stub
is inserted for a name that stands for nothing.  Edges between types and compositions are made for
names.  None of this, and no order of it, lets the names and the shown types fall apart.  A stub is
therefore made exactly for the names that no shown type has, also if a stub of that name was there
before and was taken away.
-/
import Mathlib.Logic.Relation
import Diagrams.Proofs.Uml.TypeEdge

namespace Diagrams.Uml.Diagram

/-- What can be done to a class diagram. -/
inductive Step : Diagram → Diagram → Prop
  /-- What can be done to any diagram. -/
  | graph {diagram next : Diagram} (step : Graph.Step diagram next) : Step diagram next
  /-- Ask for the type of a name. -/
  | resolveOrStub (diagram : Diagram) (name : Text) (kind : Kind) :
      Step diagram (diagram.resolveOrStub name kind).2
  /-- Resolve edges, whatever types they name. -/
  | resolveTypeEdges (diagram : Diagram) (supertypes interfaces : List TypeEdge) :
      Step diagram (diagram.resolveTypeEdges supertypes interfaces).1
  /-- Add the compositions that fields give rise to. -/
  | inferCompositions (diagram : Diagram) : Step diagram diagram.inferCompositions

/-! ### Names regard case -/

theorem key_resolveOrStub (diagram : Diagram) (name : Text) (kind : Kind) (other : Text) :
    (diagram.resolveOrStub name kind).2.registry.key other = diagram.registry.key other := by
  cases hlookup : diagram.lookup? name with
  | some node => rw [resolveOrStub_of_known hlookup]
  | none =>
      rw [resolveOrStub_of_free hlookup]
      rfl

theorem key_resolveEdge (role : Role) (state : Diagram × List StubNote) (edge : TypeEdge)
    (other : Text) :
    (resolveEdge role state edge).1.registry.key other = state.1.registry.key other := by
  obtain ⟨diagram, stubs⟩ := state
  cases hsource : diagram.lookup? edge.source with
  | none => rw [resolveEdge_of_unknown hsource]
  | some source =>
      rw [resolveEdge_of_known hsource]
      exact key_resolveOrStub diagram edge.target role.stubKind other

theorem key_resolveTypeEdges (diagram : Diagram) (supertypes interfaces : List TypeEdge)
    (other : Text) :
    (diagram.resolveTypeEdges supertypes interfaces).1.registry.key other
      = diagram.registry.key other := by
  refine resolveTypeEdges_induction
    (motive := fun next => next.registry.key other = diagram.registry.key other) rfl ?_ _ _
  exact fun role state edge hstate => (key_resolveEdge role state edge other).trans hstate

/-- What every step keeps: names and edges fit the shown types, and case matters. -/
theorem consistent_step {diagram next : Diagram} (hstep : Step diagram next)
    (h : Graph.Consistent diagram ∧ ∀ name, diagram.registry.key name = name) :
    Graph.Consistent next ∧ ∀ name, next.registry.key name = name := by
  obtain ⟨hconsistent, hkey⟩ := h
  cases hstep with
  | graph step => exact ⟨hconsistent.step step, fun name => (step.key_eq name).trans (hkey name)⟩
  | resolveOrStub name kind =>
      exact ⟨consistent_resolveOrStub hconsistent name kind,
        fun other => (key_resolveOrStub diagram name kind other).trans (hkey other)⟩
  | resolveTypeEdges supertypes interfaces =>
      exact ⟨consistent_resolveTypeEdges hconsistent supertypes interfaces,
        fun other => (key_resolveTypeEdges diagram supertypes interfaces other).trans (hkey other)⟩
  | inferCompositions =>
      refine ⟨consistent_inferCompositions hconsistent, fun name => ?_⟩
      unfold Diagram.inferCompositions
      rw [Graph.foldl_connect]
      exact hkey name

/-! ### Asking for a type -/

/-- What asking for the type of a name does, told by the shown types alone: it makes a stub exactly
where no shown type has the name. -/
structure Resolves (diagram : Diagram) (name : Text) (kind : Kind) : Prop where
  /-- A stub is made where no shown type has the name. -/
  created : (diagram.resolveOrStub name kind).1.2 = true ↔
    ∀ node ∈ diagram.members, diagram.nameOf node ≠ name
  /-- Then the new stub, and nothing else, is shown behind all other types. -/
  appends : (diagram.resolveOrStub name kind).1.2 = true →
    ∃ stub, (diagram.resolveOrStub name kind).1.1 = stub ∧ stub ∉ diagram.members ∧
      (diagram.resolveOrStub name kind).2.members = diagram.members ++ [stub] ∧
      (diagram.resolveOrStub name kind).2.node? stub = some (.stub name kind) ∧
      (∀ node ∈ diagram.members,
        (diagram.resolveOrStub name kind).2.node? node = diagram.node? node) ∧
      (diagram.resolveOrStub name kind).2.shownEdges = diagram.shownEdges
  /-- Otherwise nothing changes, and the answer is the type that the name stands for. -/
  finds : (diagram.resolveOrStub name kind).1.2 = false →
    (diagram.resolveOrStub name kind).2 = diagram ∧
      diagram.lookup? name = some (diagram.resolveOrStub name kind).1.1

theorem resolves_of_faithful {diagram : Diagram} (h : Graph.Faithful id diagram) (name : Text)
    (kind : Kind) : diagram.Resolves name kind := by
  have hfree : diagram.lookup? name = none ↔
      ∀ node ∈ diagram.members, diagram.nameOf node ≠ name := h.unknown name
  cases hlookup : diagram.lookup? name with
  | some node =>
      have hresolve := resolveOrStub_of_known hlookup kind
      refine ⟨?_, ?_, ?_⟩ <;> rw [hresolve]
      · rw [← hfree, hlookup]
        simp
      · exact fun hcreated => Bool.noConfusion hcreated
      · exact fun _ => ⟨rfl, hlookup⟩
  | none =>
      have hresolve := resolveOrStub_of_free hlookup kind
      have hlt : ∀ node ∈ diagram.members, node < diagram.nextNode := by
        intro node hnode
        obtain ⟨made, hmade⟩ := h.made node hnode
        exact (List.getElem?_eq_some_iff.mp hmade).1
      refine ⟨?_, ?_, ?_⟩ <;> rw [hresolve]
      · exact ⟨fun _ => hfree.mp hlookup, fun _ => rfl⟩
      · intro _
        refine ⟨diagram.nextNode, rfl, fun hshown => (hlt _ hshown).false, rfl, ?_, ?_, rfl⟩
        · exact Graph.node?_create_nextNode diagram _
        · exact fun node hnode => Graph.node?_create_of_lt (hlt node hnode) _
      · exact fun hcreated => Bool.noConfusion hcreated

/-- **Whatever is done to an empty diagram, in whatever order: a type name stands for the last shown
type of exactly that name, relationships join shown types, and asking for a type makes a stub
exactly where no shown type has the name.** -/
theorem types_faithful {title : Text} {diagram : Diagram}
    (h : Relation.ReflTransGen Step (.empty title) diagram) :
    Graph.Faithful id diagram ∧ ∀ name kind, diagram.Resolves name kind := by
  have hkept : Graph.Consistent diagram ∧ ∀ name, diagram.registry.key name = name := by
    induction h with
    | refl => exact ⟨Graph.Consistent.empty rfl rfl rfl, fun _ => rfl⟩
    | tail _ step ih => exact consistent_step step ih
  have hfaithful : Graph.Faithful id diagram := hkept.1.faithful hkept.2
  exact ⟨hfaithful, resolves_of_faithful hfaithful⟩

/-- A stub that was taken away, made again for an edge, and then shadowed by a declared type. -/
def shadowedStub : Diagram :=
  let withoutStub := Graph.remove ((Diagram.empty []).resolveOrStub "Shape".toList .ordinary).2 0
  let withCircle := (withoutStub.create { name := "Circle".toList }).add 1
  let resolved := Diagram.resolveTypeEdges withCircle [⟨"Circle".toList, "Shape".toList⟩] []
  (Graph.create resolved.1 { name := "Shape".toList }).add 3

theorem types_faithful_shadowedStub :
    Relation.ReflTransGen Step (.empty []) shadowedStub ∧
      (Graph.Faithful id shadowedStub ∧ ∀ name kind, shadowedStub.Resolves name kind) ∧
      shadowedStub.members = [1, 2, 3] ∧ shadowedStub.lookup? "Shape".toList = some 3 := by
  have hsteps : Relation.ReflTransGen Step (.empty []) shadowedStub :=
    .tail (.tail (.tail (.tail (.tail (.tail (.tail .refl (.resolveOrStub ..))
      (.graph (.remove ..))) (.graph (.create ..))) (.graph (.add _ 1 (by decide))))
      (.resolveTypeEdges ..)) (.graph (.create ..))) (.graph (.add _ 3 (by decide)))
  exact ⟨hsteps, types_faithful hsteps, by decide, by decide⟩

end Diagrams.Uml.Diagram
