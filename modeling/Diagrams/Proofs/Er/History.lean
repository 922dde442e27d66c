/-
Histories of entity-relationship diagrams.

A diagram is changed in the ways that all diagrams are, and in two ways of its own: foreign keys are
resolved, and the tables are placed.  The first connects tables that names stand for, which are
shown ones, and the second renames nothing.  So no history that starts with an empty diagram leads
to a name that stands for the wrong table, or to a relationship without one of its tables.
-/
import Mathlib.Logic.Relation
import Diagrams.Er.Layout
import Diagrams.Proofs.Er.Coherent
import Diagrams.Proofs.Graph.Step

namespace Diagrams.Er.Diagram

/-- What can be done to an entity-relationship diagram. -/
inductive Step : Diagram → Diagram → Prop
  /-- What can be done to any diagram. -/
  | graph {diagram next : Diagram} (step : Graph.Step diagram next) : Step diagram next
  /-- Resolve foreign keys, whatever tables they name. -/
  | resolveForeignKeys (diagram : Diagram) (keys : List ForeignKey) :
      Step diagram (diagram.resolveForeignKeys keys)
  /-- Place the tables on a grid. -/
  | autoLayout (diagram : Diagram) (grid : Grid) : Step diagram (diagram.autoLayout grid)

/-- A relationship made for a foreign key joins shown tables. -/
theorem ends_of_mem_relationshipsOf {diagram : Diagram} (h : diagram.NamesLatest)
    {keys : List ForeignKey} {edge : Edge Relationship}
    (hedge : edge ∈ diagram.relationshipsOf keys) :
    edge.source ∈ diagram.members ∧ edge.target ∈ diagram.members := by
  obtain ⟨key, -, hkey⟩ := List.mem_filterMap.mp hedge
  obtain ⟨source, target, hsource, htarget, rfl⟩ := (relationshipOf?_eq_some_iff ..).mp hkey
  exact ⟨(h.of_lookup? hsource).1, (h.of_lookup? htarget).1⟩

theorem consistent_resolveForeignKeys {diagram : Diagram} (h : Graph.Consistent diagram)
    (keys : List ForeignKey) : Graph.Consistent (diagram.resolveForeignKeys keys) :=
  h.foldl_connect fun _ hedge => ends_of_mem_relationshipsOf h.names hedge

theorem consistent_autoLayout {diagram : Diagram} (h : Graph.Consistent diagram) (grid : Grid) :
    Graph.Consistent (diagram.autoLayout grid) := by
  unfold autoLayout
  refine List.foldlRecOn (motive := fun placed : Diagram => Graph.Consistent placed) _ _ h ?_
  exact fun placed hplaced cell _ => hplaced.modify fun _ _ _ => rfl

/-- What every step keeps: names and edges fit the shown tables, and case does not matter. -/
theorem consistent_step {diagram next : Diagram} (hstep : Step diagram next)
    (h : Graph.Consistent diagram ∧ ∀ name, diagram.registry.key name = name.lower) :
    Graph.Consistent next ∧ ∀ name, next.registry.key name = name.lower := by
  obtain ⟨hconsistent, hkey⟩ := h
  cases hstep with
  | graph step => exact ⟨hconsistent.step step, fun name => (step.key_eq name).trans (hkey name)⟩
  | resolveForeignKeys keys =>
      refine ⟨consistent_resolveForeignKeys hconsistent keys, fun name => ?_⟩
      unfold Diagram.resolveForeignKeys
      rw [Graph.foldl_connect]
      exact hkey name
  | autoLayout grid =>
      refine ⟨consistent_autoLayout hconsistent grid, fun name => ?_⟩
      rw [(sameTables_autoLayout diagram grid).registry]
      exact hkey name

/-- **Whatever is done to an empty diagram, in whatever order: a table name stands for the last
shown table of that name, case aside, and relationships join shown tables.** -/
theorem tables_faithful {title : Text} {diagram : Diagram}
    (h : Relation.ReflTransGen Step (.empty title) diagram) :
    Graph.Faithful Text.lower diagram := by
  have hkept : Graph.Consistent diagram ∧ ∀ name, diagram.registry.key name = name.lower := by
    induction h with
    | refl => exact ⟨Graph.Consistent.empty rfl rfl rfl, fun _ => rfl⟩
    | tail _ step ih => exact consistent_step step ih
  exact hkept.1.faithful hkept.2

/-- A table that is shown twice, on either side of another one of its name, and taken away once. -/
def shownTwice : Diagram :=
  ((((((Diagram.empty []).create { name := "Users".toList }).create
    { name := "USERS".toList }).add 0).add 1).add 0).remove 0

theorem tables_faithful_shownTwice :
    Relation.ReflTransGen Step (.empty []) shownTwice ∧ Graph.Faithful Text.lower shownTwice ∧
      shownTwice.members = [1, 0] ∧ shownTwice.lookup? "users".toList = some 0 := by
  have hsteps : Relation.ReflTransGen Step (.empty []) shownTwice :=
    .tail (.tail (.tail (.tail (.tail (.tail .refl (.graph (.create ..))) (.graph (.create ..)))
      (.graph (.add _ 0 (by decide)))) (.graph (.add _ 1 (by decide))))
      (.graph (.add _ 0 (by decide)))) (.graph (.remove ..))
  exact ⟨hsteps, tables_faithful hsteps, by decide, by decide⟩

end Diagrams.Er.Diagram
