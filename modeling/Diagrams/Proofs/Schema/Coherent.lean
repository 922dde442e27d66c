/-
Every script is read into a coherent diagram.

While the statements of a script are read, the diagram has tables and no relationships.  `Sound` is
what each statement keeps, whichever way it is read: as a table, strictly or permissively, as a
change to a table, or not at all.  Relationships come after the last statement, so they are made
for the flags and names that the finished diagram shows.
-/
import Diagrams.Schema.Reading
import Diagrams.Proofs.Er.Coherent
import Diagrams.Proofs.Schema.Draft

namespace Diagrams.Schema

namespace Progress

/-- What holds between two statements of a script. -/
structure Sound (progress : Progress) : Prop where
  /-- Every name stands for the latest table of that name. -/
  names : progress.diagram.NamesLatest
  /-- Shown tables are in the pool. -/
  inPool : progress.diagram.InPool
  /-- No column has flags that disagree. -/
  flags : ∀ table ∈ progress.diagram.pool, table.FlagsAgree
  /-- There are no relationships yet. -/
  noEdges : progress.diagram.edges = []

theorem sound_start (title : Text) : Sound { diagram := .empty title } :=
  ⟨fun _ => rfl, ⟨by simp [Er.Diagram.empty], by simp [Er.Diagram.empty]⟩,
    by simp [Er.Diagram.empty], rfl⟩

theorem Sound.congr {progress other : Progress} (h : progress.Sound)
    (hsame : other.diagram = progress.diagram) : other.Sound := by
  obtain ⟨names, inPool, flags, noEdges⟩ := h
  constructor <;> rw [hsame] <;> assumption

theorem diagram_addTable (progress : Progress) (definition : Definition) :
    (progress.addTable definition).diagram = progress.diagram.insert definition.entity := rfl

theorem pending_addTable (progress : Progress) (definition : Definition) :
    (progress.addTable definition).pending = progress.pending ++ definition.foreignKeys := rfl

@[simp] theorem skipped_addTable (progress : Progress) (definition : Definition) :
    (progress.addTable definition).skipped = progress.skipped := by
  show (if _ then progress.report _ else progress).skipped = _
  split <;> rfl

theorem Sound.addTable {progress : Progress} (h : progress.Sound) {definition : Definition}
    (hflags : definition.entity.FlagsAgree) : (progress.addTable definition).Sound := by
  refine ⟨?_, ?_, ?_, ?_⟩
  · exact h.names.insert h.inPool definition.entity
  · exact h.inPool.insert definition.entity
  · intro table htable
    rcases List.mem_append.mp (show table ∈ progress.diagram.pool ++
      [definition.entity] from htable) with hold | hnew
    · exact h.flags table hold
    · exact List.mem_singleton.mp hnew ▸ hflags
  · exact h.noEdges

theorem Sound.modify {progress other : Progress} (h : progress.Sound) {node : Nat}
    {primaryKeys : List Text} {foreignKeys : List Er.ForeignKey}
    (hother : other.diagram
      = progress.diagram.modify node (·.applyKeys primaryKeys foreignKeys)) : other.Sound := by
  refine ⟨?_, ?_, ?_, ?_⟩ <;> rw [hother]
  · exact h.names.modify (fun table => table.name_applyKeys primaryKeys foreignKeys) node
  · exact h.inPool.modify node _
  · intro table htable
    obtain ⟨place, hplace⟩ := List.mem_iff_getElem?.mp htable
    change (progress.diagram.modify node _).node? place = some table at hplace
    rw [Graph.node?_modify] at hplace
    by_cases hsame : node = place
    · rw [if_pos hsame] at hplace
      obtain ⟨old, hold, rfl⟩ := Option.map_eq_some_iff.mp hplace
      exact (h.flags old (List.mem_of_getElem? hold)).applyKeys primaryKeys foreignKeys
    · rw [if_neg hsame] at hplace
      exact h.flags table (List.mem_of_getElem? hplace)
  · exact h.noEdges

theorem Sound.changeTable {progress : Progress} (h : progress.Sound) (table changes : Text) :
    (progress.changeTable table changes).Sound := by
  unfold Progress.changeTable
  split
  · exact h.congr rfl
  · exact h.modify rfl

theorem diagram_foldl_report {α : Type} (event : α → Event) (items : List α) (progress : Progress) :
    (items.foldl (fun p item => p.report (event item)) progress).diagram = progress.diagram := by
  induction items generalizing progress with
  | nil => rfl
  | cons item items ih => rw [List.foldl_cons, ih]; rfl

theorem Sound.defineTable {progress : Progress} (h : progress.Sound) (statement : Text) :
    (progress.defineTable statement).Sound := by
  unfold Progress.defineTable
  split
  · rename_i definition hread
    exact h.addTable (flagsAgree_of_readTable hread)
  · rename_i error _
    split
    · exact h.congr rfl
    · rename_i salvage hsalvage
      refine Sound.addTable ?_ (flagsAgree_of_salvageTable hsalvage)
      refine h.congr ?_
      rw [diagram_foldl_report]
      rfl

/-- Reading one statement keeps a diagram sound. -/
theorem Sound.readStatement {progress : Progress} (h : progress.Sound) (statement : Text) :
    (progress.readStatement statement).Sound := by
  unfold Progress.readStatement
  dsimp only
  split
  · exact h.changeTable _ _
  · exact h.defineTable _

end Progress

theorem sound_readStatements (script title : Text) : (readStatements script title).Sound :=
  List.foldlRecOn (motive := Progress.Sound) _ _ (Progress.sound_start title)
    fun _ hsound statement _ => hsound.readStatement statement

theorem Progress.Sound.coherent {progress : Progress} (h : progress.Sound) :
    Er.Diagram.Coherent progress.diagram := by
  refine ⟨?_, ?_⟩
  · intro node hnode
    have hlt := h.inPool.members node hnode
    exact ⟨_, List.getElem?_eq_getElem hlt, h.flags _ (List.getElem_mem hlt)⟩
  · intro number hnumber
    rw [h.noEdges] at hnumber
    exact absurd hnumber List.not_mem_nil

/-- **Whatever a script contains, the tables and relationships read from it agree.** -/
theorem coherent_read (script title : Text) (grid : Option Er.Grid) :
    Er.Diagram.Coherent (read script title grid).diagram := by
  have hsound := sound_readStatements script title
  have hconnected := hsound.coherent.resolveForeignKeys hsound.names
    (readStatements script title).pending
  cases grid with
  | none => exact hconnected
  | some grid => exact hconnected.autoLayout grid

end Diagrams.Schema
