/-
Reading a script does not regard case or the kind of blanks.

The script and the levelled script are read side by side.  `Mirrors` is what every statement keeps:
the second reading has come to the levelled diagram of the first, with the levelled foreign keys
waiting, and no name in either has a blank in it.  The two readings take the same branch at every
statement, because the patterns are blind to levelling and names are looked up by their lower case.
-/
import Diagrams.Proofs.Schema.Effect
import Diagrams.Proofs.Schema.LeveledTable

namespace Diagrams.Schema

/-! ### Added keys -/

theorem addedPrimaryKeys_leveled (changes : Text) :
    addedPrimaryKeys (changes.map leveled)
      = (addedPrimaryKeys changes).map (List.map leveled) := by
  unfold addedPrimaryKeys
  rw [Grammar.blind_addPrimaryKey.findAll, List.flatMap_map, List.map_flatMap]
  simp only [Match.text_map, identifierList_leveled]

theorem addedForeignKeys_leveled (table changes : Text) :
    addedForeignKeys (table.map leveled) (changes.map leveled)
      = (addedForeignKeys table changes).map Er.ForeignKey.leveled := by
  unfold addedForeignKeys
  rw [Grammar.blind_addForeignKey.findAll, List.flatMap_map, List.map_flatMap]
  simp only [Match.text_map, Match.text?_map, foreignKeys_leveled]

theorem unbroken_of_mem_addedPrimaryKeys {changes name : Text}
    (h : name ∈ addedPrimaryKeys changes) :
    name.Unbroken := by
  obtain ⟨found, -, hname⟩ := List.mem_flatMap.mp h
  exact unbroken_of_mem_identifierList hname

theorem unbroken_of_mem_addedForeignKeys {table changes : Text} (htable : table.Unbroken)
    {key : Er.ForeignKey} (h : key ∈ addedForeignKeys table changes) : key.Unbroken := by
  obtain ⟨found, hfound, hkey⟩ := List.mem_flatMap.mp h
  exact unbroken_of_mem_foreignKeys htable
    (Grammar.notesWord_addForeignKey.unbroken_findAll hfound) hkey

/-! ### Two readings side by side -/

namespace Progress

/-- The second reading is the first with all names and types levelled. -/
structure Mirrors (progress image : Progress) : Prop where
  /-- The diagram is levelled. -/
  diagram : image.diagram = Er.Diagram.leveled progress.diagram
  /-- The keys that wait are levelled. -/
  pending : image.pending = progress.pending.map Er.ForeignKey.leveled
  /-- The names in the diagram have no blanks. -/
  unbroken : Er.Diagram.Unbroken progress.diagram
  /-- The names in the keys that wait have no blanks. -/
  keys : ∀ key ∈ progress.pending, key.Unbroken

namespace Mirrors

variable {progress image : Progress}

theorem start (title : Text) :
    Mirrors { diagram := .empty title } { diagram := .empty title } :=
  ⟨rfl, rfl, ⟨rfl, List.forall_mem_nil _⟩, List.forall_mem_nil _⟩

theorem report (h : progress.Mirrors image) (event event' : Event) :
    (progress.report event).Mirrors (image.report event') :=
  ⟨h.diagram, h.pending, h.unbroken, h.keys⟩

theorem skip (h : progress.Mirrors image) (event event' : Event) :
    (progress.skip event).Mirrors (image.skip event') :=
  ⟨h.diagram, h.pending, h.unbroken, h.keys⟩

theorem addTable (h : progress.Mirrors image) {definition : Definition}
    (hdefinition : definition.Unbroken) :
    (progress.addTable definition).Mirrors (image.addTable definition.leveled) := by
  refine ⟨?_, ?_, ?_, ?_⟩
  · show image.diagram.insert definition.entity.leveled = _
    rw [h.diagram]
    exact Er.Diagram.insert_leveled h.unbroken hdefinition.entity
  · show image.pending ++ definition.foreignKeys.map Er.ForeignKey.leveled = _
    rw [h.pending, ← List.map_append]
    rfl
  · exact h.unbroken.insert hdefinition.entity
  · exact List.forall_mem_append.mpr ⟨h.keys, hdefinition.foreignKeys⟩

theorem changeTable (h : progress.Mirrors image) {table : Text} (htable : table.Unbroken)
    (changes : Text) :
    (progress.changeTable table changes).Mirrors
      (image.changeTable (table.map leveled) (changes.map leveled)) := by
  have hlookup : image.diagram.lookup? (table.map leveled) = progress.diagram.lookup? table := by
    rw [h.diagram]
    exact Er.Diagram.lookup?_leveled h.unbroken htable
  unfold Progress.changeTable
  rw [hlookup]
  cases progress.diagram.lookup? table with
  | none => exact h.skip _ _
  | some node =>
      have hnode : (progress.diagram.nameOf node).Unbroken := h.unbroken.nameOf node
      have hprimary : ∀ name ∈ addedPrimaryKeys changes, Text.Unbroken name :=
        fun _ => unbroken_of_mem_addedPrimaryKeys
      have hforeign : ∀ key ∈ addedForeignKeys (progress.diagram.nameOf node) changes,
          key.Unbroken :=
        fun _ => unbroken_of_mem_addedForeignKeys hnode
      have hname : image.diagram.nameOf node = (progress.diagram.nameOf node).map leveled := by
        rw [h.diagram]
        exact Er.Diagram.nameOf_leveled node
      have hkeys : addedForeignKeys (image.diagram.nameOf node) (changes.map leveled)
          = (addedForeignKeys (progress.diagram.nameOf node) changes).map
            Er.ForeignKey.leveled := by
        rw [hname, addedForeignKeys_leveled]
      refine ⟨?_, ?_, ?_, ?_⟩
      · show image.diagram.modify node (·.applyKeys (addedPrimaryKeys (changes.map leveled))
          (addedForeignKeys (image.diagram.nameOf node) (changes.map leveled))) = _
        rw [hkeys, addedPrimaryKeys_leveled, h.diagram]
        exact Er.Diagram.modify_leveled h.unbroken fun entity hentity =>
          hentity.applyKeys_leveled hprimary hforeign
      · show image.pending ++ addedForeignKeys (image.diagram.nameOf node) (changes.map leveled) = _
        rw [hkeys, h.pending, ← List.map_append]
        rfl
      · exact h.unbroken.modify fun entity hentity => hentity.applyKeys _ _
      · exact List.forall_mem_append.mpr ⟨h.keys, hforeign⟩

theorem defineTable (h : progress.Mirrors image) (statement : Text) :
    (progress.defineTable statement).Mirrors (image.defineTable (statement.map leveled)) := by
  unfold Progress.defineTable
  rw [readTable_leveled]
  cases hread : readTable statement with
  | ok definition => exact h.addTable (unbroken_of_readTable hread)
  | error error =>
      have hsalvaged := salvageTable_leveled statement
      simp only [Except.map, Except.mapError, hsalvaged]
      cases hsalvage : salvageTable statement with
      | none => exact (h.report _ _).skip _ _
      | some salvage =>
          refine Mirrors.addTable ?_ (unbroken_of_salvageTable hsalvage)
          rw [Salvage.leveled, List.foldl_map]
          exact List.foldl_rel (h.report _ _) fun part _ _ _ hreport => hreport.report _ _

/-- Reading a statement and the levelled statement keeps the second reading the levelled first. -/
theorem readStatement (h : progress.Mirrors image) (statement : Text) :
    (progress.readStatement statement).Mirrors (image.readStatement (statement.map leveled)) := by
  have hchange := Grammar.blind_alterTable.matchStart? (stripComments statement)
  unfold Progress.readStatement
  simp only [stripComments_leveled, hchange]
  cases hfound : Grammar.alterTable.matchStart? (stripComments statement) with
  | none => exact h.defineTable _
  | some change =>
      have hname := Grammar.notesWord_alterTable.unbroken_matchStart? hfound
      have hchanged := h.changeTable hname (change.text .options)
      simp only [Option.map_some, Match.text_map]
      exact hchanged

end Mirrors

end Progress

/-- After all statements the second reading is still the levelled first. -/
theorem mirrors_readStatements (script title : Text) :
    (readStatements script title).Mirrors (readStatements (script.map leveled) title) := by
  unfold readStatements
  rw [statements_leveled, List.foldl_map]
  exact List.foldl_rel (Progress.Mirrors.start title) fun statement _ _ _ h =>
    h.readStatement statement

/-- **A script is read without regard to case and to the kind of blanks.**  Where the Latin letters
of a script are put in capitals and every blank but the line feed is made a space, the same tables,
columns and relationships are read in the same order with the same flags, and only their names and
types are changed in the same way. -/
theorem diagram_read_leveled (script title : Text) :
    (read (script.map leveled) title none).diagram
      = Er.Diagram.leveled (read script title none).diagram := by
  have h := mirrors_readStatements script title
  show Er.Diagram.resolveForeignKeys (readStatements (script.map leveled) title).diagram
    (readStatements (script.map leveled) title).pending = _
  rw [h.diagram, h.pending]
  exact Er.Diagram.resolveForeignKeys_leveled h.unbroken h.keys

end Diagrams.Schema
