/-
The names that a reader takes from a script have no blanks.

A name comes from one of two places: a pattern notes it as a run of word characters, or it is the
first word of an item of a list.  Putting away quotes and a schema adds no characters, so the names
in a draft, and in the table that it becomes, have no blanks either way.
-/
import Diagrams.Proofs.Pattern.Noted
import Diagrams.Proofs.Er.Leveled
import Diagrams.Proofs.Schema.Draft
import Diagrams.Proofs.Text.Cutting

namespace Diagrams.Schema

/-! ### Names in lists -/

theorem mem_of_mem_unquote {name : Text} {c : Char} (h : c ∈ unquote name) : c ∈ name := by
  unfold unquote at h
  dsimp only at h
  have hbare : ∀ d ∈ Text.strip isNameQuote name.trim, d ∈ name := fun d hd =>
    Text.mem_of_mem_strip (Text.mem_of_mem_strip hd)
  split at h
  · rename_i last hlast
    have hmem : c ∈ last := Text.mem_of_mem_strip h
    unfold Text.afterLast? at hlast
    split at hlast
    · obtain rfl := Option.some.inj hlast
      have hback := (List.takeWhile_sublist _).mem (List.mem_reverse.mp hmem)
      exact hbare c (List.mem_reverse.mp hback)
    · cases hlast
  · exact hbare c h

theorem unbroken_unquote {name : Text} (h : name.Unbroken) : (unquote name).Unbroken :=
  fun c hc => h c (mem_of_mem_unquote hc)

theorem unbroken_of_mem_words {text word : Text} (h : word ∈ text.words) : word.Unbroken :=
  Text.eq_false_of_mem_splitWhere (List.mem_filter.mp h).1

theorem unbroken_listedName (item : Text) : (listedName item).Unbroken := by
  refine unbroken_unquote ?_
  cases hword : (withoutArguments item.trim).words.head? with
  | none => exact List.forall_mem_nil _
  | some word => exact unbroken_of_mem_words (List.mem_of_mem_head? hword)

theorem unbroken_of_mem_identifierList {text name : Text} (h : name ∈ identifierList text) :
    name.Unbroken := by
  obtain ⟨item, -, rfl⟩ := List.mem_map.mp (List.mem_filter.mp h).1
  exact unbroken_listedName item

theorem unbroken_of_mem_foreignKeys {table columns target : Text} {targetColumns : Option Text}
    (htable : table.Unbroken) (htarget : target.Unbroken) {key : Er.ForeignKey}
    (h : key ∈ foreignKeys table columns target targetColumns) : key.Unbroken := by
  obtain ⟨⟨column, index⟩, hcolumn, rfl⟩ := List.mem_map.mp h
  refine ⟨htable, ?_, unbroken_unquote htarget, fun name hname => ?_⟩
  · exact unbroken_of_mem_identifierList (List.fst_mem_of_mem_zipIdx hcolumn)
  · exact unbroken_of_mem_identifierList (List.mem_of_getElem? hname)

/-! ### Noted names -/

namespace Grammar

open Pattern

/-- A pattern that notes nothing but word characters under the name. -/
abbrev NotesWord (slot : Slot) (p : Pattern Slot) : Prop := p.NotesOnly isWordChar slot

theorem notesWord_identifier (slot other : Slot) : NotesWord slot (identifier other) := by
  have hname : NotesWord slot (noted other name) :=
    ⟨fun _ => ⟨fun _ hc => hc, fun _ hc => hc⟩, trivial, trivial⟩
  exact ⟨.of_mayNote rfl, .of_mayNote rfl, hname, .of_mayNote rfl⟩

theorem notesWord_references : NotesWord .target references := by
  simp (disch := decide) [references, notesOnly_all, NotesOnly.of_mayNote, notesWord_identifier]

theorem notesWord_createTable : NotesWord .name createTable := by
  simp (disch := decide) [createTable, notesOnly_all, NotesOnly.of_mayNote, notesWord_identifier]

theorem notesWord_looseTable : NotesWord .name looseTable := by
  simp (disch := decide) [looseTable, notesOnly_all, NotesOnly.of_mayNote, notesWord_identifier]

theorem notesWord_alterTable : NotesWord .name alterTable := by
  simp (disch := decide) [alterTable, notesOnly_all, NotesOnly.of_mayNote, notesWord_identifier]

theorem notesWord_column : NotesWord .name column := by
  simp (disch := decide) [column, notesOnly_all, NotesOnly.of_mayNote, notesWord_identifier]

theorem notesWord_looseColumn : NotesWord .name looseColumn := by
  simp (disch := decide) [looseColumn, notesOnly_all, NotesOnly.of_mayNote, notesWord_identifier]

theorem notesWord_foreignKeyPart : NotesWord .target foreignKeyPart := by
  simp (disch := decide) [foreignKeyPart, notesOnly_all, NotesOnly.of_mayNote, notesWord_references]

theorem notesWord_inlineReferences : NotesWord .target inlineReferences := by
  simp (disch := decide) [inlineReferences, notesOnly_all, NotesOnly.of_mayNote,
    notesWord_references]

theorem notesWord_foreignKeyAnywhere : NotesWord .target foreignKeyAnywhere := by
  simp (disch := decide) [foreignKeyAnywhere, notesOnly_all, NotesOnly.of_mayNote,
    notesWord_references]

theorem notesWord_addForeignKey : NotesWord .target addForeignKey :=
  ⟨.of_mayNote (by decide), notesWord_foreignKeyAnywhere⟩

namespace NotesWord

variable {slot : Slot} {p : Pattern Slot} {text : Text} {found : Match Slot}

theorem unbroken {place : Place Slot} (h : NotesWord slot p) (hnotes : place.notes = [])
    (hfound : p.matchAt? place = some found) : (found.text slot).Unbroken :=
  fun c hc => isBlank_of_isWordChar (h.text hnotes hfound c hc)

theorem unbroken_matchStart? (h : NotesWord slot p) (hfound : p.matchStart? text = some found) :
    (found.text slot).Unbroken := unbroken h rfl hfound

theorem unbroken_find? (h : NotesWord slot p) (hfound : p.find? text = some found) :
    (found.text slot).Unbroken := by
  obtain ⟨place, hnotes, hmatch⟩ := exists_matchAt?_of_findFrom? hfound
  exact unbroken h hnotes hmatch

theorem unbroken_findAll (h : NotesWord slot p) (hfound : found ∈ p.findAll text) :
    (found.text slot).Unbroken := by
  obtain ⟨place, hnotes, hmatch⟩ := exists_matchAt?_of_mem_findAllFrom hfound
  exact unbroken h hnotes hmatch

end NotesWord

end Grammar

/-! ### Names in a draft -/

/-- The names in a draft have no blanks. -/
structure Draft.Unbroken (draft : Draft) : Prop where
  /-- The table. -/
  table : draft.table.Unbroken
  /-- Its columns. -/
  columns : ∀ name ∈ draft.columns.map Er.Column.name, Text.Unbroken name
  /-- The columns of the primary key. -/
  primaryKeys : ∀ name ∈ draft.primaryKeys, Text.Unbroken name
  /-- The foreign keys. -/
  foreignKeys : ∀ key ∈ draft.foreignKeys, key.Unbroken

namespace Draft.Unbroken

variable {draft : Draft} {found : Match Slot}

theorem start {table : Text} (h : table.Unbroken) : Draft.Unbroken { table } :=
  ⟨h, List.forall_mem_nil _, List.forall_mem_nil _, List.forall_mem_nil _⟩

theorem addPrimaryKey (h : draft.Unbroken) (found : Match Slot) :
    (draft.addPrimaryKey found).Unbroken := by
  refine ⟨h.table, h.columns, ?_, h.foreignKeys⟩
  rw [primaryKeys_addPrimaryKey]
  exact List.forall_mem_append.mpr ⟨h.primaryKeys, fun _ => unbroken_of_mem_identifierList⟩

theorem addForeignKeys (h : draft.Unbroken) (columns : Text)
    (htarget : (found.text .target).Unbroken) : (draft.addForeignKeys columns found).Unbroken := by
  refine ⟨h.table, h.columns, h.primaryKeys, ?_⟩
  rw [foreignKeys_addForeignKeys]
  exact List.forall_mem_append.mpr
    ⟨h.foreignKeys, fun _ => unbroken_of_mem_foreignKeys h.table htarget⟩

theorem addColumn (h : draft.Unbroken) (hname : (found.text .name).Unbroken) (options : Text) :
    (draft.addColumn found options).Unbroken := by
  refine ⟨?_, ?_, ?_, ?_⟩
  · rw [table_addColumn]
    exact h.table
  · rw [columns_addColumn, List.map_append]
    refine List.forall_mem_append.mpr ⟨h.columns, ?_⟩
    simpa [columnOf] using hname
  · rw [primaryKeys_addColumn]
    split
    · exact List.forall_mem_append.mpr ⟨h.primaryKeys, by simpa using hname⟩
    · exact h.primaryKeys
  · rw [foreignKeys_addColumn]
    cases hreference : Grammar.inlineReferences.find? options with
    | none => exact h.foreignKeys
    | some reference =>
        have htarget := Grammar.notesWord_inlineReferences.unbroken_find? hreference
        exact List.forall_mem_append.mpr
          ⟨h.foreignKeys, fun _ => unbroken_of_mem_foreignKeys h.table htarget⟩

/-- A definition whose names have no blanks. -/
theorem finish (h : draft.Unbroken) : draft.finish.entity.Unbroken := by
  have hentity : Er.Entity.Unbroken { name := draft.table, columns := draft.columns } :=
    ⟨h.table, h.columns⟩
  exact hentity.applyKeys draft.primaryKeys draft.foreignKeys

end Draft.Unbroken

/-- The names in a definition have no blanks. -/
structure Definition.Unbroken (definition : Definition) : Prop where
  /-- The table. -/
  entity : definition.entity.Unbroken
  /-- Its foreign keys. -/
  foreignKeys : ∀ key ∈ definition.foreignKeys, key.Unbroken

theorem Draft.Unbroken.definition {draft : Draft} (h : draft.Unbroken) : draft.finish.Unbroken :=
  ⟨h.finish, h.foreignKeys⟩

/-- Reading a part strictly adds no name with a blank in it. -/
theorem PartReading.unbroken {draft draft' : Draft} {part : Text}
    (h : PartReading draft part draft') (hdraft : draft.Unbroken) : draft'.Unbroken := by
  cases h with
  | primaryKey => exact hdraft.addPrimaryKey _
  | foreignKey _ foreign =>
      exact hdraft.addForeignKeys _ (Grammar.notesWord_foreignKeyPart.unbroken_matchStart? foreign)
  | constraint => exact hdraft
  | column _ _ _ column =>
      exact hdraft.addColumn (Grammar.notesWord_column.unbroken_matchStart? column) _

theorem unbroken_of_readTable {statement : Text} {definition : Definition}
    (h : readTable statement = .ok definition) : definition.Unbroken := by
  obtain ⟨header, list, after, draft, hheader, -, hparts, rfl⟩ := (readTable_eq_ok_iff ..).mp h
  have hstart : Draft.Unbroken { table := header.text .name } :=
    .start (Grammar.notesWord_createTable.unbroken_matchStart? hheader)
  exact Draft.Unbroken.definition
    (foldlM_readPart_induction (fun _ _ _ hdraft hpart => hpart.unbroken hdraft) hstart hparts)

/-! ### The permissive reading -/

/-- A permissive reading of a whole list adds no name with a blank in it. -/
theorem Draft.Unbroken.salvaged {start : Draft} (h : start.Unbroken) (statement : Text)
    (list : List Text) : (list.foldl salvagePart (salvageKeys statement start, [])).1.Unbroken := by
  refine foldl_salvagePart_induction list ?_ ?_
  · refine salvageKeys_induction (motive := Draft.Unbroken) statement h ?_ ?_
    · exact fun draft found _ hdraft => hdraft.addPrimaryKey found
    · intro draft found hfound hdraft
      exact hdraft.addForeignKeys _ (Grammar.notesWord_foreignKeyAnywhere.unbroken_findAll hfound)
  · intro draft part found hcolumn hdraft
    exact hdraft.addColumn (Grammar.notesWord_looseColumn.unbroken_matchStart? hcolumn) _

theorem unbroken_of_salvageTable {statement : Text} {salvage : Salvage}
    (h : salvageTable statement = some salvage) : salvage.definition.Unbroken := by
  obtain ⟨header, hheader, hdefinition⟩ := salvageTable_eq_some h
  have hstart : Draft.Unbroken { table := header.text .name } :=
    .start (Grammar.notesWord_looseTable.unbroken_find? hheader)
  rw [hdefinition]
  exact (hstart.salvaged statement (parts (looseList header.rest))).definition

end Diagrams.Schema
