/-
What the readings of a table definition do to its draft.

Both readings change a draft by three additions only: a primary key, foreign keys, a column.  What
each addition touches is said here once, field by field.  `PartReading` then says which addition a
part of the list calls for in the strict reading, with everything that was ruled out before, so that
no later proof opens `readPart` again.
-/
import Diagrams.Schema.Table
import Diagrams.Proofs.Er.Keys

namespace Diagrams.Schema

namespace Draft

variable (draft : Draft) (found : Match Slot) (columns options : Text)

@[simp] theorem table_addPrimaryKey : (draft.addPrimaryKey found).table = draft.table := rfl

@[simp] theorem columns_addPrimaryKey :
    (draft.addPrimaryKey found).columns = draft.columns := rfl

@[simp] theorem primaryKeys_addPrimaryKey : (draft.addPrimaryKey found).primaryKeys
    = draft.primaryKeys ++ identifierList (found.text .columns) := rfl

@[simp] theorem foreignKeys_addPrimaryKey :
    (draft.addPrimaryKey found).foreignKeys = draft.foreignKeys := rfl

@[simp] theorem table_addForeignKeys :
    (draft.addForeignKeys columns found).table = draft.table := rfl

@[simp] theorem columns_addForeignKeys :
    (draft.addForeignKeys columns found).columns = draft.columns := rfl

@[simp] theorem primaryKeys_addForeignKeys :
    (draft.addForeignKeys columns found).primaryKeys = draft.primaryKeys := rfl

@[simp] theorem foreignKeys_addForeignKeys : (draft.addForeignKeys columns found).foreignKeys
    = draft.foreignKeys ++ Schema.foreignKeys draft.table columns (found.text .target)
        (found.text? .targetColumns) := rfl

/-- The column that a match and the options after it declare. -/
def columnOf : Er.Column :=
  { name := found.text .name, type := normalizeType (found.text .type)
    isNullable := !Grammar.notNull.occursIn options }

@[simp] theorem table_addColumn : (draft.addColumn found options).table = draft.table := by
  cases h : Grammar.inlineReferences.find? options <;> simp [addColumn, h]

@[simp] theorem columns_addColumn : (draft.addColumn found options).columns
    = draft.columns ++ [columnOf found options] := by
  cases h : Grammar.inlineReferences.find? options <;> simp [addColumn, h, columnOf]

@[simp] theorem primaryKeys_addColumn : (draft.addColumn found options).primaryKeys
    = if Grammar.inlinePrimaryKey.occursIn options then draft.primaryKeys ++ [found.text .name]
      else draft.primaryKeys := by
  cases h : Grammar.inlineReferences.find? options <;> simp [addColumn, h]

@[simp] theorem foreignKeys_addColumn : (draft.addColumn found options).foreignKeys
    = match Grammar.inlineReferences.find? options with
      | some reference => draft.foreignKeys ++ Schema.foreignKeys draft.table (found.text .name)
          (reference.text .target) (reference.text? .targetColumns)
      | none => draft.foreignKeys := by
  cases h : Grammar.inlineReferences.find? options <;> simp [addColumn, h]

@[simp] theorem name_finish : draft.finish.entity.name = draft.table :=
  Er.Entity.name_applyKeys _ _ _

theorem map_name_finish : draft.finish.entity.columns.map Er.Column.name
    = draft.columns.map Er.Column.name :=
  Er.Entity.map_name_applyKeys _ _ _

@[simp] theorem foreignKeys_finish : draft.finish.foreignKeys = draft.foreignKeys := rfl

/-- No column of the draft has flags that disagree. -/
def FlagsAgree : Prop := ∀ column ∈ draft.columns, column.FlagsAgree

variable {draft}

theorem FlagsAgree.addColumn (h : draft.FlagsAgree) :
    (draft.addColumn found options).FlagsAgree := by
  intro column hcolumn
  rw [columns_addColumn] at hcolumn
  rcases List.mem_append.mp hcolumn with hold | hnew
  · exact h column hold
  · rw [List.mem_singleton.mp hnew]
    exact Er.Column.FlagsAgree.of_unmarked _ _ _

theorem FlagsAgree.finish (h : draft.FlagsAgree) : draft.finish.entity.FlagsAgree := by
  have hentity : Er.Entity.FlagsAgree { name := draft.table, columns := draft.columns } := h
  exact hentity.applyKeys draft.primaryKeys draft.foreignKeys

end Draft

/-! ### The strict reading of a part -/

/-- How a part is read strictly: what it matches, and what it was tried against before. -/
inductive PartReading (draft : Draft) (part : Text) : Draft → Prop
  | primaryKey {found : Match Slot}
      (primary : Grammar.primaryKeyPart.matchStart? part = some found) :
      PartReading draft part (draft.addPrimaryKey found)
  | foreignKey {found : Match Slot}
      (primary : Grammar.primaryKeyPart.matchStart? part = none)
      (foreign : Grammar.foreignKeyPart.matchStart? part = some found) :
      PartReading draft part (draft.addForeignKeys (found.text .columns) found)
  | constraint
      (primary : Grammar.primaryKeyPart.matchStart? part = none)
      (foreign : Grammar.foreignKeyPart.matchStart? part = none)
      (other : (Grammar.otherConstraint.matchStart? part).isSome = true) :
      PartReading draft part draft
  | column {found : Match Slot}
      (primary : Grammar.primaryKeyPart.matchStart? part = none)
      (foreign : Grammar.foreignKeyPart.matchStart? part = none)
      (other : (Grammar.otherConstraint.matchStart? part).isSome = false)
      (column : Grammar.column.matchStart? part = some found)
      (word : isConstraintWord (found.text .name) = false) :
      PartReading draft part (draft.addColumn found (found.text .options))

theorem readPart_eq_ok_iff (draft draft' : Draft) (part : Text) :
    readPart draft part = .ok draft' ↔ part ≠ [] ∧ PartReading draft part draft' := by
  constructor
  · intro h
    unfold readPart at h
    split at h
    · cases h
    · rename_i hpart
      refine ⟨by simpa using hpart, ?_⟩
      split at h
      · rename_i found primary
        cases h
        exact .primaryKey primary
      · rename_i primary
        split at h
        · rename_i found foreign
          cases h
          exact .foreignKey (Option.eq_none_iff_forall_ne_some.mpr primary) foreign
        · rename_i foreign
          have hprimary := Option.eq_none_iff_forall_ne_some.mpr primary
          have hforeign := Option.eq_none_iff_forall_ne_some.mpr foreign
          split at h
          · rename_i other
            cases h
            exact .constraint hprimary hforeign other
          · rename_i other
            split at h
            · rename_i found column
              split at h
              · cases h
              · rename_i word
                cases h
                exact .column hprimary hforeign (by simpa using other) column (by simpa using word)
            · cases h
  · rintro ⟨hpart, h⟩
    have hempty : part.isEmpty = false := by simpa using hpart
    unfold readPart
    cases h with
    | primaryKey primary => simp [hempty, primary]
    | foreignKey primary foreign => simp [hempty, primary, foreign]
    | constraint primary foreign other => simp [hempty, primary, foreign, other]
    | column primary foreign other column word =>
        simp [hempty, primary, foreign, other, column, word]

theorem foldlM_readPart_cons (draft draft' : Draft) (part : Text) (parts : List Text) :
    (part :: parts).foldlM readPart draft = .ok draft' ↔
      ∃ mid, readPart draft part = .ok mid ∧ parts.foldlM readPart mid = .ok draft' := by
  rw [List.foldlM_cons]
  cases readPart draft part with
  | error error => simp [bind, Except.bind]
  | ok mid => simp [bind, Except.bind]

/-- What reading one part keeps, reading a list of parts keeps. -/
theorem foldlM_readPart_induction {P : Draft → Prop}
    (hstep : ∀ draft part draft', P draft → PartReading draft part draft' → P draft')
    {parts : List Text} {draft draft' : Draft} (h : P draft)
    (hparts : parts.foldlM readPart draft = .ok draft') : P draft' := by
  induction parts generalizing draft with
  | nil =>
      obtain rfl : draft = draft' := by simpa [pure, Except.pure] using hparts
      exact h
  | cons part parts ih =>
      obtain ⟨mid, hpart, hrest⟩ := (foldlM_readPart_cons ..).mp hparts
      exact ih (hstep draft part mid h ((readPart_eq_ok_iff ..).mp hpart).2) hrest

/-- What a strict reading that succeeds goes through. -/
theorem readTable_eq_ok_iff (statement : Text) (definition : Definition) :
    readTable statement = .ok definition ↔
      ∃ header list after draft,
        Grammar.createTable.matchStart? statement = some header ∧
        Brackets.round.body? ('(' :: header.rest) = some (list, after) ∧
        (parts list).foldlM readPart { table := header.text .name } = .ok draft ∧
        definition = draft.finish := by
  constructor
  · intro h
    unfold readTable at h
    split at h
    · cases h
    · rename_i header hheader
      dsimp only at h
      split at h
      · cases h
      · rename_i list after hbody
        cases hparts : (parts list).foldlM readPart { table := header.text .name } with
        | error error => simp [hparts, Except.map] at h
        | ok draft =>
            rw [hparts] at h
            cases h
            exact ⟨header, list, after, draft, hheader, hbody, hparts, rfl⟩
  · rintro ⟨header, list, after, draft, hheader, hbody, hparts, rfl⟩
    simp [readTable, hheader, hbody, hparts, Except.map]

/-! ### Flags after a reading -/

theorem PartReading.flagsAgree {draft draft' : Draft} {part : Text}
    (h : PartReading draft part draft') (hflags : draft.FlagsAgree) : draft'.FlagsAgree := by
  cases h with
  | primaryKey | foreignKey | constraint => exact hflags
  | column => exact hflags.addColumn _ _

theorem flagsAgree_of_readTable {statement : Text} {definition : Definition}
    (h : readTable statement = .ok definition) : definition.entity.FlagsAgree := by
  obtain ⟨header, list, after, draft, -, -, hparts, rfl⟩ := (readTable_eq_ok_iff ..).mp h
  refine Draft.FlagsAgree.finish (foldlM_readPart_induction (P := Draft.FlagsAgree) ?_ ?_ hparts)
  · exact fun draft part draft' hflags hpart => hpart.flagsAgree hflags
  · exact fun column hcolumn => absurd hcolumn List.not_mem_nil

/-! ### What the permissive reading does to a draft -/

/-- Passing over the parts of a list permissively changes a draft by adding columns only. -/
theorem salvagePart_cases (state : Draft × List Text) (part : Text) :
    (salvagePart state part).1 = state.1 ∨
      ∃ found, Grammar.looseColumn.matchStart? part = some found ∧
        (salvagePart state part).1 = state.1.addColumn found found.rest := by
  obtain ⟨draft, unreadable⟩ := state
  simp only [salvagePart]
  split
  · exact .inl rfl
  · split
    · rename_i found hfound
      exact .inr ⟨found, hfound, rfl⟩
    · exact .inl rfl

/-- The draft of the permissive reading before it looks at the parts: the keys anywhere in the
statement. -/
def salvageKeys (statement : Text) (start : Draft) : Draft :=
  (Grammar.foreignKeyAnywhere.findAll statement).foldl
    (fun draft found => draft.addForeignKeys (found.text .columns) found)
    ((Grammar.primaryKeyAnywhere.findAll statement).foldl Draft.addPrimaryKey start)

section Induction

variable {motive : Draft → Prop} {start : Draft}

/-- What adding keys keeps, collecting the keys of a statement keeps. -/
theorem salvageKeys_induction (statement : Text) (hstart : motive start)
    (primary : ∀ draft, ∀ found ∈ Grammar.primaryKeyAnywhere.findAll statement,
      motive draft → motive (draft.addPrimaryKey found))
    (foreign : ∀ draft, ∀ found ∈ Grammar.foreignKeyAnywhere.findAll statement,
      motive draft → motive (draft.addForeignKeys (found.text .columns) found)) :
    motive (salvageKeys statement start) := by
  unfold salvageKeys
  refine List.foldlRecOn _ _ ?_ fun draft hdraft found hfound => foreign draft found hfound hdraft
  exact List.foldlRecOn _ _ hstart fun draft hdraft found hfound =>
    primary draft found hfound hdraft

/-- What adding a column keeps, passing over the parts of a list keeps. -/
theorem foldl_salvagePart_induction (list : List Text) {state : Draft × List Text}
    (hstate : motive state.1)
    (column : ∀ draft part found, Grammar.looseColumn.matchStart? part = some found →
      motive draft → motive (draft.addColumn found found.rest)) :
    motive (list.foldl salvagePart state).1 := by
  refine List.foldlRecOn (motive := fun state : Draft × List Text => motive state.1)
    list _ hstate ?_
  intro state hstate part _
  rcases salvagePart_cases state part with hsame | ⟨found, hfound, hadded⟩
  · rwa [hsame]
  · rw [hadded]
    exact column state.1 part found hfound hstate

end Induction

theorem salvageTable_eq_some {statement : Text} {salvage : Salvage}
    (h : salvageTable statement = some salvage) :
    ∃ header, Grammar.looseTable.find? statement = some header ∧
      salvage.definition = ((parts (looseList header.rest)).foldl salvagePart
        (salvageKeys statement { table := header.text .name }, [])).1.finish := by
  obtain ⟨header, hheader, rfl⟩ := Option.map_eq_some_iff.mp h
  exact ⟨header, hheader, rfl⟩

theorem flagsAgree_of_salvageTable {statement : Text} {salvage : Salvage}
    (h : salvageTable statement = some salvage) : salvage.definition.entity.FlagsAgree := by
  obtain ⟨header, -, hdefinition⟩ := salvageTable_eq_some h
  rw [hdefinition]
  refine Draft.FlagsAgree.finish (foldl_salvagePart_induction _ ?_ ?_)
  · -- The keys are collected first, and they touch no column.
    refine salvageKeys_induction (motive := Draft.FlagsAgree) statement ?_ ?_ ?_
    · exact fun column hcolumn => absurd hcolumn List.not_mem_nil
    · exact fun draft found _ hflags => hflags
    · exact fun draft found _ hflags => hflags
  · exact fun draft part found _ hflags => hflags.addColumn _ _

end Diagrams.Schema
