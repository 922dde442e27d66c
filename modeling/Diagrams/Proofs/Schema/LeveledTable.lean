/-
Levelled table definitions.

Both readings of a definition do the same with a levelled statement: they match the same patterns in
the same stretches, so the draft they collect is the levelled draft.  Only at the end, when the key
columns are marked, are names compared; by then it matters that no name has a blank in it.
-/
import Diagrams.Proofs.Schema.BlindGrammar
import Diagrams.Proofs.Schema.UnbrokenNames

namespace Diagrams.Schema

/-- What goes on step by step on mapped items goes on where each step does. -/
theorem foldl_map_step {α β : Type} {step : β → α → β} {f : α → α} {image : β → β}
    (h : ∀ state item, step (image state) (f item) = image (step state item)) (items : List α)
    (state : β) : (items.map f).foldl step (image state) = image (items.foldl step state) := by
  induction items generalizing state with
  | nil => rfl
  | cons item items ih => rw [List.map_cons, List.foldl_cons, List.foldl_cons, h, ih]

/-! ### Levelled drafts -/

/-- The draft with its texts levelled. -/
def Draft.leveled (draft : Draft) : Draft where
  table := draft.table.map Diagrams.leveled
  columns := draft.columns.map Er.Column.leveled
  primaryKeys := draft.primaryKeys.map (List.map Diagrams.leveled)
  foreignKeys := draft.foreignKeys.map Er.ForeignKey.leveled

/-- The definition with its texts levelled. -/
def Definition.leveled (definition : Definition) : Definition where
  entity := definition.entity.leveled
  foreignKeys := definition.foreignKeys.map Er.ForeignKey.leveled

theorem foreignKeys_leveled (table columns target : Text) (targetColumns : Option Text) :
    foreignKeys (table.map leveled) (columns.map leveled) (target.map leveled)
        (targetColumns.map (List.map leveled))
      = (foreignKeys table columns target targetColumns).map Er.ForeignKey.leveled := by
  have hreferences : identifierList ((targetColumns.map (List.map leveled)).getD [])
      = (identifierList (targetColumns.getD [])).map (List.map leveled) := by
    rw [← identifierList_leveled]
    cases targetColumns <;> rfl
  unfold foreignKeys
  simp only [hreferences, identifierList_leveled, unquote_leveled, List.zipIdx_map, List.map_map]
  refine List.map_congr_left fun item _ => ?_
  simp [Er.ForeignKey.leveled]

attribute [ext] Draft

namespace Draft

variable (draft : Draft) (found : Match Slot)

theorem addPrimaryKey_leveled :
    draft.leveled.addPrimaryKey (found.map Diagrams.leveled)
      = (draft.addPrimaryKey found).leveled := by
  simp [addPrimaryKey, leveled, identifierList_leveled]

theorem addForeignKeys_leveled (columns : Text) :
    draft.leveled.addForeignKeys (columns.map Diagrams.leveled) (found.map Diagrams.leveled)
      = (draft.addForeignKeys columns found).leveled := by
  simp [addForeignKeys, leveled, foreignKeys_leveled]

theorem columnOf_leveled (options : Text) :
    columnOf (found.map Diagrams.leveled) (options.map Diagrams.leveled)
      = (columnOf found options).leveled := by
  simp [columnOf, Er.Column.leveled, normalizeType_leveled, Grammar.blind_notNull.occursIn]

theorem addColumn_leveled (options : Text) :
    draft.leveled.addColumn (found.map Diagrams.leveled) (options.map Diagrams.leveled)
      = (draft.addColumn found options).leveled := by
  ext1
  · simp [leveled]
  · simp [leveled, columnOf_leveled]
  · rw [primaryKeys_addColumn, Grammar.blind_inlinePrimaryKey.occursIn]
    simp only [leveled, primaryKeys_addColumn]
    split <;> simp
  · rw [foreignKeys_addColumn, Grammar.blind_inlineReferences.find?]
    simp only [leveled, foreignKeys_addColumn]
    cases Grammar.inlineReferences.find? options with
    | none => rfl
    | some reference => simp [foreignKeys_leveled]

theorem finish_leveled {draft : Draft} (h : draft.Unbroken) :
    draft.leveled.finish = draft.finish.leveled := by
  have hentity : Er.Entity.Unbroken { name := draft.table, columns := draft.columns } :=
    ⟨h.table, h.columns⟩
  have hmarked := hentity.applyKeys_leveled h.primaryKeys h.foreignKeys
  exact congrArg (Definition.mk · _) hmarked

end Draft

/-! ### The strict reading -/

/-- The error with its texts levelled. -/
def TableError.leveled : TableError → TableError
  | notATable => notATable
  | unbalanced table => unbalanced (table.map Diagrams.leveled)
  | emptyPart table => emptyPart (table.map Diagrams.leveled)
  | unreadablePart part table =>
    unreadablePart (part.map Diagrams.leveled) (table.map Diagrams.leveled)

/-- A part that is read into a draft is read into the levelled draft when it is levelled, and one
that is refused is refused for the same reason. -/
theorem readPart_leveled (draft : Draft) (part : Text) :
    readPart draft.leveled (part.map leveled)
      = ((readPart draft part).map Draft.leveled).mapError TableError.leveled := by
  have hprimary := Grammar.blind_primaryKeyPart.matchStart? part
  have hforeign := Grammar.blind_foreignKeyPart.matchStart? part
  have hother := Grammar.blind_otherConstraint.matchStart? part
  have hcolumn := Grammar.blind_column.matchStart? part
  unfold readPart
  rw [hprimary, hforeign, hother, hcolumn, List.isEmpty_map, Option.isSome_map]
  cases part.isEmpty with
  | true => rfl
  | false =>
  cases Grammar.primaryKeyPart.matchStart? part with
  | some found => exact congrArg Except.ok (draft.addPrimaryKey_leveled found)
  | none =>
  cases Grammar.foreignKeyPart.matchStart? part with
  | some found =>
      have hcolumns := draft.addForeignKeys_leveled found (found.text .columns)
      rw [← Match.text_map] at hcolumns
      exact congrArg Except.ok hcolumns
  | none =>
  cases (Grammar.otherConstraint.matchStart? part).isSome with
  | true => rfl
  | false =>
  cases Grammar.column.matchStart? part with
  | none => rfl
  | some found =>
      simp only [Option.map_some, Match.text_map found, isConstraintWord_leveled]
      cases isConstraintWord (found.text .name) with
      | true => rfl
      | false => exact congrArg Except.ok (draft.addColumn_leveled found (found.text .options))

theorem foldlM_readPart_leveled (draft : Draft) (parts : List Text) :
    (parts.map (List.map leveled)).foldlM readPart draft.leveled
      = ((parts.foldlM readPart draft).map Draft.leveled).mapError TableError.leveled := by
  induction parts generalizing draft with
  | nil => rfl
  | cons part parts ih =>
      rw [List.map_cons, List.foldlM_cons, List.foldlM_cons, readPart_leveled]
      cases readPart draft part with
      | error error => rfl
      | ok draft => exact ih draft

/-- **A levelled statement is read strictly where the statement is, into the levelled
definition.** -/
theorem readTable_leveled (statement : Text) :
    readTable (statement.map leveled)
      = ((readTable statement).map Definition.leveled).mapError TableError.leveled := by
  have hheader := Grammar.blind_createTable.matchStart? statement
  unfold readTable
  rw [hheader]
  cases hname : Grammar.createTable.matchStart? statement with
  | none => rfl
  | some header =>
      have hbracket : leveled '(' = '(' := leveled_sign '(' (by decide)
      have hbody : Brackets.round.body? ('(' :: (header.map leveled).rest)
          = (Brackets.round.body? ('(' :: header.rest)).map fun body =>
            (body.1.map leveled, body.2.map leveled) := by
        rw [← Brackets.body?_leveled, List.map_cons, hbracket]
        rfl
      simp only [Option.map_some, Match.text_map, hbody]
      cases Brackets.round.body? ('(' :: header.rest) with
      | none => rfl
      | some body =>
          let start : Draft := { table := header.text .name }
          have hstart : start.Unbroken :=
            .start (Grammar.notesWord_createTable.unbroken_matchStart? hname)
          have hparts := foldlM_readPart_leveled start (parts body.1)
          rw [← parts_leveled] at hparts
          show ((parts (body.1.map leveled)).foldlM readPart start.leveled).map Draft.finish
            = ((((parts body.1).foldlM readPart start).map Draft.finish).map
              Definition.leveled).mapError TableError.leveled
          rw [hparts]
          cases hread : (parts body.1).foldlM readPart start with
          | error error => rfl
          | ok draft =>
              have hdraft : draft.Unbroken :=
                foldlM_readPart_induction (fun _ _ _ h hpart => hpart.unbroken h) hstart hread
              exact congrArg Except.ok (Draft.finish_leveled hdraft)

/-! ### The permissive reading -/

/-- What was made out of the levelled statement. -/
def Salvage.leveled (salvage : Salvage) : Salvage where
  definition := salvage.definition.leveled
  unreadable := salvage.unreadable.map (List.map Diagrams.leveled)

theorem looseList_leveled (afterName : Text) :
    looseList (afterName.map leveled) = (looseList afterName).map leveled := by
  have hopening : (afterName.map leveled).dropWhile (· != '(')
      = (afterName.dropWhile (· != '(')).map leveled :=
    Text.dropWhile_map (fun c => congrArg not (leveled_beq '(' (by decide) c)) afterName
  unfold looseList
  rw [hopening]
  cases afterName.dropWhile (· != '(') with
  | nil => rfl
  | cons opening rest =>
      have hbody := Brackets.body?_leveled (opening :: rest)
      rw [List.map_cons] at hbody ⊢
      simp only [hbody]
      cases Brackets.round.body? (opening :: rest) with
      | some body => rfl
      | none =>
          have hend : Text.dropEnd isBlank (rest.map leveled)
              = (Text.dropEnd isBlank rest).map leveled :=
            Text.dropEnd_map isBlank_leveled rest
          simp only [Option.map_none, hend]
          exact Text.dropEnd_map (leveled_beq ';' (by decide)) (Text.dropEnd isBlank rest)

/-- The state of a permissive reading with its texts levelled. -/
def leveledState (state : Draft × List Text) : Draft × List Text :=
  (state.1.leveled, state.2.map (List.map leveled))

theorem salvagePart_leveled (state : Draft × List Text) (part : Text) :
    salvagePart (leveledState state) (part.map leveled)
      = leveledState (salvagePart state part) := by
  obtain ⟨draft, unreadable⟩ := state
  have hword : isConstraintWord ((Text.words (part.map leveled)).head?.getD [])
      = isConstraintWord (part.words.head?.getD []) := by
    rw [Text.words_map isBlank_leveled, List.head?_map]
    cases part.words.head? with
    | none => rfl
    | some word => exact isConstraintWord_leveled word
  have hother := Grammar.blind_otherConstraint.matchStart? part
  have hcolumn := Grammar.blind_looseColumn.matchStart? part
  simp only [leveledState, salvagePart]
  rw [hword, hother, hcolumn, Option.isSome_map]
  cases isConstraintWord (part.words.head?.getD []) ||
      (Grammar.otherConstraint.matchStart? part).isSome with
  | true => rfl
  | false =>
  cases Grammar.looseColumn.matchStart? part with
  | none => simp
  | some found => simp [draft.addColumn_leveled]

theorem salvageKeys_leveled (statement : Text) (start : Draft) :
    salvageKeys (statement.map leveled) start.leveled = (salvageKeys statement start).leveled := by
  have hprimary := foldl_map_step Draft.addPrimaryKey_leveled
    (Grammar.primaryKeyAnywhere.findAll statement) start
  unfold salvageKeys
  rw [Grammar.blind_primaryKeyAnywhere.findAll, Grammar.blind_foreignKeyAnywhere.findAll, hprimary]
  refine foldl_map_step (fun draft found => ?_) _ _
  rw [Match.text_map]
  exact draft.addForeignKeys_leveled found (found.text .columns)

/-- **What is made out of a statement is made out of the levelled statement.** -/
theorem salvageTable_leveled (statement : Text) :
    salvageTable (statement.map leveled) = (salvageTable statement).map Salvage.leveled := by
  have hheader := Grammar.blind_looseTable.find? statement
  unfold salvageTable
  rw [hheader, Option.map_map, Option.map_map]
  refine Option.map_congr fun header hname => ?_
  let start : Draft := { table := header.text .name }
  let state := (parts (looseList header.rest)).foldl salvagePart (salvageKeys statement start, [])
  have hstart : start.Unbroken := .start (Grammar.notesWord_looseTable.unbroken_find? hname)
  have hstate : (parts (looseList (header.map leveled).rest)).foldl salvagePart
      (salvageKeys (statement.map leveled) start.leveled, []) = leveledState state := by
    rw [Match.rest_map, looseList_leveled, parts_leveled, salvageKeys_leveled]
    exact foldl_map_step salvagePart_leveled _ (salvageKeys statement start, [])
  have hunbroken : state.1.Unbroken := hstart.salvaged statement _
  have hname' : (header.map leveled).text .name = (header.text .name).map leveled :=
    header.text_map .name
  simp only [Function.comp_apply, hname']
  change (fun result : Draft × List Text => Salvage.mk result.1.finish result.2)
      ((parts (looseList (header.map leveled).rest)).foldl salvagePart
        (salvageKeys (statement.map leveled) start.leveled, []))
    = Salvage.leveled ⟨state.1.finish, state.2⟩
  rw [hstate]
  exact congrArg (Salvage.mk · _) (Draft.finish_leveled hunbroken)

end Diagrams.Schema
