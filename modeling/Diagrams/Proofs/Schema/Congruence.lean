/-
Statements that are read alike.

What a reading takes over from a match is told here step by step: the keys that it adds, the column
with its options, the parts of a list one after the other, and in the end the table that a statement
declares.  So two texts declare the same table if they agree in each of these steps; the errors of
the strict reading and the parts that could not be read may differ.
-/
import Diagrams.Proofs.Pattern.Parting
import Diagrams.Proofs.Schema.Effect
import Diagrams.Proofs.Schema.Salvage

namespace Diagrams.Schema

open Pattern

variable {found found' : Match Slot} {parts parts' : List Text}

/-! ### Keys and columns -/

/-- Two matches that refer to the same columns of the same table. -/
def RefersAlike (found found' : Match Slot) : Prop :=
  ∀ table columns columns', identifierList columns = identifierList columns' →
    foreignKeys table columns (found.text .target) (found.text? .targetColumns)
      = foreignKeys table columns' (found'.text .target) (found'.text? .targetColumns)

theorem refersAlike_of_alike (h : Alike found found') : RefersAlike found found' := by
  intro table columns columns' hcolumns
  unfold foreignKeys
  rw [h.text .target, h .targetColumns, hcolumns]

theorem addPrimaryKey_congr (draft : Draft)
    (h : identifierList (found.text .columns) = identifierList (found'.text .columns)) :
    draft.addPrimaryKey found = draft.addPrimaryKey found' := by
  unfold Draft.addPrimaryKey
  rw [h]

theorem addForeignKeys_congr (draft : Draft) (h : RefersAlike found found')
    {columns columns' : Text} (hcolumns : identifierList columns = identifierList columns') :
    draft.addForeignKeys columns found = draft.addForeignKeys columns' found' := by
  unfold Draft.addForeignKeys
  rw [h draft.table columns columns' hcolumns]

theorem addColumn_congr (draft : Draft) {options options' : Text}
    (hname : found.text .name = found'.text .name)
    (htype : normalizeType (found.text .type) = normalizeType (found'.text .type))
    (hnull : Grammar.notNull.occursIn options = Grammar.notNull.occursIn options')
    (hprimary : Grammar.inlinePrimaryKey.occursIn options
      = Grammar.inlinePrimaryKey.occursIn options')
    (hreferences : Option.Rel RefersAlike (Grammar.inlineReferences.find? options)
      (Grammar.inlineReferences.find? options')) :
    draft.addColumn found options = draft.addColumn found' options' := by
  unfold Draft.addColumn
  rw [hname, htype, hnull, hprimary]
  generalize Grammar.inlineReferences.find? options = reference,
    Grammar.inlineReferences.find? options' = reference' at hreferences ⊢
  cases hreferences with
  | none => rfl
  | some hrefers => exact addForeignKeys_congr _ hrefers rfl

/-- Steps that belong together lead from one state to one state. -/
theorem foldl_eq_of_forall₂ {α β : Type} {R : α → α → Prop} {step : β → α → β}
    (hstep : ∀ state item item', R item item' → step state item = step state item')
    {items items' : List α} (h : List.Forall₂ R items items') (state : β) :
    items.foldl step state = items'.foldl step state := by
  induction h generalizing state with
  | nil => rfl
  | cons hitem _ ih => rw [List.foldl_cons, List.foldl_cons, hstep state _ _ hitem, ih]

/-- The keys anywhere in two statements. -/
theorem salvageKeys_congr {statement statement' : Text} (start : Draft)
    (hprimary : List.Forall₂ (fun found found' => identifierList (found.text .columns)
        = identifierList (found'.text .columns))
      (Grammar.primaryKeyAnywhere.findAll statement)
      (Grammar.primaryKeyAnywhere.findAll statement'))
    (hforeign : List.Forall₂ (fun found found' => identifierList (found.text .columns)
        = identifierList (found'.text .columns) ∧ RefersAlike found found')
      (Grammar.foreignKeyAnywhere.findAll statement)
      (Grammar.foreignKeyAnywhere.findAll statement')) :
    salvageKeys statement start = salvageKeys statement' start := by
  unfold salvageKeys
  have hkeys : (Grammar.primaryKeyAnywhere.findAll statement).foldl Draft.addPrimaryKey start
      = (Grammar.primaryKeyAnywhere.findAll statement').foldl Draft.addPrimaryKey start := by
    refine foldl_eq_of_forall₂ (fun draft found found' hcolumns => ?_) hprimary start
    exact addPrimaryKey_congr draft hcolumns
  rw [hkeys]
  refine foldl_eq_of_forall₂ (fun draft found found' hkey => ?_) hforeign _
  exact addForeignKeys_congr draft hkey.2 hkey.1

/-! ### Parts -/

/-- Two parts of a list that are read into the same draft, strictly and permissively. -/
structure PartAlike (part part' : Text) : Prop where
  strict : ∀ draft, (readPart draft part).toOption = (readPart draft part').toOption
  permissive : ∀ draft unreadable unreadable', (salvagePart (draft, unreadable) part).1
    = (salvagePart (draft, unreadable') part').1

/-- Which parts could not be read does not matter for the draft. -/
theorem PartAlike.refl (part : Text) : PartAlike part part := by
  refine ⟨fun _ => rfl, fun draft unreadable unreadable' => ?_⟩
  simp only [salvagePart]
  split
  · rfl
  · split <;> rfl

theorem forall₂_partAlike_refl (parts : List Text) : List.Forall₂ PartAlike parts parts :=
  List.forall₂_same.mpr fun part _ => .refl part

/-- Strict readings of two lists. -/
theorem foldlM_readPart_congr (h : List.Forall₂ PartAlike parts parts') (draft : Draft) :
    (parts.foldlM readPart draft).toOption = (parts'.foldlM readPart draft).toOption := by
  induction h generalizing draft with
  | nil => rfl
  | @cons part part' parts parts' halike _ ih =>
      have hpart := halike.strict draft
      rw [List.foldlM_cons, List.foldlM_cons]
      cases hread : readPart draft part with
      | error error =>
          cases hread' : readPart draft part' with
          | error error' => rfl
          | ok draft' => simp [hread, hread', Except.toOption] at hpart
      | ok draft' =>
          cases hread' : readPart draft part' with
          | error error' => simp [hread, hread', Except.toOption] at hpart
          | ok draft'' =>
              obtain rfl : draft' = draft'' := by simpa [hread, hread', Except.toOption] using hpart
              exact ih draft'

/-- Permissive readings of two lists. -/
theorem foldl_salvagePart_congr (h : List.Forall₂ PartAlike parts parts') (draft : Draft)
    (unreadable unreadable' : List Text) :
    (parts.foldl salvagePart (draft, unreadable)).1
      = (parts'.foldl salvagePart (draft, unreadable')).1 := by
  induction h generalizing draft unreadable unreadable' with
  | nil => rfl
  | @cons part part' parts parts' halike _ ih =>
      have hpart := halike.permissive draft unreadable unreadable'
      rw [List.foldl_cons, List.foldl_cons]
      generalize salvagePart (draft, unreadable) part = state,
        salvagePart (draft, unreadable') part' = state' at hpart ⊢
      obtain ⟨draft, unreadable⟩ := state
      obtain ⟨draft', unreadable'⟩ := state'
      obtain rfl : draft = draft' := hpart
      exact ih draft unreadable unreadable'

/-! ### Statements -/

theorem toOption_map {ε α β : Type} (f : α → β) (result : Except ε α) :
    (result.map f).toOption = result.toOption.map f := by
  cases result <;> rfl

/-- What is salvaged from a statement that names a table. -/
theorem map_definition_salvageTable (statement : Text) :
    (salvageTable statement).map Salvage.definition
      = (Grammar.looseTable.find? statement).map fun header =>
        ((Schema.parts (looseList header.rest)).foldl
          salvagePart (salvageKeys statement { table := header.text .name }, [])).1.finish := by
  cases hheader : Grammar.looseTable.find? statement with
  | none => rw [salvageTable, hheader]; rfl
  | some header => rw [salvageTable_of_find? hheader rfl]; rfl

/-- Two statements declare the same table if both readings of them agree. -/
theorem definition?_congr {statement statement' : Text}
    (hstrict : (readTable statement).toOption = (readTable statement').toOption)
    (hpermissive : (salvageTable statement).map Salvage.definition
      = (salvageTable statement').map Salvage.definition) :
    definition? statement = definition? statement' := by
  have hdefinition : ∀ statement, definition? statement
      = (readTable statement).toOption.or ((salvageTable statement).map Salvage.definition) := by
    intro statement
    unfold definition?
    cases readTable statement <;> rfl
  rw [hdefinition, hdefinition, hstrict, hpermissive]

end Diagrams.Schema
