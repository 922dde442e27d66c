/-
The grammar of schema scripts is blind to levelling.

Every pattern of the grammar is put together from words in either case, blanks, names and signs, and
each of these is blind to the case of letters and to the kind of blanks.
-/
import Diagrams.Proofs.Pattern.Blind
import Diagrams.Proofs.Schema.Leveled

namespace Diagrams.Schema.Grammar

open Pattern

/-! ### The parts of patterns -/

@[simp] theorem blind_lit (sign : Char) (h : isSign sign = true) :
    (lit sign : Pattern Slot).Blind leveled := leveled_beq sign h

@[simp] theorem blind_name : (name : Pattern Slot).Blind leveled :=
  blind_atLeastOne.mpr isWordChar_leveled

@[simp] theorem blind_spaces : (spaces : Pattern Slot).Blind leveled := isBlank_leveled

@[simp] theorem blind_gap : (gap : Pattern Slot).Blind leveled :=
  blind_atLeastOne.mpr isBlank_leveled

/-- Whether all words are spelled with Latin letters. -/
def areLetters (words : List String) : Bool := words.all fun word => word.toList.all Char.isAlpha

theorem blind_keyword {word : String} (h : word.toList.all Char.isAlpha = true) :
    (keyword word : Pattern Slot).Blind leveled := by
  refine blind_all.mpr fun p hp => ?_
  obtain ⟨letter, hletter, rfl⟩ := List.mem_map.mp hp
  exact matchesLetter_leveled (List.all_eq_true.mp h letter hletter)

theorem blind_leading {words : List String} (h : areLetters words = true) :
    (leading words).Blind leveled := by
  refine blind_all.mpr fun p hp => ?_
  obtain ⟨word, hword, rfl⟩ := List.mem_map.mp hp
  exact ⟨blind_keyword (List.all_eq_true.mp h word hword), blind_gap⟩

theorem blind_phrase {words : List String} (h : areLetters words = true) :
    (phrase words).Blind leveled := by
  unfold phrase
  induction words with
  | nil => exact blind_empty
  | cons word words ih =>
      obtain ⟨hword, hwords⟩ : word.toList.all Char.isAlpha = true ∧ areLetters words = true :=
        Bool.and_eq_true_iff.mp h
      cases words with
      | nil => exact blind_keyword hword
      | cons next others =>
          have hrest : (all (gap :: ((next :: others).map keyword).intersperse gap)).Blind
              leveled := blind_all.mpr
            (List.forall_mem_cons.mpr ⟨blind_gap, blind_all.mp (ih hwords)⟩)
          exact ⟨blind_keyword hword, hrest⟩

@[simp] theorem blind_qualified {last : Pattern Slot} :
    (qualified last).Blind leveled ↔ last.Blind leveled := by
  simp (disch := decide) [qualified, openQuote, closeQuote, blind_all, leveled_beq]

@[simp] theorem blind_columnList (slot : Slot) : (columnList slot).Blind leveled := by
  simp (disch := decide) [columnList, blind_all, bne, leveled_beq]

@[simp] theorem blind_ifNotExists : ifNotExists.Blind leveled :=
  blind_opt.mpr (blind_leading (by decide))

@[simp] theorem blind_indexMethod : indexMethod.Blind leveled := by
  simp (disch := decide) [indexMethod, blind_all, blind_leading]

@[simp] theorem blind_indexName : indexName.Blind leveled := by simp [indexName, blind_all]

@[simp] theorem blind_references : references.Blind leveled := by
  simp (disch := decide) [references, identifier, blind_all, blind_leading]

@[simp] theorem blind_constraintName : constraintName.Blind leveled := by
  simp (disch := decide) [constraintName, blind_all, blind_leading]

@[simp] theorem blind_addConstraint : addConstraint.Blind leveled := by
  simp (disch := decide) [addConstraint, openQuote, closeQuote, blind_all,
    blind_leading, leveled_beq]

/-! ### Statements -/

theorem blind_createTable : createTable.Blind leveled := by
  simp (disch := decide) [createTable, identifier, blind_all, blind_oneOf, blind_keyword,
    blind_leading]

theorem blind_looseTable : looseTable.Blind leveled := by
  have hwords : (lazyUpTo (all [name, gap] : Pattern Slot) 3).Blind leveled :=
    Blind.lazyUpTo (by simp [blind_all]) 3
  simp (disch := decide) [looseTable, identifier, blind_all, blind_leading, hwords]

theorem blind_alterTable : alterTable.Blind leveled := by
  simp (disch := decide) [alterTable, identifier, blind_all, blind_leading, leveled_beq]

/-! ### Parts of a table definition -/

theorem blind_primaryKeyPart : primaryKeyPart.Blind leveled := by
  simp (disch := decide) [primaryKeyPart, blind_all, blind_phrase]

theorem blind_foreignKeyPart : foreignKeyPart.Blind leveled := by
  simp (disch := decide) [foreignKeyPart, blind_all, blind_phrase]

theorem blind_otherConstraint : otherConstraint.Blind leveled := by
  simp (disch := decide) [otherConstraint, openQuote, closeQuote, blind_all, blind_oneOf,
    blind_keyword, blind_leading, leveled_beq]

theorem blind_column : column.Blind leveled := by
  simp (disch := decide) [column, identifier, blind_all, blind_oneOf, blind_keyword,
    bne, leveled_beq]

theorem blind_looseColumn : looseColumn.Blind leveled := by
  simp (disch := decide) [looseColumn, identifier, blind_all, leveled_beq]

/-! ### Options and keys -/

theorem blind_notNull : notNull.Blind leveled := by
  simp (disch := decide) [notNull, blind_all, blind_phrase]

theorem blind_inlinePrimaryKey : inlinePrimaryKey.Blind leveled := by
  simp (disch := decide) [inlinePrimaryKey, blind_all, blind_phrase]

theorem blind_inlineReferences : inlineReferences.Blind leveled := by
  simp [inlineReferences, blind_all]

theorem blind_primaryKeyAnywhere : primaryKeyAnywhere.Blind leveled := by
  simp (disch := decide) [primaryKeyAnywhere, blind_all, blind_phrase]

theorem blind_foreignKeyAnywhere : foreignKeyAnywhere.Blind leveled := by
  simp (disch := decide) [foreignKeyAnywhere, blind_all, blind_phrase]

theorem blind_addPrimaryKey : addPrimaryKey.Blind leveled :=
  ⟨blind_addConstraint, blind_primaryKeyAnywhere⟩

theorem blind_addForeignKey : addForeignKey.Blind leveled :=
  ⟨blind_addConstraint, blind_foreignKeyAnywhere⟩

end Diagrams.Schema.Grammar
