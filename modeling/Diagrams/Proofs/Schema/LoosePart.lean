/-
Written parts, as the permissive reading takes them.

The permissive pattern for columns knows types with at most two lengths, whose brackets need not be
closed; such a type it covers whole, and what is left of the column are its marks.  A key starts
with a word that the permissive reading passes over.
-/
import Diagrams.Proofs.Schema.Listing

namespace Diagrams.Schema.Written

open Pattern

variable {place : Place Slot} {next : Continuation Slot} {found : Place Slot}

/-- The lengths of a type, as the permissive pattern for columns has them. -/
abbrev looseLengths : Pattern Slot :=
  all [spaces, lit '(', spaces, atLeastOne isDecimalDigit,
    opt (all [spaces, lit ',', spaces, atLeastOne isDecimalDigit]), spaces, opt (lit ')')]

theorem isBlank_of_isDecimalDigit {c : Char} (h : isDecimalDigit c = true) : isBlank c = false :=
  isBlank_of_isWordChar (isWordChar_of_isDecimalDigit h)

theorem head?_digits {digits rest : Text} (hne : digits ≠ [])
    (h : ∀ c ∈ digits, isDecimalDigit c = true) :
    ∀ c ∈ (digits ++ rest).head?, isBlank c = false :=
  forall_head?_append hne (fun c hc => isBlank_of_isDecimalDigit (h c hc)) rest

/-- Digits behind blanks that are not there are covered up to something else. -/
theorem run_digits {ps : List (Pattern Slot)} {digits rest : Text} (h : place.rest = digits ++ rest)
    (hlength : digits ≠ [] ∧ digits.all isDecimalDigit = true)
    (hstop : ∀ c ∈ rest.head?, isDecimalDigit c = false)
    (hnext : (all ps).run (place.past digits rest) next = some found) :
    (all (spaces :: atLeastOne isDecimalDigit :: ps)).run place next = some found := by
  have hdigits := List.all_eq_true.mp hlength.2
  rw [run_all_cons, run_spaces_of_stop, run_all_cons]
  · exact run_atLeastOne h hlength.1 hdigits hstop hnext
  · rw [h]
    exact head?_digits hlength.1 hdigits

/-- The bracket that closes a type is covered. -/
theorem run_closing {rest : Text} (h : place.rest = ')' :: rest)
    (hnext : next (place.past [')'] rest) = some found) :
    (all [spaces, opt (lit ')')]).run place next = some found := by
  rw [run_all_cons]
  refine run_spaces_none h (by decide) ?_
  rw [run_all_cons]
  refine run_opt_of_some ?_
  rw [run_lit h]
  exact hnext

/-- One length, and a second one behind a comma, are covered with their brackets. -/
theorem run_looseLengths {type : DataType} {rest : Text} (h : type.WellFormed)
    (hsome : type.lengths ≠ []) (htwo : type.lengths.length ≤ 2)
    (hrest : place.rest = bracketed (Text.joined [','] type.lengths) ++ rest)
    (hnext : next (place.past (bracketed (Text.joined [','] type.lengths)) rest) = some found) :
    looseLengths.run place next = some found := by
  obtain ⟨length, others, hlengths⟩ := List.exists_cons_of_ne_nil hsome
  obtain ⟨hlength, hothers⟩ := List.forall_mem_cons.mp (hlengths ▸ h.lengths)
  rw [hlengths] at hrest hnext htwo
  cases others with
  | nil =>
      have hplace : place.rest = '(' :: (length ++ ')' :: rest) := by
        rw [hrest]
        simp [bracketed]
      rw [run_all_cons]
      refine run_spaces_none hplace (by decide) ?_
      rw [run_all_cons, run_lit hplace]
      refine run_digits rfl hlength (forall_head?_cons (by decide) _) ?_
      rw [run_all_cons, run_opt_of_none]
      · refine run_closing rfl ?_
        simpa [bracketed] using hnext
      · refine run_eq_none (Opens.not_mem_spaces (Opens.lit ',') (by decide) ?_)
        rw [Place.rest_past, List.dropWhile_cons_of_neg (by decide)]
        simp
  | cons other others =>
      have hlast : others = [] := by simpa using htwo
      obtain ⟨hother, -⟩ := List.forall_mem_cons.mp hothers
      have hplace : place.rest = '(' :: (length ++ ',' :: (other ++ ')' :: rest)) := by
        rw [hrest, hlast, Text.joined_cons_cons]
        simp [bracketed]
      rw [run_all_cons]
      refine run_spaces_none hplace (by decide) ?_
      rw [run_all_cons, run_lit hplace]
      refine run_digits rfl hlength (forall_head?_cons (by decide) _) ?_
      rw [run_all_cons]
      refine run_opt_of_some ?_
      rw [run_all_cons]
      refine run_spaces_none rfl (by decide) ?_
      rw [run_all_cons, run_lit rfl]
      refine run_digits rfl hother (forall_head?_cons (by decide) _) ?_
      rw [run_all_nil]
      refine run_closing rfl ?_
      rw [hlast, Text.joined_cons_cons] at hnext
      simpa [bracketed] using hnext

/-- A written type is covered whole in front of marks. -/
theorem run_looseType {type : DataType} (h : type.WellFormed) (htwo : type.lengths.length ≤ 2)
    {marks : List Mark} (hrest : place.rest = type.text ++ marks.flatMap Mark.text)
    (hnext : next (place.past type.text (marks.flatMap Mark.text)) = some found) :
    (all [one fun c => isLatinLetter c || c == '_', many .greedy isWordChar,
      opt looseLengths]).run place next = some found := by
  obtain ⟨c, word, hword, hc, hletters⟩ := exists_cons_of_isIdentifier h.word
  by_cases hnone : type.lengths = []
  · have htext : type.text = c :: word := by simp [DataType.text, hnone, hword]
    rw [htext] at hrest hnext
    have hmarks : ∀ d ∈ (marks.flatMap Mark.text).head?, isWordChar d = false := by
      intro d hd
      rw [Mark.head?_marks marks d hd]
      decide
    rw [run_all_cons, run_one hrest hc, run_all_cons]
    refine run_many_greedy rfl hletters hmarks ?_
    rw [run_all_cons, run_opt_of_none, run_all_nil]
    · simpa using hnext
    · refine run_eq_none (not_mem_reached_spaces_lit ?_)
      exact Mark.not_mem marks (by decide) (by decide)
  · have htext : type.text = c :: (word ++ bracketed (Text.joined [','] type.lengths)) := by
      simp [DataType.text, hnone, hword]
    have hplace : place.rest = c :: (word ++
        (bracketed (Text.joined [','] type.lengths) ++ marks.flatMap Mark.text)) := by
      rw [hrest, htext]
      simp
    rw [run_all_cons, run_one hplace hc, run_all_cons]
    refine run_many_greedy rfl hletters (forall_head?_cons (by decide) _) ?_
    rw [run_all_cons]
    refine run_opt_of_some (run_looseLengths h hnone htwo rfl ?_)
    rw [run_all_nil]
    simpa [htext] using hnext

/-- A written column with two lengths at most is matched up to its marks. -/
theorem matchStart?_looseColumn {column : Column} (h : column.WellFormed)
    (htwo : column.type.lengths.length ≤ 2) :
    ∃ found, Grammar.looseColumn.matchStart? column.text = some found ∧
      found.text .name = column.name.name ∧ found.text .type = column.type.text ∧
      found.rest = column.marks.flatMap Mark.text := by
  have hspace : ∀ c ∈ (' ' :: (column.type.text ++ column.marks.flatMap Mark.text)).head?,
      isNameChar c = false := forall_head?_cons (by decide) _
  have htype : ∀ c ∈ (column.type.text ++ column.marks.flatMap Mark.text).head?,
      isBlank c = false := (DataType.solid h.type).head?_append _
  have hrun : Grammar.looseColumn.run (.start column.text) some
      = some ((((Place.start column.text : Place Slot).past
          (column.name.text ++ ' ' :: column.type.text)
            (column.marks.flatMap Mark.text)).marked .name
            column.name.name (column.name.quotes.closing ++ ' ' ::
              (column.type.text ++ column.marks.flatMap Mark.text))).marked .type column.type.text
                (column.marks.flatMap Mark.text)) := by
    unfold Grammar.looseColumn
    rw [run_all_cons]
    refine run_identifier_text h.name rfl hspace ?_
    rw [run_all_cons]
    refine run_atLeastOne rfl (List.cons_ne_nil ' ' []) forall_blank_space htype ?_
    rw [run_all_cons, run_noted]
    refine run_looseType h.type htwo rfl ?_
    rw [Place.note_past _ rfl, run_all_nil]
    simp
  refine ⟨_, by rw [matchStart?, matchAt?, hrun]; rfl, ?_, ?_, rfl⟩
  all_goals simp [Match.text]

/-! ### Parts -/

/-- A column is not passed over for its first word. -/
theorem Column.isConstraintWord_firstWord {column : Column} (h : column.WellFormed) :
    isConstraintWord (column.text.words.head?.getD []) = false := by
  obtain ⟨found, hfound, hname, -, -⟩ := matchStart?_column h
  obtain ⟨start⟩ := exists_columnStart (by decide) (by decide) hfound
  by_contra hword
  have hconstraint := start.isConstraintWord_name (Bool.eq_true_of_not_eq_false hword)
  rw [hname, h.noConstraint] at hconstraint
  exact Bool.noConfusion hconstraint

/-- The permissive reading adds a written column just as the strict one does. -/
theorem salvagePart_column (draft : Draft) (unreadable : List Text) {column : Column}
    (h : column.WellFormed) (htwo : column.type.lengths.length ≤ 2) :
    salvagePart (draft, unreadable) column.text = ({ draft with
      columns := draft.columns ++ [column.plain]
      primaryKeys := draft.primaryKeys ++
        if column.marks.contains .primaryKey then [column.name.name] else [] }, unreadable) := by
  obtain ⟨found, hfound, hname, htype, hrest⟩ := matchStart?_looseColumn h htwo
  rw [← addColumn_of_text h hname htype, ← hrest]
  simp [salvagePart, Column.isConstraintWord_firstWord h,
    Column.matchStart?_otherConstraint h, hfound]

theorem isConstraintWord_letters {word : String} (h : isLetters word = true)
    (hword : isConstraintWord word.toList = true) (rest : Text) :
    isConstraintWord ((Text.words (word.toList ++ ' ' :: rest)).head?.getD []) = true := by
  have hfirst : (Text.words ([] ++ (word.toList ++ ' ' :: rest))).head? = some word.toList :=
    Text.head?_words (List.forall_mem_nil _) (ne_nil_of_isLetters h)
      (fun c hc => isBlank_of_isWordChar (isWordChar_of_isLetters h c hc)) (by decide)
  rw [List.nil_append] at hfirst
  rw [hfirst]
  exact hword

/-- The permissive reading passes over a written key. -/
theorem salvagePart_key (state : Draft × List Text) (constraint : Option Name) (key : Key) :
    salvagePart state (constraintText constraint ++ key.text) = state := by
  refine salvagePart_of_isConstraintWord ?_
  cases constraint with
  | some name =>
      rw [constraintText_some]
      exact isConstraintWord_letters (by decide) (by decide) _
  | none =>
      rw [constraintText, List.nil_append]
      cases key with
      | primary columns =>
          rw [Key.text_primary]
          exact isConstraintWord_letters (by decide) (by decide) _
      | foreign columns target targetColumns =>
          rw [Key.text_foreign]
          exact isConstraintWord_letters (by decide) (by decide) _

/-- The permissive reading adds the columns of a list, and nothing is left over. -/
theorem foldl_salvagePart_items {items : List Item} (h : ∀ item ∈ items, item.WellFormed)
    (draft : Draft) (unreadable : List Text) :
    (items.map Item.text).foldl salvagePart (draft, unreadable) = ({ draft with
      columns := draft.columns ++ items.flatMap Item.plain
      primaryKeys := draft.primaryKeys ++ items.flatMap Item.markedNames }, unreadable) := by
  induction items generalizing draft with
  | nil => simp
  | cons item items ih =>
      obtain ⟨hitem, hitems⟩ := List.forall_mem_cons.mp h
      rw [List.map_cons, List.foldl_cons]
      cases item with
      | column written =>
          have hhere : salvagePart (draft, unreadable) (Item.column written).text = _ :=
            salvagePart_column draft unreadable hitem.1 hitem.2
          rw [hhere, ih hitems]
          simp [Item.plain, Item.markedNames]
      | key constraint written =>
          have hhere : salvagePart (draft, unreadable) (Item.key constraint written).text = _ :=
            salvagePart_key (draft, unreadable) constraint written
          rw [hhere, ih hitems]
          simp [Item.plain, Item.markedNames]

end Diagrams.Schema.Written
