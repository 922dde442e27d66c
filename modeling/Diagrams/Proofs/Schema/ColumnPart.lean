/-
Written columns, as the strict reading takes them.

No pattern for a key or a constraint takes a column, so it is left to the pattern for columns, and
that has one way to go: the type ends where the clauses start, and the clauses are taken as they
are.  What is found in them is what they were written for (`LinkedColumn.readPart`).
-/
import Diagrams.Proofs.Schema.NoConstraint

namespace Diagrams.Schema.Written

open Pattern

variable {place : Place Slot} {next : Continuation Slot} {found : Place Slot}

/-! ### The way of a column -/

theorem Mark.head?_marks (marks : List Mark) :
    ∀ c ∈ (marks.flatMap Mark.text).head?, c = ' ' := by
  intro c hc
  cases marks with
  | nil => simp at hc
  | cons mark marks => simpa [Mark.text, eq_comm] using hc

/-- Behind the space of a clause comes a letter. -/
theorem Clause.head?_dropWhile (clauses : List Clause) :
    ∀ c ∈ ((clauses.flatMap Clause.text).dropWhile isBlank).head?, isWordChar c = true := by
  intro c hc
  cases clauses with
  | nil => simp at hc
  | cons clause clauses =>
      have hletters := clause.isLetters_word
      have htext : (clause :: clauses).flatMap Clause.text = [' '] ++ (clause.word.toList ++
          (' ' :: clause.behind ++ clauses.flatMap Clause.text)) := by
        simp [Clause.text]
      rw [htext, dropWhile_append_of_stop forall_blank_space (head?_letters hletters _)] at hc
      exact head?_spells (spells_self _) hletters c hc

/-- Clauses do not go on with anything but letters behind blanks. -/
theorem not_mem_reached_mark {clauses : List Clause} (h : place.rest = clauses.flatMap Clause.text)
    {c : Char} {ps : List (Pattern Slot)} (hc : isWordChar c = false) (hblank : isBlank c = false)
    (mid : Place Slot) : ¬ mid ∈ (all (spaces :: lit c :: ps)).reached place := by
  refine (Opens.lit c).not_mem_spaces hblank (fun hfirst => ?_) mid
  rw [h] at hfirst
  rw [Clause.head?_dropWhile clauses c hfirst] at hc
  exact Bool.noConfusion hc

/-- No clause goes on with the second word of a type. -/
theorem not_mem_reached_varying {clauses : List Clause}
    (h : place.rest = clauses.flatMap Clause.text) (mid : Place Slot) :
    ¬ mid ∈ (all [gap, oneOf [keyword "PRECISION", keyword "VARYING"]]).reached place := by
  intro hmid
  obtain ⟨_, hgap, hwords⟩ := mem_reached_all_cons.mp hmid
  obtain ⟨blanks, rest, hrest, hne, hblank, rfl⟩ := mem_reached_atLeastOne.mp hgap
  cases clauses with
  | nil => simp [h, hne] at hrest
  | cons clause clauses =>
      have hfirst := clause.isLetters_word
      have hwritten : place.rest = [' '] ++ (clause.word.toList ++
          (' ' :: clause.behind ++ clauses.flatMap Clause.text)) := by
        rw [h]
        simp [Clause.text]
      have hnone : ∀ word : String, isLetters word = true → agree clause.word word = false →
          ¬ mid ∈ (keyword word).reached (place.past blanks rest) := by
        intro word hletters hdiffer hkeyword
        obtain ⟨text, rest', hrest', hspells, -⟩ := mem_reached_keyword.mp hkeyword
        have hbehind : ∀ c ∈ rest.head?, isBlank c = false := by
          intro c hc
          rw [Place.rest_past] at hrest'
          rw [hrest'] at hc
          exact isBlank_of_isWordChar (head?_spells hspells hletters c hc)
        obtain ⟨-, hsame⟩ := append_inj_of_stop hblank forall_blank_space hbehind
          (head?_letters hfirst _) (hrest.symm.trans hwritten)
        have hagree := agree_of_spells (Bool.and_eq_true_iff.mp hfirst).2
          (Bool.and_eq_true_iff.mp hletters).2 (spells_self clause.word) hspells
          (hsame.symm.trans hrest')
        rw [hdiffer] at hagree
        exact Bool.noConfusion hagree
      have hdiffer : agree clause.word "PRECISION" = false ∧
          agree clause.word "VARYING" = false := by
        cases clause with
        | mark mark => cases mark <;> decide
        | reference target column =>
            show agree "REFERENCES" "PRECISION" = false ∧ agree "REFERENCES" "VARYING" = false
            decide
      rcases mem_reached_oneOf_cons.mp hwords with hprecision | hvarying
      · exact hnone "PRECISION" (by decide) hdiffer.1 hprecision
      · exact hnone "VARYING" (by decide) hdiffer.2 hvarying

/-- The pattern for the type of a column, without what it notes. -/
abbrev typePattern : Pattern Slot :=
  all [one fun c => isLatinLetter c || c == '_', many .greedy isWordChar,
    opt (all [gap, oneOf [keyword "PRECISION", keyword "VARYING"]]),
    opt (all [spaces, lit '(', many .greedy (· != ')'), lit ')']),
    opt (all [spaces, lit '[', spaces, lit ']'])]

/-- A written type is matched whole in front of clauses. -/
theorem run_type {type : DataType} (h : type.WellFormed) {clauses : List Clause}
    (hrest : place.rest = type.text ++ clauses.flatMap Clause.text)
    (hnext : next (place.past type.text (clauses.flatMap Clause.text)) = some found) :
    typePattern.run place next = some found := by
  obtain ⟨c, word, hword, hc, hletters⟩ := exists_cons_of_isIdentifier h.word
  by_cases hnone : type.lengths = []
  · have htext : type.text = c :: word := by simp [DataType.text, hnone, hword]
    rw [htext] at hrest hnext
    rw [run_all_cons, run_one hrest hc, run_all_cons]
    refine run_many_greedy rfl hletters (Clause.not_word_head?_clauses clauses) ?_
    rw [run_all_cons, run_opt_of_none (run_eq_none (not_mem_reached_varying rfl)), run_all_cons,
      run_opt_of_none (run_eq_none (not_mem_reached_mark rfl (by decide) (by decide))),
      run_all_cons,
      run_opt_of_none (run_eq_none (not_mem_reached_mark rfl (by decide) (by decide))), run_all_nil]
    simpa using hnext
  · have htext : type.text = c :: (word ++ bracketed (Text.joined [','] type.lengths)) := by
      simp [DataType.text, hnone, hword]
    rw [htext] at hrest hnext
    have hlist : ∀ c ∈ Text.joined [','] type.lengths, (c != ')') = true := by
      intro c hc
      have hclosing : ')' ∉ Text.joined [','] type.lengths :=
        DataType.not_mem_lengths h (by decide) (by decide)
      rw [bne_iff_ne]
      rintro rfl
      exact hclosing hc
    have hwritten : place.rest = c :: (word ++
        '(' :: (Text.joined [','] type.lengths ++ ')' :: clauses.flatMap Clause.text)) := by
      rw [hrest]
      simp [bracketed]
    have hbracket : ∀ mid : Place Slot, ¬ mid ∈ (all [gap, oneOf [keyword "PRECISION",
        keyword "VARYING"]]).reached ((place.past [c] (word ++ '(' :: (Text.joined [',']
          type.lengths ++ ')' :: clauses.flatMap Clause.text))).past word ('(' :: (Text.joined [',']
            type.lengths ++ ')' :: clauses.flatMap Clause.text))) := by
      intro mid hmid
      obtain ⟨_, hgap, -⟩ := mem_reached_all_cons.mp hmid
      obtain ⟨blanks, rest, hblanks, hne, hblank, -⟩ := mem_reached_atLeastOne.mp hgap
      obtain ⟨d, blanks, rfl⟩ := List.exists_cons_of_ne_nil hne
      obtain ⟨rfl, -⟩ := List.cons.inj hblanks
      exact absurd (hblank '(' List.mem_cons_self) (by decide)
    rw [run_all_cons, run_one hwritten hc, run_all_cons]
    refine run_many_greedy rfl hletters ?_ ?_
    · intro d hd
      obtain rfl : '(' = d := by simpa using hd
      decide
    rw [run_all_cons, run_opt_of_none (run_eq_none hbracket), run_all_cons]
    refine run_opt_of_some ?_
    rw [run_all_cons]
    refine run_spaces_none rfl (by decide) ?_
    rw [run_all_cons, run_lit rfl, run_all_cons]
    refine run_many_greedy rfl hlist ?_ ?_
    · intro d hd
      obtain rfl : ')' = d := by simpa using hd
      rfl
    rw [run_all_cons, run_lit rfl, run_all_nil, run_all_cons,
      run_opt_of_none (run_eq_none (not_mem_reached_mark rfl (by decide) (by decide))), run_all_nil]
    simpa [bracketed] using hnext

/-- A written column is matched with its name, its type and its clauses. -/
theorem LinkedColumn.matchStart?_column {column : LinkedColumn} (h : column.WellFormed) :
    ∃ found, Grammar.column.matchStart? column.text = some found ∧
      found.text .name = column.name.name ∧ found.text .type = column.type.text ∧
      found.text .options = column.clauses.flatMap Clause.text := by
  have hspace : ∀ c ∈ (' ' :: (column.type.text ++ column.clauses.flatMap Clause.text)).head?,
      isNameChar c = false := forall_head?_cons (by decide) _
  have htype : ∀ c ∈ (column.type.text ++ column.clauses.flatMap Clause.text).head?,
      isBlank c = false := (DataType.solid h.type).head?_append _
  have hrun : Grammar.column.run (.start column.text) some
      = some (((((Place.start column.text : Place Slot).past column.text []).marked .name
          column.name.name (column.name.quotes.closing ++ ' ' ::
            (column.type.text ++ column.clauses.flatMap Clause.text))).marked .type column.type.text
              (column.clauses.flatMap Clause.text)).marked .options
                (column.clauses.flatMap Clause.text) []) := by
    unfold Grammar.column
    rw [run_all_cons]
    refine run_identifier_text h.name rfl hspace ?_
    rw [run_all_cons]
    refine run_atLeastOne rfl (List.cons_ne_nil ' ' []) forall_blank_space htype ?_
    rw [run_all_cons, run_noted]
    refine run_type h.type rfl ?_
    rw [Place.note_past _ rfl, run_all_cons, run_noted]
    refine run_many_greedy (List.append_nil _).symm (fun _ _ => rfl) (by simp) ?_
    rw [Place.note_past _ (List.append_nil _).symm, run_all_cons,
      run_finish_of_nil rfl, run_all_nil]
    simp [LinkedColumn.text]
  refine ⟨_, by rw [matchStart?, matchAt?, hrun]; rfl, ?_, ?_, ?_⟩
  all_goals simp [Match.text]

/-! ### Reading a column -/

/-- A text without blanks is in its normal spelling. -/
theorem normalizeType_of_forall {type : Text} (hne : type ≠ [])
    (h : ∀ c ∈ type, isBlank c = false) :
    normalizeType type = type := by
  unfold normalizeType Text.respaced
  rw [Text.words_of_forall hne h]
  rfl

theorem normalizeType_text {type : DataType} (h : type.WellFormed) :
    normalizeType type.text = type.text := by
  refine normalizeType_of_forall (DataType.solid h).ne_nil fun c hc => ?_
  unfold DataType.text at hc
  rcases List.mem_append.mp hc with hc | hc
  · exact isBlank_of_isWordChar (isWordChar_of_isIdentifier h.word c hc)
  · by_cases hnone : type.lengths.isEmpty = true
    · simp [hnone] at hc
    · rw [if_neg hnone] at hc
      simp only [bracketed, List.mem_cons, List.mem_append, List.not_mem_nil, or_false] at hc
      rcases hc with rfl | hc | rfl
      · decide
      · rcases DataType.mem_lengths h c hc with hdigit | rfl
        · exact isBlank_of_isWordChar (isWordChar_of_isDecimalDigit hdigit)
        · decide
      · decide

/-- The column as it is read, before any key is applied to it. -/
def LinkedColumn.plain (column : LinkedColumn) : Er.Column :=
  { name := column.name.name, type := column.type.text
    isNullable := !column.isMarked .notNull }

/-- A column that refers to another one declares a foreign key over itself. -/
theorem foreignKeys_reference (table : Text) {written target other : Name}
    (hname : isIdentifier written.name = true) (h : (Clause.reference target other).WellFormed) :
    foreignKeys table written.name target.name (some (nameList [other]))
      = (Key.foreign [written] target [other]).references table := by
  have hkey : (Key.foreign [⟨written.name, .none⟩] target [other]).WellFormed :=
    ⟨.singleton hname, h.1, .singleton h.2⟩
  have hlist : nameList [⟨written.name, .none⟩] = written.name := by
    simp [nameList, Name.text, Quotes.opening, Quotes.closing]
  rw [← hlist, foreignKeys_nameList hkey]
  rfl

theorem LinkedColumn.primaryNames_keys (column : LinkedColumn) : primaryNames column.keys
    = if column.isMarked .primaryKey then [column.name.name] else [] := by
  unfold primaryNames LinkedColumn.keys
  cases column.isMarked .primaryKey <;> cases column.reference? <;> rfl

theorem LinkedColumn.references_keys (column : LinkedColumn) (table : Text) :
    column.keys.flatMap (Key.references table) = column.reference?.toList.flatMap fun reference =>
      (Key.foreign [column.name] reference.1 [reference.2]).references table := by
  unfold LinkedColumn.keys
  cases column.isMarked .primaryKey <;> cases column.reference? <;> rfl

/-- A column that is found with its name, its type and its clauses is added as it was written, and
the keys that its clauses declare with it. -/
theorem LinkedColumn.addColumn_of_text {draft : Draft} {column : LinkedColumn} {found : Match Slot}
    (h : column.WellFormed) (hname : found.text .name = column.name.name)
    (htype : found.text .type = column.type.text) :
    draft.addColumn found (column.clauses.flatMap Clause.text) = { draft with
      columns := draft.columns ++ [column.plain]
      primaryKeys := draft.primaryKeys ++ primaryNames column.keys
      foreignKeys := draft.foreignKeys ++ column.keys.flatMap (Key.references draft.table) } := by
  have hnotNull : Grammar.notNull.occursIn (column.clauses.flatMap Clause.text)
      = column.isMarked .notNull := occursIn_clauses h .notNull
  have hprimary : Grammar.inlinePrimaryKey.occursIn (column.clauses.flatMap Clause.text)
      = column.isMarked .primaryKey := occursIn_clauses h .primaryKey
  have hmarked : (if column.isMarked .primaryKey then draft.primaryKeys ++ [column.name.name]
      else draft.primaryKeys) = draft.primaryKeys ++ primaryNames column.keys := by
    rw [column.primaryNames_keys]
    cases column.isMarked .primaryKey <;> simp
  have hfound := map_find?_clauses h
  rw [Draft.addColumn, hname, htype, normalizeType_text h.type, hnotNull, hprimary, hmarked,
    column.references_keys]
  cases hreference : column.reference? with
  | none =>
      rw [hreference, Option.map_none, Option.map_eq_none_iff] at hfound
      rw [hfound]
      simp [LinkedColumn.plain]
  | some reference =>
      obtain ⟨target, other⟩ := reference
      rw [hreference] at hfound
      obtain ⟨reference, hreference', hsame⟩ := Option.map_eq_some_iff.mp hfound
      obtain ⟨htarget, hcolumns⟩ := Prod.mk.inj hsame
      have hclause : (Clause.reference target other).WellFormed := by
        obtain ⟨clause, hclause, hrefers⟩ := List.exists_of_findSome?_eq_some hreference
        cases clause with
        | mark mark => exact absurd hrefers (by simp [Clause.reference?])
        | reference target' other' =>
            obtain ⟨rfl, rfl⟩ := Prod.mk.inj (Option.some.inj hrefers)
            exact h.clauses _ hclause
      rw [hreference']
      simp [LinkedColumn.plain, Draft.addForeignKeys, htarget, hcolumns,
        foreignKeys_reference draft.table h.name hclause]

/-- Reading a written column adds it to a draft, and the keys that its clauses declare with it. -/
theorem LinkedColumn.readPart (draft : Draft) {column : LinkedColumn} (h : column.WellFormed) :
    readPart draft column.text = .ok { draft with
      columns := draft.columns ++ [column.plain]
      primaryKeys := draft.primaryKeys ++ primaryNames column.keys
      foreignKeys := draft.foreignKeys ++ column.keys.flatMap (Key.references draft.table) } := by
  obtain ⟨found, hfound, hname, htype, hoptions⟩ := LinkedColumn.matchStart?_column h
  have hother : (Grammar.otherConstraint.matchStart? column.text).isSome = false := by
    rw [LinkedColumn.matchStart?_otherConstraint h]
    rfl
  have hreading := (readPart_eq_ok_iff draft _ _).mpr ⟨(LinkedColumn.solid h).ne_nil,
    .column (LinkedColumn.matchStart?_key h (by decide) (by decide) (by decide))
      (LinkedColumn.matchStart?_key h (by decide) (by decide) (by decide)) hother hfound
      (by rw [hname, h.noConstraint])⟩
  rw [hreading, hoptions, LinkedColumn.addColumn_of_text h hname htype]

/-! ### Columns with marks only -/

section

variable {column : Column}

theorem Column.clauses_linked (column : Column) :
    column.linked.clauses.flatMap Clause.text = column.marks.flatMap Mark.text := by
  unfold Column.linked
  rw [List.flatMap_map]
  rfl

theorem Column.isMarked_linked (column : Column) (mark : Mark) :
    column.linked.isMarked mark = column.marks.contains mark := by
  unfold LinkedColumn.isMarked Column.linked
  rw [List.any_map, List.contains_eq_any_beq]
  rfl

theorem Column.reference?_linked (column : Column) : column.linked.reference? = none := by
  unfold LinkedColumn.reference? Column.linked
  rw [List.findSome?_eq_none_iff]
  intro clause hclause
  obtain ⟨mark, -, rfl⟩ := List.mem_map.mp hclause
  rfl

/-- The column as it is read, before any key is applied to it. -/
def Column.plain (column : Column) : Er.Column :=
  { name := column.name.name, type := column.type.text
    isNullable := !column.marks.contains .notNull }

theorem Column.plain_linked (column : Column) : column.linked.plain = column.plain := by
  unfold LinkedColumn.plain Column.plain
  rw [column.isMarked_linked]
  rfl

theorem Column.matchStart?_otherConstraint (h : column.WellFormed) :
    Grammar.otherConstraint.matchStart? column.text = none :=
  column.text_linked ▸ LinkedColumn.matchStart?_otherConstraint h.linked

/-- A written column is matched with its name, its type and its marks. -/
theorem matchStart?_column (h : column.WellFormed) :
    ∃ found, Grammar.column.matchStart? column.text = some found ∧
      found.text .name = column.name.name ∧ found.text .type = column.type.text ∧
      found.text .options = column.marks.flatMap Mark.text := by
  rw [← column.text_linked, ← column.clauses_linked]
  exact LinkedColumn.matchStart?_column h.linked

/-- A column that is found with its name, its type and its marks is added as it was written, and its
name to the primary key if it is marked. -/
theorem addColumn_of_text {draft : Draft} {found : Match Slot} (h : column.WellFormed)
    (hname : found.text .name = column.name.name) (htype : found.text .type = column.type.text) :
    draft.addColumn found (column.marks.flatMap Mark.text) = { draft with
      columns := draft.columns ++ [column.plain]
      primaryKeys := draft.primaryKeys ++
        if column.marks.contains .primaryKey then [column.name.name] else [] } := by
  rw [← column.clauses_linked, LinkedColumn.addColumn_of_text h.linked hname htype,
    column.plain_linked, LinkedColumn.primaryNames_keys, LinkedColumn.references_keys,
    column.isMarked_linked, column.reference?_linked]
  simp [Column.linked]

/-- Reading a written column adds it to a draft, and its name to the primary key if it is marked. -/
theorem readPart_column (draft : Draft) (h : column.WellFormed) :
    readPart draft column.text = .ok { draft with
      columns := draft.columns ++ [column.plain]
      primaryKeys := draft.primaryKeys ++
        if column.marks.contains .primaryKey then [column.name.name] else [] } := by
  rw [← column.text_linked, LinkedColumn.readPart draft h.linked, column.plain_linked,
    LinkedColumn.primaryNames_keys, LinkedColumn.references_keys, column.isMarked_linked,
    column.reference?_linked]
  simp [Column.linked]

end

end Diagrams.Schema.Written
