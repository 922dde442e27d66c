/-
What the scans over a written script see.

Three scans go over a script before any pattern does: statements end at semicolons, a list ends at
the bracket that closes it, and parts end at commas.  Written tables hold no semicolons, their
quotes and brackets are closed for both kinds of quote characters that these scans know, and neither
statements nor parts start or end with a blank.  So a written script falls into its tables
(`statements_script`), and nothing in it is taken for a comment (`stripComments_semicolon`).
-/
import Diagrams.Proofs.Schema.Written

namespace Diagrams.Schema.Written

/-! ### Texts without blanks at their ends -/

theorem Name.solid {written : Name} (h : isIdentifier written.name = true) : Solid written.text :=
  .of_forall (Name.ne_nil h) fun c hc => isBlank_of_isNameChar (Name.isNameChar h c hc)

theorem solid_bracketed (inner : Text) : Solid (bracketed inner) :=
  ⟨⟨'(', _, rfl, by decide⟩, ⟨'(' :: inner, ')', rfl, by decide⟩⟩

theorem DataType.solid {type : DataType} (h : type.WellFormed) : Solid type.text := by
  have hword : Solid type.word :=
    solid_word (ne_nil_of_isIdentifier h.word) (isWordChar_of_isIdentifier h.word)
  unfold DataType.text
  cases hlengths : type.lengths with
  | nil => simpa using hword
  | cons length lengths => exact hword.append [] (solid_bracketed _)

theorem Mark.isLetters_words (mark : Mark) :
    isLetters mark.words.1 = true ∧ isLetters mark.words.2 = true := by
  cases mark <;> decide

theorem Clause.isLetters_word (clause : Clause) : isLetters clause.word = true := by
  cases clause with
  | mark mark => exact mark.isLetters_words.1
  | reference target column =>
      show isLetters "REFERENCES" = true
      decide

theorem Clause.solid_behind {clause : Clause} (h : clause.WellFormed) : Solid clause.behind := by
  cases clause with
  | mark mark => exact solid_letters mark.isLetters_words.2
  | reference target column => exact (Name.solid h.1).append [] (solid_bracketed _)

theorem Clause.exists_solid {clause : Clause} (h : clause.WellFormed) :
    ∃ text, clause.text = ' ' :: text ∧ Solid text :=
  ⟨_, rfl, (solid_letters clause.isLetters_word).append [' '] (Clause.solid_behind h)⟩

theorem LinkedColumn.solid {column : LinkedColumn} (h : column.WellFormed) : Solid column.text := by
  have hname : Solid column.name.text := Name.solid h.name
  have htype : Solid column.type.text := DataType.solid h.type
  unfold LinkedColumn.text
  rcases List.eq_nil_or_concat column.clauses with hnone | ⟨clauses, clause, hclauses⟩
  · rw [hnone, List.flatMap_nil, List.append_nil]
    exact hname.append [' '] htype
  · obtain ⟨text, htext, hsolid⟩ := Clause.exists_solid (h.clauses clause (by simp [hclauses]))
    have hclause := hname.append
      (' ' :: (column.type.text ++ (clauses.flatMap Clause.text ++ [' ']))) hsolid
    rw [hclauses, List.concat_eq_append, List.flatMap_append, List.flatMap_singleton, htext]
    simpa using hclause

theorem Column.solid {column : Column} (h : column.WellFormed) : Solid column.text :=
  column.text_linked ▸ LinkedColumn.solid h.linked

theorem Key.solid (key : Key) : Solid key.text := by
  cases key with
  | primary columns =>
      have hword : isLetters "PRIMARY" = true := by decide
      exact (solid_letters hword).append (' ' :: spaced ["KEY"]) (solid_bracketed _)
  | foreign columns target targetColumns =>
      have hword : isLetters "FOREIGN" = true := by decide
      have hkey := (solid_letters hword).append
        (' ' :: (spaced ["KEY"] ++ (bracketed (nameList columns) ++
          ' ' :: (spaced ["REFERENCES"] ++ target.text))))
            (solid_bracketed (nameList targetColumns))
      simpa only [Key.text, spaced, List.append_assoc, List.cons_append, List.nil_append] using hkey

theorem Table.solid_part {table : Table} (h : table.WellFormed) :
    ∀ part ∈ table.parts, Solid part := by
  intro part hpart
  rcases List.mem_append.mp hpart with hmem | hmem
  · obtain ⟨column, hcolumn, rfl⟩ := List.mem_map.mp hmem
    exact Column.solid (h.columns column hcolumn)
  · obtain ⟨key, -, rfl⟩ := List.mem_map.mp hmem
    exact key.solid

/-- A statement that declares a table, whatever stands in its list. -/
theorem solid_create (name : Name) (inner : Text) :
    Solid (spaced ["CREATE", "TABLE"] ++ (name.text ++ ' ' :: bracketed inner)) := by
  have hword : isLetters "CREATE" = true := by decide
  have hbody := (solid_letters hword).append
    (' ' :: (spaced ["TABLE"] ++ (name.text ++ [' ']))) (solid_bracketed inner)
  simpa only [spaced, List.append_assoc, List.cons_append, List.nil_append] using hbody

/-! ### Closed quotes and brackets -/

/-- A kind of quote characters that leaves words and what separates them alone. -/
structure QuotesApart (isQuote : Char → Bool) : Prop where
  word : ∀ c, isWordChar c = true → isQuote c = false
  space : isQuote ' ' = false
  comma : isQuote ',' = false
  left : isQuote '[' = false
  right : isQuote ']' = false

theorem quotesApart_listScan : QuotesApart ListScan.isQuote := by
  refine ⟨fun c hc => ?_, rfl, rfl, rfl, rfl⟩
  by_contra hquote
  have hmark := Bool.eq_true_of_not_eq_false hquote
  simp only [ListScan.isQuote, Bool.or_eq_true, beq_iff_eq] at hmark
  rcases hmark with rfl | rfl <;> exact absurd hc (by decide)

theorem quotesApart_brackets : QuotesApart Brackets.isQuote := by
  refine ⟨fun c hc => ?_, rfl, rfl, rfl, rfl⟩
  by_contra hquote
  have hmark := Bool.eq_true_of_not_eq_false hquote
  simp only [Brackets.isQuote, Bool.or_eq_true, beq_iff_eq] at hmark
  rcases hmark with (rfl | rfl) | rfl <;> exact absurd hc (by decide)

section

variable {isQuote : Char → Bool}

/-- A part as a scan sees it: closed quotes and brackets, and commas inside of them only. -/
abbrev Uncut (isQuote : Char → Bool) (text : Text) : Prop :=
  Nested .round isQuote (· == ',') text

theorem ne_of_isWordChar {c d : Char} (hc : isWordChar c = true) (hd : isWordChar d = false) :
    c ≠ d := by
  rintro rfl
  rw [hc] at hd
  exact Bool.noConfusion hd

theorem uncut_word (hquotes : QuotesApart isQuote) {word : Text}
    (h : ∀ c ∈ word, isWordChar c = true) : Uncut isQuote word := by
  refine .of_forall fun c hc => ⟨hquotes.word c (h c hc), ?_, ?_, ?_, ?_⟩
  · exact ne_of_isWordChar (h c hc) (by decide)
  · exact ne_of_isWordChar (h c hc) (by decide)
  · exact ne_of_isWordChar (h c hc) (by decide)
  · simpa using ne_of_isWordChar (h c hc) (d := ',') (by decide)

/-- A word between two marks, whether the scan takes them for quotes or not. -/
theorem uncut_marked (hquotes : QuotesApart isQuote) {word : Text} {mark : Char}
    (hmark : mark = '\x60' ∨ mark = '"') (h : ∀ c ∈ word, isWordChar c = true) :
    Uncut isQuote (mark :: (word ++ [mark])) := by
  have hplain : mark ≠ '(' ∧ mark ≠ ')' ∧ mark ≠ '\\' ∧ (mark == ',') = false ∧
      isWordChar mark = false := by
    rcases hmark with rfl | rfl <;> decide
  obtain ⟨hopening, hclosing, hslash, hcomma, hword⟩ := hplain
  cases hquote : isQuote mark with
  | true =>
      exact .quoted hquote hslash (fun c hc => ⟨ne_of_isWordChar (h c hc) hword,
        ne_of_isWordChar (h c hc) (by decide)⟩) .nil
  | false =>
      have hend : Uncut isQuote [mark] := .plain hquote hopening hclosing hslash hcomma .nil
      exact .plain hquote hopening hclosing hslash hcomma ((uncut_word hquotes h).append hend)

theorem Name.uncut (hquotes : QuotesApart isQuote) {written : Name}
    (h : isIdentifier written.name = true) : Uncut isQuote written.text := by
  obtain ⟨name, quotes⟩ := written
  have hword := isWordChar_of_isIdentifier h
  cases quotes with
  | none => simpa [Name.text, Quotes.opening, Quotes.closing] using uncut_word hquotes hword
  | backticks => exact uncut_marked hquotes (.inl rfl) hword
  | doubleQuotes => exact uncut_marked hquotes (.inr rfl) hword
  | brackets =>
      have hend : Uncut isQuote [']'] :=
        .plain hquotes.right (by decide) (by decide) (by decide) rfl .nil
      exact .plain hquotes.left (by decide) (by decide) (by decide) rfl
        ((uncut_word hquotes hword).append hend)

/-- Texts with commas between them, as they stand inside of brackets. -/
theorem nested_joined (hquotes : QuotesApart isQuote) {separator : Text}
    (hseparator : separator = [','] ∨ separator = partSeparator) {texts : List Text}
    (h : ∀ text ∈ texts, Uncut isQuote text) :
    Nested .round isQuote (fun _ => false) (Text.joined separator texts) := by
  have hcomma : Nested .round isQuote (fun _ => false) separator := by
    have hspace : Nested .round isQuote (fun _ => false) [' '] :=
      .plain hquotes.space (by decide) (by decide) (by decide) rfl .nil
    rcases hseparator with rfl | rfl
    · exact .plain hquotes.comma (by decide) (by decide) (by decide) rfl .nil
    · exact .plain hquotes.comma (by decide) (by decide) (by decide) rfl hspace
  induction texts with
  | nil => exact .nil
  | cons text texts ih =>
      obtain ⟨htext, htexts⟩ := List.forall_mem_cons.mp h
      have hinside : Nested .round isQuote (fun _ => false) text := htext.mono fun _ _ => rfl
      cases texts with
      | nil => simpa using hinside
      | cons next others =>
          rw [Text.joined_cons_cons]
          exact hinside.append (hcomma.append (ih htexts))

theorem uncut_bracketed {inner : Text} (h : Nested .round isQuote (fun _ => false) inner) :
    Uncut isQuote (bracketed inner) := .group h .nil

theorem DataType.uncut (hquotes : QuotesApart isQuote) {type : DataType} (h : type.WellFormed) :
    Uncut isQuote type.text := by
  have hword := uncut_word hquotes (isWordChar_of_isIdentifier h.word)
  unfold DataType.text
  by_cases hnone : type.lengths.isEmpty = true
  · rw [if_pos hnone, List.append_nil]
    exact hword
  · rw [if_neg hnone]
    refine hword.append (uncut_bracketed (nested_joined hquotes (.inl rfl) ?_))
    exact fun length hlength =>
      uncut_word hquotes (isWordChar_of_length (h.lengths length hlength).2)

theorem nested_nameList (hquotes : QuotesApart isQuote) {names : List Name}
    (h : NamesWellFormed names) : Nested .round isQuote (fun _ => false) (nameList names) := by
  refine nested_joined hquotes (.inr rfl) fun text htext => ?_
  obtain ⟨written, hwritten, rfl⟩ := List.mem_map.mp htext
  exact Name.uncut hquotes (h.names written hwritten)

theorem uncut_space (hquotes : QuotesApart isQuote) : Uncut isQuote [' '] :=
  .plain hquotes.space (by decide) (by decide) (by decide) rfl .nil

theorem uncut_letters (hquotes : QuotesApart isQuote) {word : String} (h : isLetters word = true) :
    Uncut isQuote word.toList := by
  refine uncut_word hquotes fun c hc => ?_
  have hletter := List.all_eq_true.mp (Bool.and_eq_true_iff.mp h).2 c hc
  exact isWordChar_of_isAlphanum (isAlphanum_of_isAlpha hletter)

theorem uncut_spaced (hquotes : QuotesApart isQuote) {words : List String}
    (h : words.all isLetters = true) : Uncut isQuote (spaced words) := by
  induction words with
  | nil => exact .nil
  | cons word words ih =>
      rw [List.all_cons, Bool.and_eq_true] at h
      exact (uncut_letters hquotes h.1).append ((uncut_space hquotes).append (ih h.2))

theorem uncut_nameList (hquotes : QuotesApart isQuote) {names : List Name}
    (h : NamesWellFormed names) : Uncut isQuote (bracketed (nameList names)) :=
  uncut_bracketed (nested_nameList hquotes h)

theorem Clause.uncut (hquotes : QuotesApart isQuote) {clause : Clause} (h : clause.WellFormed) :
    Uncut isQuote clause.text := by
  have hbehind : Uncut isQuote clause.behind := by
    cases clause with
    | mark mark => exact uncut_letters hquotes mark.isLetters_words.2
    | reference target column =>
        exact (Name.uncut hquotes h.1).append (uncut_nameList hquotes (.singleton h.2))
  exact (uncut_space hquotes).append ((uncut_letters hquotes clause.isLetters_word).append
    ((uncut_space hquotes).append hbehind))

theorem LinkedColumn.uncut (hquotes : QuotesApart isQuote) {column : LinkedColumn}
    (h : column.WellFormed) : Uncut isQuote column.text := by
  have hclauses : ∀ clauses : List Clause, (∀ clause ∈ clauses, clause.WellFormed) →
      Uncut isQuote (clauses.flatMap Clause.text) := by
    intro clauses hclauses
    induction clauses with
    | nil => exact .nil
    | cons clause clauses ih =>
        obtain ⟨hclause, hothers⟩ := List.forall_mem_cons.mp hclauses
        exact (Clause.uncut hquotes hclause).append (ih hothers)
  exact (Name.uncut hquotes h.name).append ((uncut_space hquotes).append
    ((DataType.uncut hquotes h.type).append (hclauses column.clauses h.clauses)))

theorem Column.uncut (hquotes : QuotesApart isQuote) {column : Column} (h : column.WellFormed) :
    Uncut isQuote column.text :=
  column.text_linked ▸ LinkedColumn.uncut hquotes h.linked

theorem Key.uncut (hquotes : QuotesApart isQuote) {key : Key} (h : key.WellFormed) :
    Uncut isQuote key.text := by
  cases key with
  | primary columns => exact (uncut_spaced hquotes (by decide)).append (uncut_nameList hquotes h)
  | foreign columns target targetColumns =>
      obtain ⟨hcolumns, htarget, htargetColumns⟩ := h
      have hword : ["REFERENCES"].all isLetters = true := by decide
      have htail := (uncut_spaced hquotes hword).append
        ((Name.uncut hquotes htarget).append (uncut_nameList hquotes htargetColumns))
      exact (uncut_spaced hquotes (by decide)).append
        ((uncut_nameList hquotes hcolumns).append ((uncut_space hquotes).append htail))

theorem Table.uncut_part (hquotes : QuotesApart isQuote) {table : Table} (h : table.WellFormed) :
    ∀ part ∈ table.parts, Uncut isQuote part := by
  intro part hpart
  rcases List.mem_append.mp hpart with hmem | hmem
  · obtain ⟨column, hcolumn, rfl⟩ := List.mem_map.mp hmem
    exact Column.uncut hquotes (h.columns column hcolumn)
  · obtain ⟨key, hkey, rfl⟩ := List.mem_map.mp hmem
    exact Key.uncut hquotes (h.keys key hkey)

end

/-! ### The characters of a script -/

/-- A text of characters that scripts are written with. -/
def AllWritten (text : Text) : Prop := ∀ c ∈ text, isWritten c = true

namespace AllWritten

variable {front rest text : Text}

theorem append (h : AllWritten front) (hrest : AllWritten rest) : AllWritten (front ++ rest) := by
  intro c hc
  rcases List.mem_append.mp hc with hc | hc
  · exact h c hc
  · exact hrest c hc

theorem cons {c : Char} (hc : isWritten c = true) (hrest : AllWritten rest) :
    AllWritten (c :: rest) := List.forall_mem_cons.mpr ⟨hc, hrest⟩

theorem nil : AllWritten [] := fun _ hc => absurd hc List.not_mem_nil

theorem word (h : ∀ c ∈ text, isWordChar c = true) : AllWritten text :=
  fun c hc => isWritten_of_isWordChar (h c hc)

theorem letters {word : String} (h : isLetters word = true) : AllWritten word.toList := by
  refine AllWritten.word fun c hc => ?_
  have hletter := List.all_eq_true.mp (Bool.and_eq_true_iff.mp h).2 c hc
  exact isWordChar_of_isAlphanum (isAlphanum_of_isAlpha hletter)

theorem spaced {words : List String} (h : words.all isLetters = true) :
    AllWritten (spaced words) := by
  induction words with
  | nil => exact nil
  | cons word words ih =>
      rw [List.all_cons, Bool.and_eq_true] at h
      exact (letters h.1).append (cons (by decide) (ih h.2))

theorem bracketed (h : AllWritten text) : AllWritten (bracketed text) :=
  cons (by decide) (h.append (cons (by decide) nil))

theorem joined {separator : Text} (hseparator : AllWritten separator) {texts : List Text}
    (h : ∀ text ∈ texts, AllWritten text) : AllWritten (Text.joined separator texts) :=
  Text.forall_mem_joined hseparator h

end AllWritten

theorem allWritten_comma : AllWritten [','] := .cons (by decide) .nil

theorem allWritten_partSeparator : AllWritten partSeparator :=
  .cons (by decide) (.cons (by decide) .nil)

theorem allWritten_nameList {names : List Name} (h : NamesWellFormed names) :
    AllWritten (nameList names) := by
  refine .joined allWritten_partSeparator fun text htext => ?_
  obtain ⟨written, hwritten, rfl⟩ := List.mem_map.mp htext
  exact Name.isWritten (h.names written hwritten)

theorem DataType.allWritten {type : DataType} (h : type.WellFormed) : AllWritten type.text := by
  have hword : AllWritten type.word := .word (isWordChar_of_isIdentifier h.word)
  unfold DataType.text
  by_cases hnone : type.lengths.isEmpty = true
  · rw [if_pos hnone, List.append_nil]
    exact hword
  · rw [if_neg hnone]
    refine hword.append (.bracketed (.joined allWritten_comma fun length hlength => ?_))
    exact .word (isWordChar_of_length (h.lengths length hlength).2)

theorem Clause.allWritten {clause : Clause} (h : clause.WellFormed) : AllWritten clause.text := by
  have hbehind : AllWritten clause.behind := by
    cases clause with
    | mark mark => exact .letters mark.isLetters_words.2
    | reference target column =>
        have htarget : AllWritten target.text := Name.isWritten h.1
        exact htarget.append (.bracketed (allWritten_nameList (.singleton h.2)))
  exact .cons (by decide) ((AllWritten.letters clause.isLetters_word).append
    (.cons (by decide) hbehind))

theorem LinkedColumn.allWritten {column : LinkedColumn} (h : column.WellFormed) :
    AllWritten column.text := by
  have hclauses : AllWritten (column.clauses.flatMap Clause.text) := by
    intro c hc
    obtain ⟨clause, hclause, hc⟩ := List.mem_flatMap.mp hc
    exact Clause.allWritten (h.clauses clause hclause) c hc
  have hname : AllWritten column.name.text := Name.isWritten h.name
  exact hname.append (.cons (by decide) ((DataType.allWritten h.type).append hclauses))

theorem Column.allWritten {column : Column} (h : column.WellFormed) : AllWritten column.text :=
  column.text_linked ▸ LinkedColumn.allWritten h.linked

theorem Key.allWritten {key : Key} (h : key.WellFormed) : AllWritten key.text := by
  cases key with
  | primary columns =>
      exact (AllWritten.spaced (by decide)).append (.bracketed (allWritten_nameList h))
  | foreign columns target targetColumns =>
      obtain ⟨hcolumns, htarget, htargetColumns⟩ := h
      have hname : AllWritten target.text := Name.isWritten htarget
      have htail := hname.append (.bracketed (allWritten_nameList htargetColumns))
      exact (AllWritten.spaced (by decide)).append ((AllWritten.bracketed
        (allWritten_nameList hcolumns)).append (.cons (by decide)
          ((AllWritten.spaced (by decide)).append htail)))

theorem allWritten_create {name : Name} (hname : isIdentifier name.name = true) {parts : List Text}
    (h : ∀ part ∈ parts, AllWritten part) :
    AllWritten (spaced ["CREATE", "TABLE"] ++
      (name.text ++ ' ' :: bracketed (Text.joined partSeparator parts))) := by
  have hwritten : AllWritten name.text := Name.isWritten hname
  exact (AllWritten.spaced (by decide)).append (hwritten.append (.cons (by decide)
    (.bracketed (.joined allWritten_partSeparator h))))

theorem Table.allWritten_body {table : Table} (h : table.WellFormed) : AllWritten table.body := by
  refine allWritten_create h.name fun part hpart => ?_
  rcases List.mem_append.mp hpart with hmem | hmem
  · obtain ⟨column, hcolumn, rfl⟩ := List.mem_map.mp hmem
    exact Column.allWritten (h.columns column hcolumn)
  · obtain ⟨key, hkey, rfl⟩ := List.mem_map.mp hmem
    exact Key.allWritten (h.keys key hkey)

/-! ### Statements -/

theorem AllWritten.ne_semicolon {text : Text} (h : AllWritten text) : ∀ c ∈ text, c ≠ ';' := by
  rintro c hc rfl
  exact absurd (h _ hc) (by decide)

/-- A written script falls into its tables. -/
theorem statements_script {tables : List Table} (h : ∀ table ∈ tables, table.WellFormed) :
    statements (script tables) = tables.map fun table => table.body ++ [';'] := by
  have hsolid : ∀ table : Table, Solid table.body := fun table => solid_create table.name _
  exact statements_flatMap Table.body tables
    (fun table htable => (Table.allWritten_body (h table htable)).ne_semicolon)
    (fun table _ => (hsolid table).ne_nil) (fun table _ => (hsolid table).head?)
    (fun table _ => (hsolid table).getLast?)

/-- What is written has no comments. -/
theorem stripComments_semicolon {text : Text} (h : AllWritten text) :
    stripComments (text ++ [';']) = text ++ [';'] := by
  refine stripComments_eq_self fun c hc => ?_
  rcases List.mem_append.mp hc with hc | hc
  · have hwritten := h c hc
    constructor
    · rintro rfl
      exact absurd hwritten (by decide)
    · rintro rfl
      exact absurd hwritten (by decide)
  · rw [List.mem_singleton.mp hc]
    decide

theorem stripComments_body {table : Table} (h : table.WellFormed) :
    stripComments (table.body ++ [';']) = table.body ++ [';'] :=
  stripComments_semicolon (Table.allWritten_body h)

end Diagrams.Schema.Written
