/-
Text between quotes is data.

`QuotedOption` is a script with a place for a literal in the options of a column.  The diagram of
the script does not depend on what is put there, as long as it is inert: the words by which an
option or a key is told and the marks of comments are found between quotes too.
-/
import Diagrams.Proofs.Schema.LiteralTable
import Diagrams.Proofs.Schema.Skipped

namespace Diagrams.Schema

/-! ### One statement of a script -/

/-- A text that ends where statements end goes in front of another statement as a whole. -/
theorem exists_statements_between {earlier later : Text}
    (hearlier : ∀ c ∈ earlier.getLast?, c = ';') (hlater : ∀ c ∈ later.head?, c = ';') :
    ∃ before after, ∀ fragment : Text, ';' ∉ fragment → fragment.isBlankText = false →
      statements (earlier ++ (fragment ++ later))
        = before ++ (fragment.trim ++ [';']) :: after := by
  have hfragment : ∀ fragment : Text, ';' ∉ fragment → fragment.isBlankText = false →
      statements fragment = [fragment.trim ++ [';']] := by
    intro fragment hend hblank
    rw [statements_of_unended fun c hc heq => hend (heq ▸ hc), hblank]
    rfl
  have hbehind : ∃ after, ∀ fragment : Text, ';' ∉ fragment → fragment.isBlankText = false →
      statements (fragment ++ later) = (fragment.trim ++ [';']) :: after := by
    cases later with
    | nil =>
        exact ⟨[],
          fun fragment hend hblank => by rw [List.append_nil, hfragment fragment hend hblank]⟩
    | cons c later =>
        obtain rfl : c = ';' := hlater c rfl
        exact ⟨statements later, fun fragment hend hblank => by
          rw [statements_append, hfragment fragment hend hblank]
          rfl⟩
  obtain ⟨after, hafter⟩ := hbehind
  rcases List.eq_nil_or_concat earlier with rfl | ⟨earlier, c, rfl⟩
  · exact ⟨[], after, hafter⟩
  · obtain rfl : c = ';' := hearlier c (by simp)
    refine ⟨statements earlier, after, fun fragment hend hblank => ?_⟩
    rw [List.concat_eq_append, List.append_assoc, List.singleton_append, statements_append,
      hafter fragment hend hblank]

/-- A script with a place for a literal in the options of a column. -/
structure QuotedOption where
  /-- The statements in front. -/
  earlier : Text
  /-- The statement up to the literal. -/
  front : Text
  /-- The statement behind the literal. -/
  rest : Text
  /-- The statements behind. -/
  later : Text
  /-- What is left of `front` up to its first bracket when comments are removed. -/
  head : Text
  /-- What is left of `front` behind this bracket. -/
  list : Text
  earlier_ends : ∀ c ∈ earlier.getLast?, c = ';'
  later_begins : ∀ c ∈ later.head?, c = ';'
  front_whole : ';' ∉ front
  rest_whole : ';' ∉ rest
  comments : CommentsClosed (front.dropStart isBlank)
  stripped : stripComments (front.dropStart isBlank) = head ++ '(' :: list
  inOptions : InOptions head list

namespace QuotedOption

variable (option : QuotedOption) {text text' : Text}

/-- The script with a text in the literal. -/
def script (text : Text) : Text :=
  option.earlier ++ (option.front ++ (literal text ++ option.rest) ++ option.later)

/-- The statement without comments. -/
def bare (text : Text) : Text :=
  option.head ++ '(' :: (option.list ++
    (literal text ++ stripComments (option.rest.dropEnd isBlank ++ [';'])))

/-- The statement as the script has it. -/
theorem stripComments_statement (hblock : ¬ ['/', '*'] <:+: text) (hline : ¬ ['-', '-'] <:+: text) :
    stripComments ((option.front ++ (literal text ++ option.rest)).trim ++ [';'])
      = option.bare text := by
  have htrim : Text.trim (option.front ++ (literal text ++ option.rest))
      = option.front.dropStart isBlank ++ (literal text ++ option.rest.dropEnd isBlank) := by
    rw [literal_append, Text.trim_append_cons (by decide), Text.dropEnd_append_cons (by decide),
      literal_append]
  rw [htrim, List.append_assoc, List.append_assoc, ← List.append_assoc,
    stripComments_literal option.comments hblock hline, option.stripped, bare]
  simp

theorem semicolon_not_mem_statement (hx : Quotable text) :
    ';' ∉ option.front ++ (literal text ++ option.rest) := by
  have htext : ';' ∉ text := fun hmem => (hx ';' hmem).2.2 rfl
  simp [literal, option.front_whole, option.rest_whole, htext]

theorem isBlankText_statement (text : Text) :
    (option.front ++ (literal text ++ option.rest)).isBlankText = false := by
  have hquote : isBlank '\x27' = false := by decide
  simp [Text.isBlankText, literal, hquote]

theorem change?_statement (hinert : Inert text) :
    change? ((option.front ++ (literal text ++ option.rest)).trim ++ [';']) = none := by
  rw [change?, option.stripComments_statement hinert.block hinert.line, bare,
    option.inOptions.matchStart?_alterTable]
  rfl

/-- The statement declares the same table whatever stands in an inert literal, and changes none. -/
theorem declared?_statement (hx : Quotable text) (hy : Quotable text') (hinert : Inert text)
    (hinert' : Inert text') :
    declared? ((option.front ++ (literal text ++ option.rest)).trim ++ [';'])
      = declared? ((option.front ++ (literal text' ++ option.rest)).trim ++ [';']) := by
  rw [declared?_of_no_change (option.change?_statement hinert),
    declared?_of_no_change (option.change?_statement hinert'),
    option.stripComments_statement hinert.block hinert.line,
    option.stripComments_statement hinert'.block hinert'.line]
  exact definition?_literal option.inOptions hx hy hinert hinert' _

/-- **The diagram of a script does not depend on what stands between the quotes of an option**,
unless it has a mark of a comment in it or words that are looked for. -/
theorem diagram_read_script (hx : Quotable text) (hy : Quotable text') (hinert : Inert text)
    (hinert' : Inert text') (title : Text) (grid : Option Er.Grid) :
    (read (option.script text) title grid).diagram
      = (read (option.script text') title grid).diagram := by
  obtain ⟨before, after, hstatements⟩ :=
    exists_statements_between option.earlier_ends option.later_begins
  refine diagram_read_congr ?_ grid
  unfold readStatements script
  rw [hstatements _ (option.semicolon_not_mem_statement hx) (option.isBlankText_statement text),
    hstatements _ (option.semicolon_not_mem_statement hy) (option.isBlankText_statement text'),
    List.foldl_append, List.foldl_append, List.foldl_cons, List.foldl_cons]
  have hbefore : Progress.SameTables
      (before.foldl Progress.readStatement { diagram := .empty title })
      (before.foldl Progress.readStatement { diagram := .empty title }) := ⟨rfl, rfl⟩
  refine Progress.SameTables.foldl_readStatement ?_ after
  exact hbefore.readStatement_congr (option.declared?_statement hx hy hinert hinert')
    ((option.change?_statement hinert).trans (option.change?_statement hinert').symm)

theorem inOptions_remark : InOptions "CREATE TABLE t ".toList "a INT COMMENT ".toList where
  table := by decide
  bracket := by decide
  unclosed := by decide
  brackets := ⟨by decide, by decide⟩
  parts := ⟨by decide, by decide⟩
  lists := .of_forall_places (by decide +kernel)
  type := .of_forall_places (by decide +kernel)

/-- A column with a remark. -/
def remark : QuotedOption where
  earlier := []
  front := "CREATE TABLE t (a INT COMMENT ".toList
  rest := ")".toList
  later := ";".toList
  head := "CREATE TABLE t ".toList
  list := "a INT COMMENT ".toList
  earlier_ends := by simp
  later_begins := by simp
  front_whole := by decide
  rest_whole := by decide
  comments := .of_unmarked (by decide) (by decide)
  stripped := by decide
  inOptions := inOptions_remark

theorem diagram_read_script_remark :
    (read (remark.script "must not be null".toList) defaultTitle none).diagram
      = (read (remark.script "key (see below), or\tREFERENCE".toList) defaultTitle
        none).diagram := by
  have hinert : Inert "must not be null".toList := ⟨by decide, by decide, by decide⟩
  have hinert' : Inert "key (see below), or\tREFERENCE".toList := ⟨by decide, by decide, by decide⟩
  exact remark.diagram_read_script (by decide) (by decide) hinert hinert' _ _

/-- The words of an option are found in a remark: it may say that a column must not be null. -/
theorem diagram_read_script_telling :
    (∀ c ∈ "must be NOT NULL".toList ++ "may be empty".toList,
      c ∉ ['\x27', '"', '\x60', '\\', ';', '\n']) ∧
      (read (remark.script "must be NOT NULL".toList) defaultTitle none).diagram
        ≠ (read (remark.script "may be empty".toList) defaultTitle none).diagram := by
  refine ⟨by simp, fun h => ?_⟩
  exact absurd (congrArg Er.Diagram.tables h) (by decide +kernel)

end QuotedOption

end Diagrams.Schema
