/-
How a script falls into statements.

Two equations tell the statements of every script.  A script without semicolons is one statement, or
none if it is blank (`statements_of_unended`), and two scripts with a semicolon between them fall
into the statements of both (`statements_append`).  Any script is put together in this way, so a
fact about statements is proved in these two cases (`script_induction`).

What comes out are texts that end at their only semicolon, and any list of such texts is what it
falls into when it is written as a script again (`statements_flatten_iff`).  On the way only blanks
and semicolons are lost (`substance_flatten_statements`).
-/
import Diagrams.Schema.Script
import Diagrams.Proofs.Text.Cutting

namespace Diagrams.Schema

variable {script fragment : Text}

/-! ### Cutting -/

theorem statements_of_unended (h : ∀ c ∈ fragment, c ≠ ';') :
    statements fragment = if fragment.isBlankText then [] else [fragment.trim ++ [';']] := by
  have hwhole : Text.splitWhere (· == ';') fragment = [fragment] :=
    Text.splitWhere_of_forall fun c hc => beq_eq_false_iff_ne.mpr (h c hc)
  unfold statements
  rw [hwhole]
  cases hblank : fragment.isBlankText <;> simp [hblank]

theorem statements_append (script other : Text) :
    statements (script ++ ';' :: other) = statements script ++ statements other := by
  have hcut : (';' == ';') = true := rfl
  have hsplit := Text.splitWhere_append_cons (p := (· == ';')) hcut script other
  unfold statements
  rw [hsplit, List.filter_append, List.map_append]

/-- A script has no semicolon, or it is cut at one of them into two shorter scripts. -/
theorem script_induction {P : Text → Prop}
    (unended : ∀ fragment, (∀ c ∈ fragment, c ≠ ';') → P fragment)
    (append : ∀ script other, P script → P other → P (script ++ ';' :: other)) (script : Text) :
    P script := by
  by_cases hmem : ';' ∈ script
  · obtain ⟨front, rest, hsplit⟩ := List.append_of_mem hmem
    rw [hsplit]
    exact append front rest (script_induction unended append front)
      (script_induction unended append rest)
  · exact unended script fun c hc heq => hmem (heq ▸ hc)
termination_by script.length
decreasing_by all_goals rw [hsplit, List.length_append, List.length_cons]; omega

/-! ### The form of a statement -/

/-- A text that ends at its only semicolon, with no blanks around what stands in front of it. -/
inductive IsStatement : Text → Prop
  | ended {body : Text} (unended : ∀ c ∈ body, c ≠ ';') (notBlank : body.isBlankText = false)
      (trimmed : body.trim = body) : IsStatement (body ++ [';'])

/-- What is left between the blanks at the ends of a text is a statement once it is ended. -/
theorem isStatement_trim (hunended : ∀ c ∈ fragment, c ≠ ';')
    (hfull : fragment.isBlankText = false) :
    IsStatement (fragment.trim ++ [';']) := by
  have hkept : ∀ c ∈ fragment.trim, c ≠ ';' := fun c hc => hunended c (Text.mem_of_mem_strip hc)
  exact .ended hkept ((Text.isBlankText_trim fragment).trans hfull) (Text.trim_trim fragment)

theorem isStatement_of_mem_statements {statement : Text} (h : statement ∈ statements script) :
    IsStatement statement := by
  induction script using script_induction with
  | unended fragment hunended =>
      rw [statements_of_unended hunended] at h
      split at h
      · exact absurd h List.not_mem_nil
      · rename_i hfull
        rw [List.mem_singleton.mp h]
        exact isStatement_trim hunended (Bool.eq_false_iff.mpr hfull)
  | append script other ih ih' =>
      rw [statements_append] at h
      exact (List.mem_append.mp h).elim ih ih'

/-- A statement in front of a script is the first one that the whole falls into. -/
theorem IsStatement.statements_cons {statement : Text} (h : IsStatement statement) (rest : Text) :
    statements (statement ++ rest) = statement :: statements rest := by
  cases h with
  | @ended body hunended hfull htrimmed =>
      have hbody : statements body = [body ++ [';']] := by
        rw [statements_of_unended hunended, hfull, htrimmed]
        rfl
      rw [List.append_assoc, List.singleton_append, statements_append, hbody, List.singleton_append]

/-- Statements that are written in a row are read in a row. -/
theorem statements_flatten_of_forall {items : List Text} (h : ∀ item ∈ items, IsStatement item) :
    statements items.flatten = items := by
  induction items with
  | nil => rfl
  | cons item items ih =>
      obtain ⟨hitem, hitems⟩ := List.forall_mem_cons.mp h
      rw [List.flatten_cons, hitem.statements_cons, ih hitems]

/-- The lists that a script can fall into are those of statements. -/
theorem statements_flatten_iff {items : List Text} :
    statements items.flatten = items ↔ ∀ item ∈ items, IsStatement item := by
  refine ⟨fun h item hitem => ?_, statements_flatten_of_forall⟩
  rw [← h] at hitem
  exact isStatement_of_mem_statements hitem

/-! ### What stays of a script -/

/-- The characters of a text that are neither blanks nor semicolons. -/
def substance (text : Text) : Text := text.filter fun c => !isBlank c && c != ';'

theorem substance_append (front rest : Text) :
    substance (front ++ rest) = substance front ++ substance rest :=
  List.filter_append front rest

theorem substance_of_blank (h : ∀ c ∈ fragment, isBlank c = true) : substance fragment = [] := by
  refine List.filter_eq_nil_iff.mpr fun c hc => ?_
  simp [h c hc]

theorem substance_trim (text : Text) : substance text.trim = substance text := by
  obtain ⟨front, back, hfront, hback, htext⟩ := Text.exists_trim text
  conv_rhs => rw [htext]
  rw [substance_append, substance_append, substance_of_blank hfront, substance_of_blank hback,
    List.nil_append, List.append_nil]

theorem substance_flatten_statements (script : Text) :
    substance (statements script).flatten = substance script := by
  have hsemicolon : substance [';'] = [] := by decide
  induction script using script_induction with
  | unended fragment hunended =>
      rw [statements_of_unended hunended]
      split
      · rename_i hblank
        exact (substance_of_blank (List.all_eq_true.mp hblank)).symm
      · rw [List.flatten_singleton, substance_append, hsemicolon, List.append_nil, substance_trim]
  | append script other ih ih' =>
      rw [statements_append, List.flatten_append, substance_append, ih, ih',
        ← List.singleton_append, substance_append, substance_append, hsemicolon, List.nil_append]

/-- **Nothing but blanks and semicolons is lost when a script is cut.**  Two scripts fall into the
statements of each, and the statements of a script, written in a row, fall into the same statements
and say what the script says. -/
theorem statements_lossless (script other : Text) :
    statements (script ++ ';' :: other) = statements script ++ statements other ∧
      (∀ statement ∈ statements script, IsStatement statement) ∧
      statements (statements script).flatten = statements script ∧
      substance (statements script).flatten = substance script := by
  have hform : ∀ statement ∈ statements script, IsStatement statement :=
    fun statement => isStatement_of_mem_statements
  exact ⟨statements_append script other, hform, statements_flatten_of_forall hform,
    substance_flatten_statements script⟩

/-- Semicolons between quotes end statements too, and the last statement needs none. -/
theorem statements_lossless_quoted :
    let script := "a b ;;\t;\n 'x;y'".toList
    statements script = ["a b;".toList, "'x;".toList, "y';".toList] ∧ IsStatement "'x;".toList ∧
      statements "a b;'x;y';".toList = statements script ∧
      substance "a b;'x;y';".toList = substance script := by
  intro script
  have hcut : statements script = ["a b;".toList, "'x;".toList, "y';".toList] := by decide
  obtain ⟨-, hform, hagain, hsubstance⟩ := statements_lossless script []
  have hflatten : (statements script).flatten = "a b;'x;y';".toList := by
    rw [hcut]
    rfl
  rw [hflatten] at hagain hsubstance
  exact ⟨hcut, hform _ (by simp [hcut]), hagain, hsubstance⟩

end Diagrams.Schema
