/-
A statement whose comments are stripped holds no comment.

Comments are removed in two passes, and removing something brings together what stood around it.
That makes no new mark: a block comment leaves a space, and a line comment leaves the line feed
that ends it or ends with the text, so what is kept in front of it is followed by neither.  Hence
two neighbours in the stripped text that are no line feeds were neighbours before, and a comment
in it would have been one then (`exists_mark`).  A text without comments has nothing to remove,
so stripping it once is enough.
-/
import Diagrams.Proofs.Schema.LineComments

namespace Diagrams.Schema

/-- A text in which no comment stands. -/
structure Uncommented (text : Text) : Prop where
  /-- No line comment begins. -/
  line : ¬ ['-', '-'] <:+: text
  /-- No block comment is closed behind the mark that opens it. -/
  block : Unclosed text

variable {inside : Bool} {text front rest : Text} {c d : Char}

/-! ### Block comments -/

/-- What is left of a text that starts inside of a block comment starts with the space for it. -/
theorem head?_dropBlockComments_true : ∀ c ∈ (dropBlockComments true text).head?, c = ' ' := by
  generalize hinside : true = inside
  fun_induction dropBlockComments inside text with
  | case1 inside => simp
  | case2 rest ih => exact fun c hc => (Option.some.inj hc).symm
  | case3 c rest hnone ih => exact ih rfl
  | case4 rest hcloses ih => exact ih rfl
  | case5 rest hcloses => exact absurd hinside (by decide)
  | case6 c rest hnone ih => exact absurd hinside (by decide)

/-- A star behind a removed comment would stand behind the space for it. -/
theorem head?_of_star (h : (dropBlockComments false text).head? = some '*') :
    text.head? = some '*' := by
  cases text with
  | nil => exact h
  | cons c rest =>
      by_cases hopen : c = '/' ∧ rest.head? = some '*'
      · obtain ⟨rfl, hrest⟩ := hopen
        obtain ⟨rest, rfl⟩ := List.head?_eq_some_iff.mp hrest
        rw [dropBlockComments] at h
        split at h
        · exact absurd (head?_dropBlockComments_true '*' h) (by decide)
        · exact absurd h (by simp)
      · rw [dropBlockComments_cons fun hc hrest => hopen ⟨hc, hrest⟩] at h
        exact h

theorem unclosed_dropBlockComments (inside : Bool) (text : Text) :
    Unclosed (dropBlockComments inside text) := by
  fun_induction dropBlockComments inside text with
  | case1 inside => exact .of_no_opening (by simp)
  | case2 rest ih => exact ih.cons fun hspace => absurd hspace (by decide)
  | case3 c rest hnone ih => exact ih
  | case4 rest hcloses ih => exact ih
  | case5 rest hcloses =>
      have hrest : ¬ ['*', '/'] <:+: rest := fun hmark => hcloses (closesComment_of_mark hmark)
      exact .of_opening hrest
  | case6 c rest hnone ih =>
      refine ih.cons ?_
      rintro rfl hstar
      obtain ⟨after, rfl⟩ := List.head?_eq_some_iff.mp (head?_of_star hstar)
      exact hnone after rfl rfl

/-! ### Line comments -/

/-- What is left of a text that starts inside of a line comment starts with the line feed behind
it. -/
theorem head?_dropLineComments_true : ∀ c ∈ (dropLineComments true text).head?, c = '\n' := by
  generalize hinside : true = inside
  fun_induction dropLineComments inside text with
  | case1 inside => simp
  | case2 rest ih => exact fun c hc => (Option.some.inj hc).symm
  | case3 c rest hnone ih => exact ih rfl
  | case4 rest ih => exact absurd hinside (by decide)
  | case5 c rest hnone ih => exact absurd hinside (by decide)

/-- A character that is kept stood in the text, outside of comments, and was no part of a mark. -/
theorem exists_kept (h : dropLineComments inside text = front ++ c :: rest) :
    ∃ front' rest', text = front' ++ c :: rest' ∧ rest = dropLineComments false rest' ∧
      (c = '-' → rest'.head? ≠ some '-') := by
  fun_induction dropLineComments inside text generalizing front with
  | case1 inside => simp at h
  | case2 text ih =>
      cases front with
      | nil =>
          obtain ⟨rfl, rfl⟩ := List.cons.inj h
          exact ⟨[], text, rfl, rfl, fun hc => absurd hc (by decide)⟩
      | cons e front =>
          obtain ⟨front', rest', rfl, hrest⟩ := ih (List.cons.inj h).2
          exact ⟨'\n' :: front', rest', rfl, hrest⟩
  | case3 e text hnone ih =>
      obtain ⟨front', rest', rfl, hrest⟩ := ih h
      exact ⟨e :: front', rest', rfl, hrest⟩
  | case4 text ih =>
      obtain ⟨front', rest', rfl, hrest⟩ := ih h
      exact ⟨'-' :: '-' :: front', rest', rfl, hrest⟩
  | case5 e text hnone ih =>
      cases front with
      | nil =>
          obtain ⟨rfl, rfl⟩ := List.cons.inj h
          refine ⟨[], text, rfl, rfl, ?_⟩
          rintro rfl hminus
          obtain ⟨after, rfl⟩ := List.head?_eq_some_iff.mp hminus
          exact hnone after rfl rfl
      | cons f front =>
          obtain ⟨front', rest', rfl, hrest⟩ := ih (List.cons.inj h).2
          exact ⟨e :: front', rest', rfl, hrest⟩

/-- What comes first outside of comments came first before, unless it is a line feed. -/
theorem exists_kept_first (h : dropLineComments false text = d :: rest) (hd : d ≠ '\n') :
    ∃ rest', text = d :: rest' ∧ rest = dropLineComments false rest' := by
  cases text with
  | nil => exact absurd h.symm (List.cons_ne_nil d rest)
  | cons c after =>
      by_cases hopen : c = '-' ∧ after.head? = some '-'
      · obtain ⟨rfl, hafter⟩ := hopen
        obtain ⟨after, rfl⟩ := List.head?_eq_some_iff.mp hafter
        rw [dropLineComments] at h
        exact absurd (head?_dropLineComments_true d (by rw [h]; rfl)) hd
      · rw [dropLineComments_cons fun hc hafter => hopen ⟨hc, hafter⟩] at h
        obtain ⟨rfl, rfl⟩ := List.cons.inj h
        exact ⟨after, rfl, rfl⟩

/-- Neighbours that are kept were neighbours before, unless the second one is a line feed. -/
theorem exists_mark (h : dropLineComments inside text = front ++ c :: d :: rest) (hd : d ≠ '\n') :
    ∃ front' rest', text = front' ++ c :: d :: rest' ∧ rest = dropLineComments false rest' ∧
      ¬ (c = '-' ∧ d = '-') := by
  obtain ⟨front', behind, rfl, hbehind, hminus⟩ := exists_kept h
  obtain ⟨rest', rfl, hrest⟩ := exists_kept_first hbehind.symm hd
  refine ⟨front', rest', rfl, hrest, ?_⟩
  rintro ⟨rfl, rfl⟩
  exact hminus rfl rfl

theorem no_line_dropLineComments (inside : Bool) (text : Text) :
    ¬ ['-', '-'] <:+: dropLineComments inside text := by
  rintro ⟨front, rest, hsplit⟩
  rw [List.append_assoc] at hsplit
  obtain ⟨-, -, -, -, hmark⟩ := exists_mark hsplit.symm (by decide)
  exact hmark ⟨rfl, rfl⟩

/-- Removing line comments completes no block comment. -/
theorem Unclosed.dropLineComments (h : Unclosed text) :
    Unclosed (dropLineComments inside text) := by
  rintro front rest hopening ⟨near, far, hclosing⟩
  obtain ⟨front', behind, rfl, rfl, -⟩ := exists_mark hopening (by decide)
  rw [List.append_assoc] at hclosing
  obtain ⟨near', far', rfl, -, -⟩ := exists_mark hclosing.symm (by decide)
  exact h front' _ rfl ⟨near', far', by simp⟩

/-! ### Both -/

theorem uncommented_stripComments (text : Text) : Uncommented (stripComments text) where
  line := no_line_dropLineComments _ _
  block := (unclosed_dropBlockComments false text).dropLineComments

theorem Uncommented.stripComments_eq_self (h : Uncommented text) : stripComments text = text := by
  rw [stripComments, h.block.dropBlockComments_eq_self, dropLineComments_of_unmarked h.line]

/-- **Stripping a statement leaves no comment in it, so stripping it again changes nothing; and the
texts that it leaves alone are exactly those without comments.** -/
theorem stripComments_complete (text : Text) :
    Uncommented (stripComments text) ∧ stripComments (stripComments text) = stripComments text ∧
      (stripComments text = text ↔ Uncommented text) := by
  have hstripped := uncommented_stripComments text
  refine ⟨hstripped, hstripped.stripComments_eq_self, fun heq => ?_,
    Uncommented.stripComments_eq_self⟩
  rw [← heq]
  exact hstripped

/-- An opening mark that is closed by its own star would be no comment, and neither are marks in the
wrong order. -/
example : stripComments "*/ a /*/ b".toList = "*/ a /*/ b".toList := by decide

end Diagrams.Schema
