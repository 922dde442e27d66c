/-
Words, and the texts that are put together from them.

Names in a source are written with the letters and digits of ASCII and the low line.  What is
written from names and words neither starts nor ends with a blank.
-/
import Diagrams.Proofs.Text.Cutting
import Diagrams.Proofs.Text.Letters

namespace Diagrams

/-! ### Names -/

/-- A name of letters, digits and low lines that starts with no digit. -/
def isIdentifier : Text → Bool
  | [] => false
  | c :: rest => (c.isAlpha || c == '_') && rest.all fun d => d.isAlphanum || d == '_'

theorem isAlphanum_of_isIdentifier {name : Text} (h : isIdentifier name = true) :
    ∀ c ∈ name, c.isAlphanum = true ∨ c = '_' := by
  cases name with
  | nil => simp
  | cons c rest =>
      simp only [isIdentifier, Bool.and_eq_true, Bool.or_eq_true, beq_iff_eq, List.all_eq_true] at h
      intro d hd
      rcases List.mem_cons.mp hd with rfl | hrest
      · exact h.1.imp_left isAlphanum_of_isAlpha
      · exact h.2 d hrest

theorem isWordChar_of_isIdentifier {name : Text} (h : isIdentifier name = true) :
    ∀ c ∈ name, isWordChar c = true := by
  intro c hc
  rcases isAlphanum_of_isIdentifier h c hc with halphanum | rfl
  · exact isWordChar_of_isAlphanum halphanum
  · decide

theorem ne_nil_of_isIdentifier {name : Text} (h : isIdentifier name = true) : name ≠ [] := by
  rintro rfl
  exact Bool.noConfusion h

/-- A name starts with a letter or a low line. -/
theorem exists_cons_of_isIdentifier {name : Text} (h : isIdentifier name = true) :
    ∃ c rest, name = c :: rest ∧ (isLatinLetter c || c == '_') = true ∧
      ∀ d ∈ rest, isWordChar d = true := by
  cases name with
  | nil => exact Bool.noConfusion h
  | cons c rest =>
      refine ⟨c, rest, rfl, ?_, ?_⟩
      · have hfirst : (c.isAlpha || c == '_') = true := (Bool.and_eq_true_iff.mp h).1
        simp only [isLatinLetter, Bool.or_eq_true] at hfirst ⊢
        rcases hfirst with halpha | hlow
        · exact .inl (.inl (.inl (.inl (.inl halpha))))
        · exact .inr hlow
      · exact fun d hd => isWordChar_of_isIdentifier h d (List.mem_cons_of_mem c hd)

/-! ### Texts without blanks at their ends -/

/-- A text that neither starts nor ends with a blank. -/
structure Solid (text : Text) : Prop where
  first : ∃ c rest, text = c :: rest ∧ isBlank c = false
  last : ∃ front c, text = front ++ [c] ∧ isBlank c = false

namespace Solid

variable {front text : Text}

theorem ne_nil (h : Solid text) : text ≠ [] := by
  obtain ⟨c, rest, rfl, -⟩ := h.first
  exact List.cons_ne_nil c rest

theorem head? (h : Solid text) : ∀ c ∈ text.head?, isBlank c = false := by
  obtain ⟨c, rest, rfl, hc⟩ := h.first
  intro d hd
  obtain rfl : c = d := by simpa using hd
  exact hc

theorem head?_append (h : Solid text) (rest : Text) :
    ∀ c ∈ (text ++ rest).head?, isBlank c = false := by
  rw [List.head?_append_of_ne_nil _ h.ne_nil]
  exact h.head?

theorem getLast? (h : Solid text) : ∀ c ∈ text.getLast?, isBlank c = false := by
  obtain ⟨front, c, rfl, hc⟩ := h.last
  intro d hd
  obtain rfl : c = d := by simpa using hd
  exact hc

/-- Only the two ends matter. -/
theorem append (h : Solid front) (middle : Text) (htext : Solid text) :
    Solid (front ++ (middle ++ text)) := by
  obtain ⟨c, rest, rfl, hc⟩ := h.first
  obtain ⟨front', d, rfl, hd⟩ := htext.last
  exact ⟨⟨c, _, rfl, hc⟩, ⟨c :: rest ++ (middle ++ front'), d, by simp, hd⟩⟩

theorem of_forall (hne : text ≠ []) (h : ∀ c ∈ text, isBlank c = false) : Solid text := by
  obtain ⟨c, rest, rfl⟩ := List.exists_cons_of_ne_nil hne
  refine ⟨⟨c, rest, rfl, h c List.mem_cons_self⟩, ?_⟩
  have hsplit : c :: rest = (c :: rest).dropLast ++ [(c :: rest).getLast hne] :=
    (List.dropLast_concat_getLast hne).symm
  exact ⟨_, _, hsplit, h _ (List.getLast_mem hne)⟩

end Solid

theorem solid_word {word : Text} (hne : word ≠ []) (h : ∀ c ∈ word, isWordChar c = true) :
    Solid word := .of_forall hne fun c hc => isBlank_of_isWordChar (h c hc)

theorem solid_letters {word : String} (h : isLetters word = true) : Solid word.toList :=
  solid_word (ne_nil_of_isLetters h) (isWordChar_of_isLetters h)

/-! ### Words that stand by themselves -/

/-- The stretches of word characters in a text, between the characters that are none. -/
def wordRuns (text : Text) : List Text := text.splitWhere fun c => !isWordChar c

/-- None of the words stands in the text by itself. -/
def Avoids (words : List String) (text : Text) : Prop :=
  ∀ run ∈ wordRuns text, ∀ word ∈ words, run ≠ word.toList

instance (words : List String) (text : Text) : Decidable (Avoids words text) :=
  inferInstanceAs (Decidable (∀ run ∈ wordRuns text, ∀ word ∈ words, run ≠ word.toList))

theorem wordRuns_of_word {word : Text} (h : ∀ c ∈ word, isWordChar c = true) :
    wordRuns word = [word] :=
  Text.splitWhere_of_forall fun c hc => by rw [h c hc]; rfl

theorem wordRuns_append_cons {c : Char} (h : isWordChar c = false) (front rest : Text) :
    wordRuns (front ++ c :: rest) = wordRuns front ++ wordRuns rest :=
  Text.splitWhere_append_cons (by rw [h]; rfl) front rest

/-- A word between characters that are no word characters is a run of its own. -/
theorem mem_wordRuns {near word far : Text} (hword : ∀ c ∈ word, isWordChar c = true)
    (hnear : ∀ c ∈ near.getLast?, isWordChar c = false)
    (hfar : ∀ c ∈ far.head?, isWordChar c = false) : word ∈ wordRuns (near ++ (word ++ far)) := by
  have hbehind : word ∈ wordRuns (word ++ far) := by
    cases far with
    | nil =>
        rw [List.append_nil, wordRuns_of_word hword]
        exact List.mem_singleton_self word
    | cons c far =>
        rw [wordRuns_append_cons (hfar c rfl), wordRuns_of_word hword]
        exact List.mem_cons_self
  rcases List.eq_nil_or_concat' near with rfl | ⟨near, c, rfl⟩
  · exact hbehind
  · have hc : isWordChar c = false := hnear c (by simp)
    rw [List.append_assoc, List.singleton_append, wordRuns_append_cons hc]
    exact List.mem_append_right _ hbehind

namespace Avoids

variable {words : List String} {front rest : Text}

theorem word {word : Text} (hword : ∀ c ∈ word, isWordChar c = true)
    (h : ∀ banned ∈ words, word ≠ banned.toList) : Avoids words word := by
  intro run hrun
  rw [wordRuns_of_word hword, List.mem_singleton] at hrun
  rw [hrun]
  exact h

theorem nil (h : ∀ banned ∈ words, banned.toList ≠ []) : Avoids words [] := by
  intro run hrun banned hbanned heq
  obtain rfl : run = [] := by simpa [wordRuns] using hrun
  exact h banned hbanned heq.symm

/-- Behind a character that is no word character, a text goes on with words of its own. -/
theorem append_cons {c : Char} (h : Avoids words front) (hc : isWordChar c = false)
    (hrest : Avoids words rest) : Avoids words (front ++ c :: rest) := by
  intro run hrun
  rw [wordRuns_append_cons hc] at hrun
  rcases List.mem_append.mp hrun with hmem | hmem
  · exact h run hmem
  · exact hrest run hmem

theorem cons {c : Char} (hne : ∀ banned ∈ words, banned.toList ≠ []) (hc : isWordChar c = false)
    (hrest : Avoids words rest) : Avoids words (c :: rest) :=
  append_cons (nil hne) hc hrest

/-- What avoids more words also avoids fewer. -/
theorem mono {fewer : List String} (h : Avoids words front) (hsub : ∀ word ∈ fewer, word ∈ words) :
    Avoids fewer front :=
  fun run hrun word hword => h run hrun word (hsub word hword)

theorem not_mem {near far : Text} {banned : String}
    (h : Avoids words (near ++ (banned.toList ++ far))) (hbanned : banned ∈ words)
    (hword : ∀ c ∈ banned.toList, isWordChar c = true)
    (hnear : ∀ c ∈ near.getLast?, isWordChar c = false)
    (hfar : ∀ c ∈ far.head?, isWordChar c = false) : False :=
  h _ (mem_wordRuns hword hnear hfar) banned hbanned rfl

end Avoids

/-! ### Words in a row -/

/-- Stretches without blanks, with one space between neighbours. -/
inductive SingleSpaced : Text → Prop
  | word {text : Text} (nonempty : text ≠ []) (solid : ∀ c ∈ text, isBlank c = false) :
      SingleSpaced text
  | append {front rest : Text} (first : SingleSpaced front) (others : SingleSpaced rest) :
      SingleSpaced (front ++ ' ' :: rest)

namespace SingleSpaced

variable {front rest text : Text}

/-- Put together without a space, the last stretch of one text and the first of the other are
one. -/
theorem adjacent (h : SingleSpaced front) (hrest : SingleSpaced rest) :
    SingleSpaced (front ++ rest) := by
  induction h with
  | @word front hne hsolid =>
      induction hrest with
      | @word rest hne' hsolid' =>
          refine .word (by simp [hne]) fun c hc => ?_
          rcases List.mem_append.mp hc with hc | hc
          · exact hsolid c hc
          · exact hsolid' c hc
      | append _ others ih _ =>
          rw [← List.append_assoc]
          exact .append ih others
  | append first _ _ ih =>
      rw [List.append_assoc, List.cons_append]
      exact .append first ih

theorem words_ne_nil (h : SingleSpaced text) : text.words ≠ [] := by
  induction h with
  | word hne hsolid =>
      rw [Text.words_of_forall hne hsolid]
      exact List.cons_ne_nil _ _
  | append _ _ ih _ =>
      rw [Text.words_append_cons (by decide)]
      exact List.append_ne_nil_of_left_ne_nil ih _

theorem joined_append {separator : Text} {pieces others : List Text} (h : pieces ≠ [])
    (hothers : others ≠ []) : Text.joined separator (pieces ++ others)
      = Text.joined separator pieces ++ (separator ++ Text.joined separator others) := by
  induction pieces with
  | nil => exact absurd rfl h
  | cons piece pieces ih =>
      cases pieces with
      | nil =>
          obtain ⟨other, others, rfl⟩ := List.exists_cons_of_ne_nil hothers
          rw [List.singleton_append, Text.joined_cons_cons, Text.joined_singleton]
      | cons next pieces =>
          rw [List.cons_append, List.cons_append, Text.joined_cons_cons, Text.joined_cons_cons,
            ← List.cons_append, ih (List.cons_ne_nil _ _)]
          simp

/-- Cutting such a text into its words and joining them again changes nothing. -/
theorem joined_words (h : SingleSpaced text) : Text.joined [' '] text.words = text := by
  induction h with
  | word hne hsolid => rw [Text.words_of_forall hne hsolid, Text.joined_singleton]
  | append first others ih ihOthers =>
      rw [Text.words_append_cons (by decide), joined_append first.words_ne_nil others.words_ne_nil,
        ih, ihOthers]
      rfl

theorem solid (h : SingleSpaced text) : Solid text := by
  induction h with
  | word hne hsolid => exact .of_forall hne hsolid
  | append _ _ ih ihOthers => exact ih.append [' '] ihOthers

end SingleSpaced

/-- Words, each with a space after it. -/
def spaced : List String → Text
  | [] => []
  | word :: words => word.toList ++ ' ' :: spaced words

theorem spaced_append (words others : List String) :
    spaced (words ++ others) = spaced words ++ spaced others := by
  induction words with
  | nil => rfl
  | cons word words ih => rw [List.cons_append, spaced, spaced, ih]; simp

/-- Words in front are told apart by the spaces behind them. -/
theorem Avoids.spaced {banned words : List String} {rest : Text}
    (hwords : ∀ word ∈ words, isLetters word = true ∧ word ∉ banned) (hrest : Avoids banned rest) :
    Avoids banned (spaced words ++ rest) := by
  induction words with
  | nil => exact hrest
  | cons word words ih =>
      obtain ⟨⟨hletters, hfree⟩, hwords⟩ := List.forall_mem_cons.mp hwords
      have hword : Avoids banned word.toList := by
        refine .word (isWordChar_of_isLetters hletters) fun other hother heq => ?_
        exact hfree (String.toList_inj.mp heq ▸ hother)
      rw [Diagrams.spaced, List.append_assoc, List.cons_append]
      exact hword.append_cons (by decide) (ih hwords)

theorem SingleSpaced.spaced {words : List String} {rest : Text}
    (hwords : ∀ word ∈ words, isLetters word = true) (hrest : SingleSpaced rest) :
    SingleSpaced (spaced words ++ rest) := by
  induction words with
  | nil => exact hrest
  | cons word words ih =>
      obtain ⟨hletters, hwords⟩ := List.forall_mem_cons.mp hwords
      rw [Diagrams.spaced, List.append_assoc, List.cons_append]
      refine .append (.word (ne_nil_of_isLetters hletters) fun c hc => ?_) (ih hwords)
      exact isBlank_of_isWordChar (isWordChar_of_isLetters hletters c hc)

end Diagrams
