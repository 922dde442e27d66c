/-
Blanking keeps every character at its place.

The lexemes of a source lie one behind the other and cover it, so each character of the source
belongs to one lexeme and has an offset in it (`StandsIn`).  Blanking goes lexeme by lexeme
and keeps the length of each, so a character that is kept stays where it is.  Which ones are
kept is told by the lexeme and the offset alone: all of code, none of a comment, and of a
literal the quote at each end.

For the last of these the shape of a literal is needed.  A literal has at least two
characters, of which the first and the last are the same quote; the search for its end makes
sure of that (`Begins.exists_quoted`).
-/
import Diagrams.Proofs.Code.Lexemes

namespace Diagrams.Code

/-! ### The quotes around a literal -/

/-- A literal ends with the quote that it starts with. -/
theorem LexemeAfter.exists_take {c : Char} {rest : Text} {length : Nat}
    (h : LexemeAfter c rest .literal length) :
    (c = '"' ∨ c = '\x27') ∧ ∃ inner, rest.take length = inner ++ [c] := by
  cases h with
  | textBlock closed =>
      obtain ⟨inner, behind, rfl, rfl⟩ := exists_split_of_textBlockLength? closed
      exact ⟨.inl rfl, '"' :: '"' :: (inner ++ ['"', '"']), by simp [List.take_length_add_append]⟩
  | emptyString unclosed => exact ⟨.inl rfl, [], rfl⟩
  | string single closed =>
      obtain ⟨inner, behind, rfl, rfl⟩ := exists_split_of_quotedLength? closed
      exact ⟨.inl rfl, inner, by simp [List.take_length_add_append]⟩
  | character closed =>
      obtain ⟨inner, behind, rfl, rfl⟩ := exists_split_of_quotedLength? closed
      exact ⟨.inr rfl, inner, by simp [List.take_length_add_append]⟩

theorem Begins.exists_quoted {lexeme : Lexeme} {rest : Text} (h : Begins lexeme rest)
    (hkind : lexeme.kind = .literal) :
    ∃ quote inner, (quote = '"' ∨ quote = '\x27') ∧ lexeme.text = quote :: (inner ++ [quote]) := by
  cases h with
  | code _ => cases hkind
  | @opened c tail rest kind opens =>
      obtain rfl : kind = .literal := hkind
      obtain ⟨hquote, inner, hinner⟩ := opens.exists_take
      rw [List.take_left] at hinner
      exact ⟨c, inner, hquote, congrArg (c :: ·) hinner⟩

/-- A code lexeme is one character. -/
theorem Begins.exists_code {lexeme : Lexeme} {rest : Text} (h : Begins lexeme rest)
    (hkind : lexeme.kind = .code) : ∃ c, lexeme.text = [c] := by
  cases h with
  | @code c rest _ => exact ⟨c, rfl⟩
  | @opened c tail rest kind opens =>
      obtain rfl : kind = .code := hkind
      generalize tail ++ rest = text at opens
      generalize tail.length = length at opens
      cases opens

/-- Any of the lexemes of a source is the first of what stands behind the ones in front. -/
theorem begins_of_split {source : Text} {before after : List Lexeme} {lexeme : Lexeme}
    (h : lexemes source = before ++ lexeme :: after) :
    Begins lexeme (after.flatMap Lexeme.text) := by
  induction before generalizing source with
  | nil => exact (begins_of_lexemes h).1
  | cons _ before ih => exact ih (begins_of_lexemes h).2

theorem exists_begins_of_mem {source : Text} {lexeme : Lexeme} (h : lexeme ∈ lexemes source) :
    ∃ rest, Begins lexeme rest := by
  obtain ⟨before, after, hsplit⟩ := List.append_of_mem h
  exact ⟨_, begins_of_split hsplit⟩

/-! ### Places -/

/-- The character at this index of the source stands in the lexeme, at the offset. -/
inductive StandsIn (source : Text) : (index : Nat) → Lexeme → (offset : Nat) → Prop
  | intro {before after : List Lexeme} {lexeme : Lexeme} {offset : Nat}
      (split : lexemes source = before ++ lexeme :: after) (within : offset < lexeme.text.length) :
      StandsIn source ((before.flatMap Lexeme.text).length + offset) lexeme offset

/-- No comment or literal of the source goes over this index. -/
def Outside (source : Text) (index : Nat) : Prop :=
  ∀ lexeme offset, StandsIn source index lexeme offset → lexeme.kind = .code

/-- Whatever lexemes are turned into, if they keep their lengths their characters keep their
places. -/
theorem getElem?_flatMap_of_length {α : Type} {image : Lexeme → List α} (before after : List Lexeme)
    {lexeme : Lexeme} {offset : Nat}
    (hlength : ∀ lexeme, (image lexeme).length = lexeme.text.length)
    (hwithin : offset < lexeme.text.length) :
    ((before ++ lexeme :: after).flatMap image)[(before.flatMap Lexeme.text).length + offset]?
      = (image lexeme)[offset]? := by
  have hbefore : (before.flatMap image).length = (before.flatMap Lexeme.text).length := by
    simp only [List.length_flatMap, hlength]
  have hoffset : offset < (image lexeme).length := by
    rw [hlength]
    exact hwithin
  rw [List.flatMap_append, List.flatMap_cons, ← hbefore,
    List.getElem?_append_right (Nat.le_add_right _ _), Nat.add_sub_cancel_left,
    List.getElem?_append_left hoffset]

theorem drop_flatMap_of_length {α : Type} {image : Lexeme → List α} (before after : List Lexeme)
    (hlength : ∀ lexeme, (image lexeme).length = lexeme.text.length) :
    ((before ++ after).flatMap image).drop (before.flatMap Lexeme.text).length
      = after.flatMap image := by
  have hbefore : (before.flatMap image).length = (before.flatMap Lexeme.text).length := by
    simp only [List.length_flatMap, hlength]
  rw [List.flatMap_append, ← hbefore, List.drop_left]

namespace StandsIn

variable {source : Text} {index offset : Nat} {lexeme : Lexeme}

theorem getElem?_flatMap {α : Type} (h : StandsIn source index lexeme offset)
    {image : Lexeme → List α} (hlength : ∀ lexeme, (image lexeme).length = lexeme.text.length) :
    ((lexemes source).flatMap image)[index]? = (image lexeme)[offset]? := by
  obtain ⟨split, within⟩ := h
  rw [split]
  exact getElem?_flatMap_of_length _ _ hlength within

theorem getElem?_source (h : StandsIn source index lexeme offset) :
    source[index]? = lexeme.text[offset]? := by
  have hplace := @getElem?_flatMap _ _ _ _ _ h Lexeme.text fun _ => rfl
  rwa [flatMap_text_lexemes] at hplace

theorem within (h : StandsIn source index lexeme offset) : offset < lexeme.text.length := by
  cases h
  assumption

/-- The lexeme and an offset in place of each of its characters: the index of one of
them in a source tells both. -/
def offsets (lexeme : Lexeme) : List (Lexeme × Nat) :=
  (List.range lexeme.text.length).map (lexeme, ·)

theorem length_offsets (lexeme : Lexeme) : (offsets lexeme).length = lexeme.text.length := by
  simp [offsets]

/-- A character stands in one lexeme only. -/
theorem unique {other : Lexeme} {place : Nat} (h : StandsIn source index lexeme offset)
    (hother : StandsIn source index other place) : lexeme = other ∧ offset = place := by
  have hfirst := h.getElem?_flatMap length_offsets
  have hsecond := hother.getElem?_flatMap length_offsets
  have hpairs : (offsets lexeme)[offset]? = (offsets other)[place]? := hfirst.symm.trans hsecond
  simpa [offsets, List.getElem?_range h.within, List.getElem?_range hother.within] using hpairs

/-- The lexeme is a comment, a literal or a character of code as the grammar has them. -/
theorem exists_begins (h : StandsIn source index lexeme offset) : ∃ rest, Begins lexeme rest := by
  obtain ⟨split, -⟩ := h
  exact ⟨_, begins_of_split split⟩

end StandsIn

theorem exists_standsIn_behind {source : Text} {before after : List Lexeme}
    (h : lexemes source = before ++ after) {rest : Nat}
    (hrest : rest < (after.flatMap Lexeme.text).length) :
    ∃ lexeme offset, StandsIn source ((before.flatMap Lexeme.text).length + rest)
      lexeme offset := by
  induction after generalizing before rest with
  | nil => exact absurd hrest (Nat.not_lt_zero rest)
  | cons lexeme after ih =>
      by_cases hfirst : rest < lexeme.text.length
      · exact ⟨lexeme, rest, .intro h hfirst⟩
      · -- The index lies behind this lexeme, which moves to the ones in front.
        rw [List.flatMap_cons, List.length_append] at hrest
        have hsplit : lexemes source = (before ++ [lexeme]) ++ after := by
          rw [h, List.append_assoc, List.singleton_append]
        have hindex : ((before ++ [lexeme]).flatMap Lexeme.text).length +
            (rest - lexeme.text.length) = (before.flatMap Lexeme.text).length + rest := by
          rw [List.flatMap_append, List.length_append, List.flatMap_singleton]
          omega
        rw [← hindex]
        exact ih hsplit (by omega)

/-- The lexemes cover the source. -/
theorem exists_standsIn {source : Text} {index : Nat} (h : index < source.length) :
    ∃ lexeme offset, StandsIn source index lexeme offset := by
  have hrest : index < ((lexemes source).flatMap Lexeme.text).length := by
    rwa [flatMap_text_lexemes]
  have hfound := @exists_standsIn_behind source [] _ rfl _ hrest
  simpa using hfound

/-! ### What is kept -/

/-- The character at this offset of the lexeme is kept: it is code, or the quote at one of the ends
of a literal. -/
def Lexeme.Keeps (lexeme : Lexeme) (offset : Nat) : Prop :=
  lexeme.kind = .code ∨ lexeme.kind = .literal ∧ (offset = 0 ∨ offset + 1 = lexeme.text.length)

instance (lexeme : Lexeme) (offset : Nat) : Decidable (lexeme.Keeps offset) :=
  inferInstanceAs (Decidable (_ ∨ _))

namespace Lexeme

theorem blanked_literal (first last : Char) (inner : Text) :
    (⟨.literal, first :: (inner ++ [last])⟩ : Lexeme).blanked
      = first :: (Code.blanked inner ++ [last]) := by
  simp [blanked]

theorem length_blanked (lexeme : Lexeme) : lexeme.blanked.length = lexeme.text.length := by
  obtain ⟨kind, text⟩ := lexeme
  cases kind with
  | code => rfl
  | comment => simp [blanked, Code.blanked]
  | literal =>
      cases text with
      | nil => rfl
      | cons first rest =>
          rcases List.eq_nil_or_concat' rest with rfl | ⟨inner, last, rfl⟩
          · rfl
          · rw [blanked_literal]
            simp [Code.blanked]

/-- At each offset blanking keeps the character or puts a blank for it. -/
theorem getElem?_blanked (lexeme : Lexeme) (offset : Nat) :
    lexeme.blanked[offset]?
      = if lexeme.Keeps offset then lexeme.text[offset]?
        else (Code.blanked lexeme.text)[offset]? := by
  obtain ⟨kind, text⟩ := lexeme
  cases kind with
  | code => simp [Keeps, blanked]
  | comment => simp [Keeps, blanked]
  | literal =>
      cases text with
      | nil => simp [blanked, Code.blanked]
      | cons first rest =>
          rcases List.eq_nil_or_concat' rest with rfl | ⟨inner, last, rfl⟩
          · cases offset <;> simp [Keeps, blanked, Code.blanked]
          · rw [blanked_literal]
            cases offset with
            | zero => simp [Keeps]
            | succ offset =>
                rcases Nat.lt_trichotomy offset inner.length with hlt | rfl | hlt
                · have hend : offset ≠ inner.length := by omega
                  simp [Keeps, Code.blanked, List.getElem?_append, hlt, hend]
                · simp [Keeps, Code.blanked]
                · -- Behind the end there is nothing on either side.
                  have hend : offset ≠ inner.length := by omega
                  have hnone : ∀ c : Char, [c][offset - inner.length]? = none :=
                    fun c => List.getElem?_eq_none (by rw [List.length_singleton]; omega)
                  simp [Keeps, Code.blanked, List.getElem?_append, hend, hnone]

end Lexeme

/-! ### Blanking -/

theorem getElem?_blanked_eq_line_iff (text : Text) (index : Nat) :
    (blanked text)[index]? = some '\n' ↔ text[index]? = some '\n' := by
  rw [blanked, List.getElem?_map]
  cases htext : text[index]? with
  | none => simp
  | some c => by_cases hc : c = '\n' <;> simp [hc]

/-- The text has a space or a line feed at this index. -/
def IsBlankAt (text : Text) (index : Nat) : Prop :=
  text[index]? = some ' ' ∨ text[index]? = some '\n'

theorem isBlankAt_blanked {text : Text} {index : Nat} (h : index < text.length) :
    IsBlankAt (blanked text) index := by
  rw [IsBlankAt, blanked, List.getElem?_map, List.getElem?_eq_getElem h]
  by_cases hc : text[index] = '\n'
  · exact .inr (by simp [hc])
  · exact .inl (by simp [hc])

theorem length_blankLiterals (source : Text) : (blankLiterals source).length = source.length := by
  have hsource : (lexemes source).flatMap Lexeme.text = source := flatMap_text_lexemes source
  calc (blankLiterals source).length
      = ((lexemes source).flatMap Lexeme.text).length := by
        simp only [blankLiterals, List.length_flatMap, Lexeme.length_blanked]
    _ = source.length := by rw [hsource]

namespace StandsIn

variable {source : Text} {index offset : Nat} {lexeme : Lexeme}

theorem lt_length (h : StandsIn source index lexeme offset) : index < source.length := by
  have hplace := h.getElem?_source
  rw [List.getElem?_eq_getElem h.within] at hplace
  exact (List.getElem?_eq_some_iff.mp hplace).1

/-- Blanking keeps the character, or puts a blank for it. -/
theorem getElem?_blankLiterals (h : StandsIn source index lexeme offset) :
    (blankLiterals source)[index]?
      = if lexeme.Keeps offset then source[index]? else (blanked source)[index]? := by
  have hblank : (blanked source)[index]? = (blanked lexeme.text)[offset]? := by
    rw [blanked, blanked, List.getElem?_map, List.getElem?_map, h.getElem?_source]
  rw [blankLiterals, h.getElem?_flatMap Lexeme.length_blanked, Lexeme.getElem?_blanked,
    h.getElem?_source, hblank]

theorem isBlankAt (h : StandsIn source index lexeme offset) (hkeeps : ¬ lexeme.Keeps offset) :
    IsBlankAt (blankLiterals source) index := by
  rw [IsBlankAt, h.getElem?_blankLiterals, if_neg hkeeps]
  exact isBlankAt_blanked h.lt_length

/-- At the ends of a literal stands its quote. -/
theorem exists_quote (h : StandsIn source index lexeme offset) (hkind : lexeme.kind = .literal)
    (hend : offset = 0 ∨ offset + 1 = lexeme.text.length) :
    ∃ quote, (quote = '"' ∨ quote = '\x27') ∧ source[index]? = some quote := by
  obtain ⟨rest, hbegins⟩ := h.exists_begins
  obtain ⟨quote, inner, hquote, htext⟩ := hbegins.exists_quoted hkind
  refine ⟨quote, hquote, ?_⟩
  rw [h.getElem?_source, htext]
  rw [htext] at hend
  rcases hend with rfl | hlast
  · rfl
  · obtain rfl : offset = inner.length + 1 := by simpa using hlast
    simp

end StandsIn

/-- What the blanked text has to do with its source. -/
structure Blanking (source blank : Text) : Prop where
  /-- They have the same length. -/
  length : blank.length = source.length
  /-- They have line feeds at the same indices. -/
  lines : ∀ index : Nat, blank[index]? = some '\n' ↔ source[index]? = some '\n'
  /-- Outside comments and literals they are the same. -/
  code : ∀ index : Nat, Outside source index → blank[index]? = source[index]?
  /-- A comment is blank. -/
  comment : ∀ (index : Nat) lexeme offset, StandsIn source index lexeme offset →
    lexeme.kind = .comment → IsBlankAt blank index
  /-- A literal keeps the quotes at its ends. -/
  ends : ∀ (index : Nat) lexeme offset, StandsIn source index lexeme offset →
    lexeme.kind = .literal → offset = 0 ∨ offset + 1 = lexeme.text.length →
    ∃ quote, (quote = '"' ∨ quote = '\x27') ∧ source[index]? = some quote ∧
      blank[index]? = some quote
  /-- Between them it is blank. -/
  inside : ∀ (index : Nat) lexeme offset, StandsIn source index lexeme offset →
    lexeme.kind = .literal → offset ≠ 0 → offset + 1 ≠ lexeme.text.length → IsBlankAt blank index
  /-- What is neither a blank nor a quote is code of the source. -/
  structural : ∀ (index : Nat) (c : Char), blank[index]? = some c → c ≠ ' ' → c ≠ '\n' →
    c ≠ '"' → c ≠ '\x27' → source[index]? = some c ∧ Outside source index

section

variable {source : Text} {index : Nat}

theorem getElem?_blankLiterals_eq_line_iff :
    (blankLiterals source)[index]? = some '\n' ↔ source[index]? = some '\n' := by
  by_cases hindex : index < source.length
  · obtain ⟨lexeme, offset, hstands⟩ := exists_standsIn hindex
    rw [hstands.getElem?_blankLiterals]
    split
    · exact Iff.rfl
    · exact getElem?_blanked_eq_line_iff source index
  · rw [List.getElem?_eq_none (by rw [length_blankLiterals]; omega),
      List.getElem?_eq_none (by omega)]

theorem getElem?_blankLiterals_of_outside (h : Outside source index) :
    (blankLiterals source)[index]? = source[index]? := by
  by_cases hindex : index < source.length
  · obtain ⟨lexeme, offset, hstands⟩ := exists_standsIn hindex
    have hkeeps : lexeme.Keeps offset := .inl (h lexeme offset hstands)
    rw [hstands.getElem?_blankLiterals, if_pos hkeeps]
  · rw [List.getElem?_eq_none (by rw [length_blankLiterals]; omega),
      List.getElem?_eq_none (by omega)]

theorem outside_of_getElem?_blankLiterals {c : Char} (h : (blankLiterals source)[index]? = some c)
    (hspace : c ≠ ' ') (hline : c ≠ '\n') (hquote : c ≠ '"') (hapostrophe : c ≠ '\x27') :
    Outside source index := by
  intro lexeme offset hstands
  have hkeeps : lexeme.Keeps offset := by
    by_contra hblank
    rcases hstands.isBlankAt hblank with hc | hc
    · exact hspace (Option.some.inj (h.symm.trans hc))
    · exact hline (Option.some.inj (h.symm.trans hc))
  rcases hkeeps with hcode | ⟨hliteral, hend⟩
  · exact hcode
  · -- The ends of a literal are quotes.
    obtain ⟨quote, hsign, hsource⟩ := hstands.exists_quote hliteral hend
    rw [hstands.getElem?_blankLiterals, if_pos (.inr ⟨hliteral, hend⟩), hsource] at h
    obtain rfl := Option.some.inj h
    exact absurd hsign (not_or.mpr ⟨hquote, hapostrophe⟩)

end

/-- **Blanking keeps the length of a source, its line feeds and all that stands outside comments and
literals; comments get blank, literals get blank between their quotes, and so every brace, semicolon
and letter that is left stands where the source has it as code.** -/
theorem blanking_blankLiterals (source : Text) : Blanking source (blankLiterals source) where
  length := length_blankLiterals source
  lines := fun _ => getElem?_blankLiterals_eq_line_iff
  code := fun _ => getElem?_blankLiterals_of_outside
  comment := by
    intro index lexeme offset hstands hkind
    refine hstands.isBlankAt ?_
    simp [Lexeme.Keeps, hkind]
  ends := by
    intro index lexeme offset hstands hkind hend
    obtain ⟨quote, hquote, hsource⟩ := hstands.exists_quote hkind hend
    refine ⟨quote, hquote, hsource, ?_⟩
    rw [hstands.getElem?_blankLiterals, if_pos (.inr ⟨hkind, hend⟩), hsource]
  inside := by
    intro index lexeme offset hstands hkind hfirst hlast
    refine hstands.isBlankAt ?_
    simp [Lexeme.Keeps, hkind, hfirst, hlast]
  structural := by
    intro index c hc hspace hline hquote hapostrophe
    have houtside := outside_of_getElem?_blankLiterals hc hspace hline hquote hapostrophe
    exact ⟨(getElem?_blankLiterals_of_outside houtside).symm.trans hc, houtside⟩

/-- A quote behind a backslash ends no literal, and what looks like a comment in a literal is
none. -/
example : blankLiterals "s(\"\\\"\x7b\", '\x7d'); // \x7b\n\"//\";".toList
    = "s(\"   \", ' ');     \n\"  \";".toList := by
  decide +kernel

end Diagrams.Code
