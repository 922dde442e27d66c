/-
Texts as lists of characters, with the cutting and trimming that all readers share.

A text is cut by `splitWhere`, which always gives one piece more than there are cuts; `words`
keeps the pieces between blanks that are not empty.
-/
import Diagrams.Text.Blank

namespace Diagrams

/-- A text, one code point per element. -/
abbrev Text := List Char

namespace Text

/-- The characters of a string. -/
def ofString (s : String) : Text := s.toList

/-- The string with these characters. -/
def string (text : Text) : String := String.ofList text

/-- Without the characters at the front that satisfy the test. -/
def dropStart (p : Char → Bool) (text : Text) : Text := text.dropWhile p

/-- Without the characters at the back that satisfy the test. -/
def dropEnd (p : Char → Bool) (text : Text) : Text := (text.reverse.dropWhile p).reverse

/-- Without the characters at both ends that satisfy the test. -/
def strip (p : Char → Bool) (text : Text) : Text := (text.dropStart p).dropEnd p

/-- Without the blanks at both ends. -/
def trim (text : Text) : Text := text.strip isBlank

/-- Whether all characters are blank; the empty text is. -/
def isBlankText (text : Text) : Bool := text.all isBlank

/-- The pieces between the characters that satisfy the test, empty ones too. -/
def splitWhere (p : Char → Bool) (text : Text) : List Text :=
  text.foldr
    (fun c pieces =>
      if p c then [] :: pieces
      else match pieces with
        | piece :: others => (c :: piece) :: others
        | [] => [[c]])
    [[]]

@[simp] theorem splitWhere_nil (p : Char → Bool) : splitWhere p [] = [[]] := rfl

theorem splitWhere_cons_of_cut {p : Char → Bool} {c : Char} (h : p c = true) (text : Text) :
    splitWhere p (c :: text) = [] :: splitWhere p text := by
  simp [splitWhere, h]

theorem splitWhere_cons_of_keep {p : Char → Bool} {c : Char} (h : p c = false) (text : Text) :
    splitWhere p (c :: text) =
      match splitWhere p text with
      | piece :: others => (c :: piece) :: others
      | [] => [[c]] := by
  simp [splitWhere, h]

theorem splitWhere_ne_nil (p : Char → Bool) (text : Text) : splitWhere p text ≠ [] := by
  cases text with
  | nil => simp
  | cons c text =>
    cases h : p c with
    | true => simp [splitWhere_cons_of_cut h]
    | false =>
      rw [splitWhere_cons_of_keep h]
      split <;> simp

/-- Cutting a text at one of its cuts leaves the pieces of both sides. -/
theorem splitWhere_append_cons {p : Char → Bool} {c : Char} (h : p c = true) (front rest : Text) :
    splitWhere p (front ++ c :: rest) = splitWhere p front ++ splitWhere p rest := by
  induction front with
  | nil => simp [splitWhere_cons_of_cut h]
  | cons a front ih =>
    rw [List.cons_append]
    cases ha : p a with
    | true => rw [splitWhere_cons_of_cut ha, splitWhere_cons_of_cut ha, ih, List.cons_append]
    | false =>
      rw [splitWhere_cons_of_keep ha, splitWhere_cons_of_keep ha, ih]
      cases hf : splitWhere p front with
      | nil => exact absurd hf (splitWhere_ne_nil p front)
      | cons piece others => rfl

/-- The maximal runs of characters that are not blank. -/
def words (text : Text) : List Text :=
  (text.splitWhere isBlank).filter fun word => !word.isEmpty

/-- A blank separates the words in front of it from those after it. -/
theorem words_append_cons {c : Char} (h : isBlank c = true) (front rest : Text) :
    words (front ++ c :: rest) = words front ++ words rest := by
  simp [words, splitWhere_append_cons h]

/-- The pieces with the separator between neighbours. -/
def joined (separator : Text) (pieces : List Text) : Text :=
  separator.intercalate pieces

/-- What stands after the last occurrence of a character, if there is one. -/
def afterLast? (c : Char) (text : Text) : Option Text :=
  if text.contains c then some (text.reverse.takeWhile (· != c)).reverse else none

/-- Whether one text occurs inside another. -/
def occursIn (part : Text) : Text → Bool
  | [] => part.isEmpty
  | c :: rest => part.isPrefixOf (c :: rest) || occursIn part rest

end Text

end Diagrams
