/-
Cutting a text where a scan from the left says so, and writing a text with blanks only where they
are needed.
-/
import Diagrams.Text.Basic

namespace Diagrams.Text

/-- The pieces of a text, cut at the characters where the scan calls for it.  The scan has taken
a character into account before it is asked about it; the character of a cut is in no piece. -/
def piecesBy {σ : Type} (step : σ → Char → σ) (isCut : σ → Char → Bool) : σ → Text → List Text
  | _, [] => [[]]
  | state, c :: rest =>
    let next := step state c
    let pieces := piecesBy step isCut next rest
    if isCut next c then [] :: pieces
    else match pieces with
      | piece :: others => (c :: piece) :: others
      | [] => [[c]]

/-- The words of a text with one space between neighbours, and with none where the last
character of one word and the first of the next stand close. -/
def respaceWords (close : Char → Char → Bool) : List Text → Text
  | [] => []
  | [word] => word
  | word :: next :: others =>
    let isClose := (word.getLast?.bind fun a => next.head?.map (close a)).getD false
    word ++ (if isClose then [] else [' ']) ++ respaceWords close (next :: others)

/-- A text with one space in place of every run of blanks, and with none at the ends and where the
characters on both sides stand close. -/
def respaced (close : Char → Char → Bool) (text : Text) : Text :=
  respaceWords close text.words

end Diagrams.Text
