/-
Cutting a text whose characters are mapped.

What cuts, trims or scans a text asks its characters some question.  A map of characters that leaves
the answers as they are can be done before the cutting or after it.
-/
import Diagrams.Brackets
import Diagrams.Text.Pieces

namespace Diagrams.Text

variable {f : Char → Char} {test : Char → Bool}

theorem takeWhile_map (h : ∀ c, test (f c) = test c) (text : Text) :
    (text.map f).takeWhile test = (text.takeWhile test).map f := by
  rw [List.takeWhile_map, Function.comp_def, funext h]

theorem dropWhile_map (h : ∀ c, test (f c) = test c) (text : Text) :
    (text.map f).dropWhile test = (text.dropWhile test).map f := by
  rw [List.dropWhile_map, Function.comp_def, funext h]

theorem dropEnd_map (h : ∀ c, test (f c) = test c) (text : Text) :
    dropEnd test (text.map f) = (dropEnd test text).map f := by
  unfold dropEnd
  rw [← List.map_reverse, dropWhile_map h, List.map_reverse]

theorem strip_map (h : ∀ c, test (f c) = test c) (text : Text) :
    strip test (text.map f) = (strip test text).map f := by
  unfold strip dropStart
  rw [dropWhile_map h, dropEnd_map h]

theorem splitWhere_map (h : ∀ c, test (f c) = test c) (text : Text) :
    splitWhere test (text.map f) = (splitWhere test text).map (List.map f) := by
  induction text with
  | nil => rfl
  | cons c text ih =>
      rw [List.map_cons]
      cases hc : test c with
      | true => rw [splitWhere_cons_of_cut hc, splitWhere_cons_of_cut (by rw [h, hc]), ih]; rfl
      | false =>
          rw [splitWhere_cons_of_keep hc, splitWhere_cons_of_keep (by rw [h, hc]), ih]
          cases splitWhere test text <;> rfl

theorem contains_map {c : Char} (h : ∀ d, (f d == c) = (d == c)) (text : Text) :
    (text.map f).contains c = text.contains c := by
  induction text with
  | nil => rfl
  | cons d text ih =>
      rw [List.map_cons, List.contains_cons, List.contains_cons, ih, BEq.comm, h, BEq.comm]

theorem afterLast?_map {c : Char} (h : ∀ d, (f d == c) = (d == c)) (text : Text) :
    afterLast? c (text.map f) = (afterLast? c text).map (List.map f) := by
  have hne : ∀ d, (f d != c) = (d != c) := fun d => congrArg not (h d)
  unfold afterLast?
  rw [contains_map h, ← List.map_reverse, takeWhile_map hne, ← List.map_reverse]
  cases text.contains c <;> rfl

/-! ### Blanks -/

section

variable (h : ∀ c, isBlank (f c) = isBlank c)
include h

theorem trim_map (text : Text) : trim (text.map f) = text.trim.map f := strip_map h text

theorem isBlankText_map (text : Text) : isBlankText (text.map f) = text.isBlankText := by
  unfold isBlankText
  rw [List.all_map, Function.comp_def, funext h]

theorem words_map (text : Text) : words (text.map f) = text.words.map (List.map f) := by
  unfold words
  rw [splitWhere_map h, List.filter_map]
  congr 1
  exact List.filter_congr fun word _ => by simp

theorem respaced_map {close : Char → Char → Bool} (hclose : ∀ a b, close (f a) (f b) = close a b)
    (hspace : f ' ' = ' ') (text : Text) :
    respaced close (text.map f) = (respaced close text).map f := by
  unfold respaced
  rw [words_map h]
  generalize text.words = words
  induction words with
  | nil => rfl
  | cons word others ih =>
      cases others with
      | nil => rfl
      | cons next others =>
          have hedge : (((word.map f).getLast?.bind fun a =>
                (next.map f).head?.map (close a)).getD false)
              = ((word.getLast?.bind fun a => next.head?.map (close a)).getD false) := by
            rw [List.getLast?_map, List.head?_map]
            cases word.getLast? <;> cases next.head? <;> simp [hclose]
          simp only [List.map_cons] at ih ⊢
          rw [respaceWords, respaceWords, hedge, ih]
          simp only [List.map_append]
          congr 2
          split <;> simp [hspace]

end

/-! ### Scans -/

/-- A scan whose states go along with the map cuts the mapped text at the same places. -/
theorem piecesBy_map {σ : Type} {step : σ → Char → σ} {isCut : σ → Char → Bool} {image : σ → σ}
    (hstep : ∀ state c, step (image state) (f c) = image (step state c))
    (hcut : ∀ state c, isCut (image state) (f c) = isCut state c) (state : σ) (text : Text) :
    piecesBy step isCut (image state) (text.map f)
      = (piecesBy step isCut state text).map (List.map f) := by
  induction text generalizing state with
  | nil => rfl
  | cons c text ih =>
      rw [List.map_cons, piecesBy, piecesBy]
      simp only [hstep, hcut, ih]
      cases isCut (step state c) c with
      | true => rfl
      | false => cases piecesBy step isCut (step state c) text <;> rfl

end Text

namespace Quoting

variable {f : Char → Char} {isQuote : Char → Bool}

/-- The scan over the mapped text.  Quotes are not mapped to anything else. -/
def map (f : Char → Char) (state : Quoting) : Quoting :=
  { state with before := state.before.map f }

@[simp] theorem isOutside_map (state : Quoting) : (state.map f).isOutside = state.isOutside := rfl

theorem step_map (hquote : ∀ c, isQuote (f c) = isQuote c) (hsame : ∀ c, isQuote c = true → f c = c)
    (hslash : ∀ c, (f c == '\\') = (c == '\\')) (state : Quoting) (c : Char) :
    (state.map f).step isQuote (f c) = (state.step isQuote c).map f := by
  have hbefore : (state.before.map f != some '\\') = (state.before != some '\\') := by
    cases state.before with
    | none => rfl
    | some d => simpa [bne] using hslash d
  unfold step map
  simp only [hquote, hbefore, Option.map_some]
  cases hc : isQuote c with
  | true => rw [hsame c hc]
  | false => rfl

end Quoting

end Diagrams
