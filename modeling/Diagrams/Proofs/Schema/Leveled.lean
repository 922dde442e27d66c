/-
The pieces of a levelled script.

Statements, comments, brackets, quotes and lists are told by signs, blanks and line feeds, and the
patterns of the grammar ask for words in either case, for classes of characters and for signs.  None
of this changes when a script is levelled.
-/
import Diagrams.Schema.Table
import Diagrams.Proofs.Pattern.Blind
import Diagrams.Proofs.Schema.Salvage
import Diagrams.Proofs.Schema.Script
import Diagrams.Proofs.Text.Leveled

namespace Diagrams

/-! ### Brackets -/

namespace Brackets

theorem isQuote_leveled (c : Char) : isQuote (leveled c) = isQuote c := by
  unfold isQuote
  simp (disch := decide) only [leveled_beq]

theorem leveled_of_isQuote {c : Char} (h : isQuote c = true) : leveled c = c := by
  simp only [isQuote, Bool.or_eq_true, beq_iff_eq] at h
  rcases h with (rfl | rfl) | rfl <;> exact leveled_sign _ (by decide)

theorem step_leveled (state : Quoting) (c : Char) :
    (state.map leveled).step isQuote (leveled c) = (state.step isQuote c).map leveled :=
  state.step_map isQuote_leveled (fun _ => leveled_of_isQuote) (leveled_beq '\\' (by decide)) c

theorem closingFrom_leveled (state : Quoting) (depth : Int) (offset : Nat) (text : Text) :
    round.closingFrom (state.map leveled) depth offset (text.map leveled)
      = round.closingFrom state depth offset text := by
  induction text generalizing state depth offset with
  | nil => rfl
  | cons c text ih =>
      have hopening : leveled c = round.opening ↔ c = round.opening := leveled_eq_iff _ (by decide)
      have hclosing : leveled c = round.closing ↔ c = round.closing := leveled_eq_iff _ (by decide)
      rw [List.map_cons, closingFrom, closingFrom]
      simp only [step_leveled, Quoting.isOutside_map, hopening, hclosing, ih]

theorem body?_leveled (text : Text) :
    round.body? (text.map leveled)
      = (round.body? text).map fun body => (body.1.map leveled, body.2.map leveled) := by
  have hclosing : round.closing? (text.map leveled) 0 = round.closing? text 0 :=
    closingFrom_leveled {} 0 0 text
  unfold body?
  rw [hclosing, Option.map_map]
  congr 1
  funext stop
  simp [List.map_take, List.map_drop]

end Brackets

namespace Schema

/-! ### Statements and comments -/

theorem statements_leveled (script : Text) :
    statements (script.map leveled) = (statements script).map (List.map leveled) := by
  unfold statements
  rw [Text.splitWhere_map (leveled_beq ';' (by decide)), List.filter_map,
    List.map_map, List.map_map]
  congr 1
  · funext fragment
    simp [Text.trim_map isBlank_leveled, leveled_sign ';' (by decide)]
  · exact List.filter_congr fun fragment _ => by
      simp [Text.isBlankText_map isBlank_leveled]

/-- Two signs one after the other stay where they are, and appear nowhere else. -/
theorem no_signs_leveled {first second c : Char} {rest : Text} (hfirst : isSign first = true)
    (hsecond : isSign second = true)
    (h : ∀ after, c = first → rest = second :: after → False) :
    ∀ after, leveled c = first → rest.map leveled = second :: after → False := by
  intro after hc hrest
  cases rest with
  | nil => simp at hrest
  | cons d rest =>
      obtain ⟨hd, -⟩ := List.cons.inj hrest
      exact h rest ((leveled_eq_iff first hfirst).mp hc)
        (by rw [(leveled_eq_iff second hsecond).mp hd])

theorem closesComment_leveled (text : Text) :
    closesComment (text.map leveled) = closesComment text := by
  fun_induction closesComment text with
  | case1 rest => rfl
  | case2 c rest hnone ih =>
      rw [List.map_cons, closesComment, ih]
      exact no_signs_leveled (by decide) (by decide) hnone
  | case3 => rfl

theorem dropBlockComments_leveled (inside : Bool) (text : Text) :
    dropBlockComments inside (text.map leveled) = (dropBlockComments inside text).map leveled := by
  have hstar : leveled '*' = '*' := leveled_sign '*' (by decide)
  have hslash : leveled '/' = '/' := leveled_sign '/' (by decide)
  fun_induction dropBlockComments inside text with
  | case1 inside => simp [dropBlockComments]
  | case2 rest ih =>
      simp only [List.map_cons, hstar, hslash, dropBlockComments, ih]
      rfl
  | case3 c rest hnone ih =>
      rw [List.map_cons, dropBlockComments, ih]
      exact no_signs_leveled (by decide) (by decide) hnone
  | case4 rest hcloses ih =>
      simp only [List.map_cons, hstar, hslash, dropBlockComments,
        closesComment_leveled, hcloses, ih, if_true]
  | case5 rest hcloses =>
      simp [hstar, hslash, dropBlockComments, closesComment_leveled, hcloses]
  | case6 c rest hnone ih =>
      rw [List.map_cons, dropBlockComments, ih]
      · rfl
      · exact no_signs_leveled (by decide) (by decide) hnone

theorem dropLineComments_leveled (inside : Bool) (text : Text) :
    dropLineComments inside (text.map leveled) = (dropLineComments inside text).map leveled := by
  have hbreak : leveled '\n' = '\n' := leveled_sign '\n' (by decide)
  have hdash : leveled '-' = '-' := leveled_sign '-' (by decide)
  fun_induction dropLineComments inside text with
  | case1 inside => simp [dropLineComments]
  | case2 rest ih => simp [hbreak, dropLineComments, ih]
  | case3 c rest hnone ih =>
      rw [List.map_cons, dropLineComments, ih]
      exact fun hc => hnone ((leveled_eq_iff '\n' (by decide)).mp hc)
  | case4 rest ih => simp [hdash, dropLineComments, ih]
  | case5 c rest hnone ih =>
      rw [List.map_cons, dropLineComments, ih]
      · rfl
      · exact no_signs_leveled (by decide) (by decide) hnone

theorem stripComments_leveled (statement : Text) :
    stripComments (statement.map leveled) = (stripComments statement).map leveled := by
  unfold stripComments
  rw [dropBlockComments_leveled, dropLineComments_leveled]

/-! ### The parts of a list -/

namespace ListScan

theorem isQuote_leveled (c : Char) : isQuote (leveled c) = isQuote c := by
  unfold isQuote
  simp (disch := decide) only [leveled_beq]

theorem leveled_of_isQuote {c : Char} (h : isQuote c = true) : leveled c = c := by
  simp only [isQuote, Bool.or_eq_true, beq_iff_eq] at h
  rcases h with rfl | rfl <;> exact leveled_sign _ (by decide)

/-- The scan over the levelled list. -/
def leveled (scan : ListScan) : ListScan :=
  { scan with quoting := scan.quoting.map Diagrams.leveled }

theorem step_leveled (scan : ListScan) (c : Char) :
    scan.leveled.step (Diagrams.leveled c) = (scan.step c).leveled := by
  have hquoting : (scan.quoting.map Diagrams.leveled).step isQuote (Diagrams.leveled c)
      = (scan.quoting.step isQuote c).map Diagrams.leveled :=
    scan.quoting.step_map isQuote_leveled (fun _ => leveled_of_isQuote)
      (leveled_beq '\\' (by decide)) c
  have hopening : Diagrams.leveled c = '(' ↔ c = '(' := leveled_eq_iff _ (by decide)
  have hclosing : Diagrams.leveled c = ')' ↔ c = ')' := leveled_eq_iff _ (by decide)
  unfold step leveled
  simp only [hquoting, Quoting.isOutside_map, hopening, hclosing]

theorem isCut_leveled (scan : ListScan) (c : Char) :
    scan.leveled.isCut (Diagrams.leveled c) = scan.isCut c := by
  unfold isCut leveled
  simp only [Quoting.isOutside_map, leveled_beq ',' (by decide)]

end ListScan

theorem parts_leveled (content : Text) :
    parts (content.map leveled) = (parts content).map (List.map leveled) := by
  have hpieces : Text.piecesBy ListScan.step ListScan.isCut {} (content.map leveled)
      = (Text.piecesBy ListScan.step ListScan.isCut {} content).map (List.map leveled) :=
    Text.piecesBy_map ListScan.step_leveled ListScan.isCut_leveled {} content
  unfold parts
  rw [hpieces]
  generalize Text.piecesBy ListScan.step ListScan.isCut {} content = pieces
  have hlast : Text.trim (((pieces.map (List.map leveled)).getLast?).getD [])
      = (Text.trim (pieces.getLast?.getD [])).map leveled := by
    rw [List.getLast?_map, ← Text.trim_map isBlank_leveled]
    cases pieces.getLast? <;> rfl
  have hfront : ((pieces.map (List.map leveled)).dropLast).map Text.trim
      = (pieces.dropLast.map Text.trim).map (List.map leveled) := by
    simp only [← List.map_dropLast, List.map_map, Function.comp_def,
      Text.trim_map isBlank_leveled]
  simp only [hlast, hfront, List.isEmpty_map, List.map_append]
  split <;> rfl

/-! ### Names and types -/

theorem unquote_leveled (name : Text) :
    unquote (name.map leveled) = (unquote name).map leveled := by
  have hquote : ∀ c, isNameQuote (leveled c) = isNameQuote c := fun c => by
    unfold isNameQuote
    simp (disch := decide) only [leveled_beq]
  unfold unquote
  simp only [Text.trim_map isBlank_leveled, Text.strip_map hquote,
    Text.afterLast?_map (leveled_beq '.' (by decide))]
  cases Text.afterLast? '.' (Text.strip isNameQuote name.trim) with
  | none => rfl
  | some last => exact Text.strip_map hquote last

theorem withoutArguments_leveled (item : Text) :
    withoutArguments (item.map leveled) = (withoutArguments item).map leveled := by
  have hstop : ∀ sign : Char, isSign sign = true → ∀ text : Text,
      (text.map leveled).takeWhile (· != sign) = (text.takeWhile (· != sign)).map leveled :=
    fun sign hsign => Text.takeWhile_map fun c => congrArg not (leveled_beq sign hsign c)
  unfold withoutArguments
  simp only [← List.map_reverse, hstop '\n' (by decide), hstop '(' (by decide), List.length_map,
    ← List.map_take, List.map_append]

theorem listedName_leveled (item : Text) :
    listedName (item.map leveled) = (listedName item).map leveled := by
  unfold listedName
  rw [Text.trim_map isBlank_leveled, withoutArguments_leveled, Text.words_map isBlank_leveled,
    List.head?_map, ← unquote_leveled]
  cases (withoutArguments item.trim).words.head? <;> rfl

theorem identifierList_leveled (text : Text) :
    identifierList (text.map leveled) = (identifierList text).map (List.map leveled) := by
  have hlisted : ((text.splitWhere (· == ',')).map (List.map leveled)).map listedName
      = ((text.splitWhere (· == ',')).map listedName).map (List.map leveled) := by
    simp only [List.map_map, Function.comp_def, listedName_leveled]
  unfold identifierList
  rw [Text.splitWhere_map (leveled_beq ',' (by decide)), hlisted, List.filter_map]
  congr 1
  exact List.filter_congr fun name _ => by simp

theorem normalizeType_leveled (type : Text) :
    normalizeType (type.map leveled) = (normalizeType type).map leveled := by
  refine Text.respaced_map isBlank_leveled (fun a b => ?_) (by decide) type
  unfold isCloseInType
  simp (disch := decide) only [leveled_beq]

/-- A word that is no column name is none in either case. -/
theorem isConstraintWord_leveled (word : Text) :
    isConstraintWord (word.map leveled) = isConstraintWord word := by
  by_cases h : word.Unbroken
  · unfold isConstraintWord
    rw [Text.capitals_map_leveled h]
  · -- A word with a blank in it stands for no capitals.
    have hnone : ∀ other : Text, ¬ other.Unbroken → isConstraintWord other = false := by
      intro other hother
      by_contra hword
      refine hother fun c hc => ?_
      exact isBlank_of_isWordChar (isWordChar_of_isConstraintWord (by simpa using hword) c hc)
    have hleveled : ¬ Text.Unbroken (word.map leveled) := by simpa [Text.Unbroken] using h
    rw [hnone word h, hnone _ hleveled]

end Schema

end Diagrams
