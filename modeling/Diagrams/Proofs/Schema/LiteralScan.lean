/-
Scans over a quoted literal.

A literal is one stretch for every scan over a statement: it has no comments in it, no
brackets and no commas that count, whatever its text is.  So the outer form of a statement,
its comments, the list in its brackets and the parts of the list, is told by what stands in
front of the literal and behind it.
-/
import Diagrams.Proofs.Schema.Parts
import Diagrams.Schema.Table

namespace Diagrams

/-! ### Texts around a character that stays -/

namespace Text

variable {test : Char → Bool} {c : Char}

theorem dropStart_append_cons (h : test c = false) (front rest : Text) :
    (front ++ c :: rest).dropStart test = front.dropStart test ++ c :: rest := by
  induction front with
  | nil => exact List.dropWhile_cons_of_neg (by simp [h])
  | cons d front ih =>
      cases hd : test d with
      | true =>
          rw [List.cons_append, dropStart, dropStart, List.dropWhile_cons_of_pos hd,
            List.dropWhile_cons_of_pos hd]
          exact ih
      | false =>
          have hneg : ¬ test d = true := by simp [hd]
          rw [List.cons_append, dropStart, dropStart, List.dropWhile_cons_of_neg hneg,
            List.dropWhile_cons_of_neg hneg]
          rfl

theorem dropEnd_append_cons (h : test c = false) (front rest : Text) :
    (front ++ c :: rest).dropEnd test = front ++ c :: rest.dropEnd test := by
  have hreverse := dropStart_append_cons h rest.reverse front.reverse
  unfold dropStart at hreverse
  unfold dropEnd
  rw [List.reverse_append, List.reverse_cons, List.append_assoc, List.singleton_append, hreverse]
  simp

/-- Blanks around a text are not those around the character in the middle. -/
theorem trim_append_cons (h : isBlank c = false) (front rest : Text) :
    (front ++ c :: rest).trim = front.dropStart isBlank ++ c :: rest.dropEnd isBlank := by
  rw [trim, strip, dropStart_append_cons h, dropEnd_append_cons h]

end Text

namespace Schema

/-! ### Literals -/

/-- A text between single quotes. -/
def literal (text : Text) : Text := '\x27' :: (text ++ ['\x27'])

/-- Free of quotes of the same kind, backslashes and semicolons. -/
def Quotable (text : Text) : Prop := ∀ c ∈ text, c ≠ '\x27' ∧ c ≠ '\\' ∧ c ≠ ';'

instance (text : Text) : Decidable (Quotable text) :=
  List.decidableBAll _ text

theorem literal_append (text rest : Text) :
    literal text ++ rest = '\x27' :: (text ++ '\x27' :: rest) := by
  simp [literal]

/-! ### Comments -/

/-- Every comment that is opened in the text is closed in it, so that a quote behind it stays. -/
structure CommentsClosed (text : Text) : Prop where
  block : ¬ ['/', '*'] <:+: dropBlockComments false text
  line : dropLineComments false (dropBlockComments false text ++ ['\x27'])
    = dropLineComments false (dropBlockComments false text) ++ ['\x27']

theorem closesComment_append {text : Text} (h : closesComment text = true) (rest : Text) :
    closesComment (text ++ rest) = true := by
  fun_induction closesComment text with
  | case1 text => rfl
  | case2 c text hnone ih =>
      rw [List.cons_append]
      by_cases hcloses : ∃ after, c = '*' ∧ text ++ rest = '/' :: after
      · obtain ⟨after, rfl, hafter⟩ := hcloses
        rw [hafter]
        rfl
      · rw [closesComment, ih h]
        exact fun after hc hafter => hcloses ⟨after, hc, hafter⟩
  | case3 => exact absurd h Bool.false_ne_true

/-- A quote is no part of a mark, so a pair of characters in front of it stays what it is. -/
theorem no_mark_append_quote {first second c : Char} {text : Text} (hquote : second ≠ '\x27')
    (h : ∀ after, c = first → text = second :: after → False) (rest : Text) :
    ∀ after, c = first → text ++ '\x27' :: rest = second :: after → False := by
  intro after hc htext
  cases text with
  | nil => exact hquote (List.cons.inj htext).1.symm
  | cons d text => exact h text hc (by rw [(List.cons.inj htext).1])

theorem dropBlockComments_quote {inside : Bool} {front : Text}
    (hinside : inside = true → closesComment front = true)
    (h : ¬ ['/', '*'] <:+: dropBlockComments inside front) (rest : Text) :
    dropBlockComments inside (front ++ '\x27' :: rest)
      = dropBlockComments inside front ++ '\x27' :: dropBlockComments false rest := by
  fun_induction dropBlockComments inside front with
  | case1 inside =>
      cases inside with
      | true => exact absurd (hinside rfl) Bool.false_ne_true
      | false => rfl
  | case2 front ih =>
      have hfront := ih (by simp) fun hmark => h (hmark.trans (List.suffix_cons _ _).isInfix)
      rw [List.cons_append, List.cons_append, dropBlockComments, hfront]
      rfl
  | case3 c front hnone ih =>
      have hcloses := hinside rfl
      rw [closesComment.eq_2 _ _ hnone] at hcloses
      rw [List.cons_append, dropBlockComments.eq_3 _ _
        (no_mark_append_quote (by decide) hnone rest), ih (fun _ => hcloses) h]
  | case4 front hcloses ih =>
      rw [List.cons_append, List.cons_append, dropBlockComments,
        if_pos (closesComment_append hcloses _), ih (fun _ => hcloses) h]
  | case5 front hcloses => exact absurd ⟨[], front, rfl⟩ h
  | case6 c front hnone ih =>
      have hfront := ih (by simp) fun hmark => h (hmark.trans (List.suffix_cons _ _).isInfix)
      rw [List.cons_append, dropBlockComments.eq_5 _ _
        (no_mark_append_quote (by decide) hnone rest), hfront]
      rfl

theorem dropLineComments_quote {inside : Bool} {front : Text}
    (h : dropLineComments inside (front ++ ['\x27']) = dropLineComments inside front ++ ['\x27'])
    (rest : Text) :
    dropLineComments inside (front ++ '\x27' :: rest)
      = dropLineComments inside front ++ '\x27' :: dropLineComments false rest := by
  fun_induction dropLineComments inside front with
  | case1 inside =>
      cases inside with
      | true => simp [dropLineComments] at h
      | false => rfl
  | case2 front ih =>
      rw [List.cons_append, dropLineComments] at h ⊢
      rw [ih (List.cons.inj h).2]
      rfl
  | case3 c front hnone ih =>
      rw [List.cons_append, dropLineComments.eq_3 _ _ hnone] at h ⊢
      exact ih h
  | case4 front ih =>
      rw [List.cons_append, List.cons_append, dropLineComments] at h ⊢
      exact ih h
  | case5 c front hnone ih =>
      rw [List.cons_append, dropLineComments.eq_5 _ _
        (no_mark_append_quote (by decide) hnone _)] at h ⊢
      rw [ih (List.cons.inj h).2]
      rfl

/-- Behind closed comments a quote stays, and comments are removed in front of it and behind it. -/
theorem stripComments_quote {front : Text} (h : CommentsClosed front) (rest : Text) :
    stripComments (front ++ '\x27' :: rest)
      = stripComments front ++ '\x27' :: stripComments rest := by
  unfold stripComments
  rw [dropBlockComments_quote (by simp) h.block, dropLineComments_quote h.line]

theorem CommentsClosed.of_unmarked {text : Text} (hblock : ¬ ['/', '*'] <:+: text)
    (hline : ¬ ['-', '-'] <:+: text) : CommentsClosed text := by
  have hblocks := dropBlockComments_of_unmarked hblock
  have hlines := dropLineComments_of_unmarked hline
  have hquote : ¬ ['-', '-'] <:+: text ++ ['\x27'] := by
    intro hmark
    rcases List.infix_concat_iff.mp hmark with ⟨near, hsuffix⟩ | hmark
    · have hlast := congrArg List.getLast? hsuffix
      simp at hlast
    · exact hline hmark
  refine ⟨by rwa [hblocks], ?_⟩
  rw [hblocks, hlines, dropLineComments_of_unmarked hquote]

/-- A literal without comment marks stays as it is. -/
theorem stripComments_literal {front text : Text} (h : CommentsClosed front)
    (hblock : ¬ ['/', '*'] <:+: text) (hline : ¬ ['-', '-'] <:+: text) (rest : Text) :
    stripComments (front ++ literal text ++ rest)
      = stripComments front ++ literal text ++ stripComments rest := by
  rw [List.append_assoc, literal_append, stripComments_quote h,
    stripComments_quote (.of_unmarked hblock hline), stripComments_of_unmarked hblock hline,
    List.append_assoc, literal_append]

end Schema

/-! ### Brackets -/

/-- A quote that comes next opens a literal. -/
structure Quoting.Ready (state : Quoting) : Prop where
  outside : state.quote = none
  unescaped : state.before ≠ some '\\'

namespace Brackets

variable {brackets : Brackets} {state : Quoting} {depth : Int}

/-- A scan that finds no closing bracket in a text goes on behind it. -/
theorem exists_closingFrom_append {offset : Nat} {front : Text}
    (h : brackets.closingFrom state depth offset front = none) :
    ∃ deeper, ∀ rest, brackets.closingFrom state depth offset (front ++ rest)
      = brackets.closingFrom (front.foldl (Quoting.step isQuote) state) deeper
          (offset + front.length) rest := by
  induction front generalizing state depth offset with
  | nil => exact ⟨depth, fun rest => rfl⟩
  | cons c front ih =>
      rw [closingFrom] at h
      simp only [List.foldl_cons, add_length_cons, List.cons_append, closingFrom]
      split at h
      · rename_i hinside
        simpa only [if_pos hinside] using ih h
      · rename_i houtside
        simp only [if_neg houtside]
        split at h
        · rename_i hopening
          simpa only [if_pos hopening] using ih h
        · rename_i hopening
          simp only [if_neg hopening]
          split at h
          · rename_i hclosing
            simp only [if_pos hclosing]
            split at h
            · exact absurd h (Option.some_ne_none _)
            · rename_i hdepth
              simpa only [if_neg hdepth] using ih h
          · rename_i hclosing
            simpa only [if_neg hclosing] using ih h

/-- Where the closing bracket stands is counted from where the scan begins. -/
theorem closingFrom_add (offset more : Nat) (text : Text) :
    brackets.closingFrom state depth (offset + more) text
      = (brackets.closingFrom state depth offset text).map (· + more) := by
  induction text generalizing state depth offset with
  | nil => rfl
  | cons c text ih =>
      rw [closingFrom, closingFrom, Nat.add_right_comm]
      simp only [ih]
      split
      · rfl
      · split
        · rfl
        · split
          · split <;> rfl
          · rfl

theorem closingFrom_literal (hround : brackets.Apart Brackets.isQuote) (hready : state.Ready)
    {text : Text} (htext : Schema.Quotable text) (offset : Nat) (rest : Text) :
    brackets.closingFrom state depth offset (Schema.literal text ++ rest)
      = brackets.closingFrom ⟨some '\x27', none⟩ depth
        (offset + (Schema.literal text).length) rest := by
  obtain ⟨before, quote⟩ := state
  obtain ⟨rfl, hbefore⟩ := hready
  have hopening : brackets.closingFrom ⟨before, none⟩ depth offset (Schema.literal text ++ rest)
      = brackets.closingFrom ⟨some '\x27', some '\x27'⟩ depth (offset + 1)
        (text ++ '\x27' :: rest) := by
    rw [Schema.literal_append, closingFrom, Quoting.step_of_quote rfl hbefore]
    simp [Quoting.isOutside]
  have hinner : ∀ c ∈ text, c ≠ '\x27' ∧ c ≠ '\\' := fun c hc => ⟨(htext c hc).1, (htext c hc).2.1⟩
  rw [hopening, closingFrom_quoted _ hround rfl (by decide) hinner]
  congr 1
  simp only [Schema.literal, List.length_cons, List.length_append, List.length_nil]
  omega

/-- The list in brackets takes a literal as it is, whatever its text. -/
theorem exists_body?_literal {list : Text} (hopen : round.closing? ('(' :: list) 0 = none)
    (hready : (('(' :: list).foldl (Quoting.step isQuote) {}).Ready) (rest : Text) :
    ∃ body : Option (Text × Text), ∀ text, Schema.Quotable text →
      round.body? ('(' :: (list ++ (Schema.literal text ++ rest)))
        = body.map fun body => (list ++ (Schema.literal text ++ body.1), body.2) := by
  rw [closing?, if_pos rfl, List.drop_zero] at hopen
  obtain ⟨deeper, hscan⟩ := exists_closingFrom_append hopen
  refine ⟨(round.closingFrom ⟨some '\x27', none⟩ deeper 0 rest).map fun stop =>
    (rest.take stop, rest.drop (stop + 1)), fun text htext => ?_⟩
  let front := '(' :: (list ++ Schema.literal text)
  have hfront : '(' :: (list ++ (Schema.literal text ++ rest)) = front ++ rest := by simp [front]
  have hclosing : round.closing? (front ++ rest) 0
      = (round.closingFrom ⟨some '\x27', none⟩ deeper 0 rest).map (· + front.length) := by
    have hlength : 0 + ('(' :: list).length + (Schema.literal text).length = 0 + front.length := by
      simp only [front, List.length_cons, List.length_append]
      omega
    have hscanned := hscan (Schema.literal text ++ rest)
    rw [closingFrom_literal (apart_round (by decide)) hready htext, hlength,
      closingFrom_add] at hscanned
    rw [← hscanned, closing?, if_pos rfl, List.drop_zero, ← hfront]
    rfl
  rw [hfront, body?, hclosing, Option.map_map, Option.map_map]
  refine Option.map_congr fun stop _ => ?_
  have htake : ((front ++ rest).take (stop + front.length)).drop 1
      = list ++ (Schema.literal text ++ rest.take stop) := by
    rw [Nat.add_comm, List.take_length_add_append]
    simp [front]
  have hdrop : (front ++ rest).drop (stop + front.length + 1) = rest.drop (stop + 1) := by
    rw [show stop + front.length + 1 = front.length + (stop + 1) by omega,
      List.drop_length_add_append]
  exact Prod.ext htake hdrop

end Brackets

/-! ### Parts -/

namespace Schema

/-- The part that has been begun at the end of a list. -/
def begunPart (list : Text) : Text :=
  ((pieces {} list).getLast?.getD []).dropStart isBlank

theorem begunPart_suffix (list : Text) : begunPart list <:+ list :=
  (List.dropWhile_suffix _).trans (Text.getLast?_piecesBy_suffix _ _)

theorem head?_begunPart (list : Text) : ∀ c ∈ (begunPart list).head?, isBlank c = false :=
  Text.head?_dropStart _

theorem partsOf_cons {piece : Text} (h : piece.trim ≠ []) (others : List Text) :
    partsOf (piece :: others) = piece.trim :: partsOf others := by
  cases others with
  | nil =>
      have hempty : ¬ piece.trim.isEmpty = true := by simpa using h
      exact if_neg hempty
  | cons next others => simp [partsOf]

theorem pieces_literal {scan : ListScan} (hready : scan.quoting.Ready) {text : Text}
    (htext : Quotable text) (rest : Text) :
    pieces scan (literal text ++ rest)
      = Text.prepended (literal text) (pieces ⟨⟨some '\x27', none⟩, scan.depth⟩ rest) := by
  obtain ⟨⟨before, quote⟩, depth⟩ := scan
  obtain ⟨rfl, hbefore⟩ := hready
  have hinner : ∀ c ∈ text, c ≠ '\x27' ∧ c ≠ '\\' := fun c hc => ⟨(htext c hc).1, (htext c hc).2.1⟩
  rw [literal_append, pieces_of_keep (ListScan.isCut_eq_false (by decide)),
    ListScan.step_quote rfl hbefore, pieces_quoted rfl (by decide) hinner, Text.prepended_prepended]
  rfl

/-- A literal belongs to the part that was begun in front of it, whatever its text. -/
theorem exists_parts_literal {list : Text} (hready : (list.foldl ListScan.step {}).quoting.Ready)
    (rest : Text) :
    ∃ before ending after, ∀ text, Quotable text →
      parts (list ++ (literal text ++ rest))
        = before ++ (begunPart list ++ (literal text ++ ending)) :: after := by
  let scan := list.foldl ListScan.step {}
  obtain ⟨piece, others, hpieces⟩ := List.exists_cons_of_ne_nil
    (show pieces ⟨⟨some '\x27', none⟩, scan.depth⟩ rest ≠ [] from Text.piecesBy_ne_nil _ _)
  refine ⟨(pieces {} list).dropLast.map Text.trim, piece.dropEnd isBlank, partsOf others,
    fun text htext => ?_⟩
  let last := (pieces {} list).getLast?.getD []
  have hlast : Text.trim (last ++ (literal text ++ piece))
      = begunPart list ++ (literal text ++ piece.dropEnd isBlank) := by
    rw [Text.trim, Text.strip, literal_append, Text.dropStart_append_cons (by decide),
      ← List.cons_append, ← List.append_assoc, Text.dropEnd_append_cons (by decide), literal_append]
    simp [begunPart, last]
  have hall : pieces {} (list ++ (literal text ++ rest))
      = (pieces {} list).dropLast ++ (last ++ (literal text ++ piece)) :: others := by
    rw [pieces, Text.piecesBy_append]
    have hscan : pieces scan (literal text ++ rest)
        = Text.prepended (literal text) (pieces ⟨⟨some '\x27', none⟩, scan.depth⟩ rest) :=
      pieces_literal hready htext rest
    show _ ++ Text.prepended last (pieces scan (literal text ++ rest)) = _
    rw [hscan, hpieces]
    rfl
  show partsOf (pieces {} (list ++ (literal text ++ rest))) = _
  rw [hall, partsOf_append _ (List.cons_ne_nil _ _), partsOf_cons, hlast]
  rw [hlast]
  simp [literal]

/-- The list behind a name takes a literal as it is, whatever its text. -/
theorem exists_looseList_literal {space list : Text} (hspace : '(' ∉ space)
    (hopen : Brackets.round.closing? ('(' :: list) 0 = none)
    (hready : (('(' :: list).foldl (Quoting.step Brackets.isQuote) {}).Ready) (rest : Text) :
    ∃ ending, ∀ text, Quotable text →
      looseList (space ++ '(' :: (list ++ (literal text ++ rest)))
        = list ++ (literal text ++ ending) := by
  obtain ⟨body, hbody⟩ := Brackets.exists_body?_literal hopen hready rest
  have hdrop : ∀ tail, (space ++ '(' :: tail).dropWhile (· != '(') = '(' :: tail := fun tail =>
    dropWhile_append_of_stop (fun c hc => by simpa using fun h : c = '(' => hspace (h ▸ hc))
      (forall_head?_cons (by decide) tail)
  have hend : ∀ {test : Char → Bool}, test '\x27' = false → ∀ text rest : Text,
      Text.dropEnd test (list ++ (literal text ++ rest))
        = list ++ (literal text ++ rest.dropEnd test) := by
    intro test htest text rest
    rw [literal_append, ← List.cons_append, ← List.append_assoc, Text.dropEnd_append_cons htest,
      literal_append, List.append_assoc, List.cons_append]
  refine ⟨match body with
    | some body => body.1
    | none => (rest.dropEnd isBlank).dropEnd (· == ';'), fun text htext => ?_⟩
  unfold looseList
  simp only [hdrop, hbody text htext]
  cases body with
  | some body => rfl
  | none =>
      show Text.dropEnd (· == ';') (Text.dropEnd isBlank (list ++ (literal text ++ rest))) = _
      rw [hend (by decide), hend (by decide)]

end Schema

end Diagrams
