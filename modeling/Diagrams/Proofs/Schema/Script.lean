/-
The outer form of a script that was put together from known pieces.

A script of statements without semicolons falls into these statements, and without hyphens and
slashes there are no comments to remove.  A list of parts falls into its parts where no part shows a
comma outside its brackets and quotes.
-/
import Diagrams.Proofs.Brackets
import Diagrams.Proofs.Schema.Statements

namespace Diagrams.Schema

/-! ### Statements and comments -/

/-- A script of ended statements is split into them. -/
theorem statements_flatMap {α : Type} (body : α → Text) (items : List α)
    (hend : ∀ item ∈ items, ∀ c ∈ body item, c ≠ ';') (hne : ∀ item ∈ items, body item ≠ [])
    (hfirst : ∀ item ∈ items, ∀ c ∈ (body item).head?, isBlank c = false)
    (hlast : ∀ item ∈ items, ∀ c ∈ (body item).getLast?, isBlank c = false) :
    statements (items.flatMap fun item => body item ++ [';'])
      = items.map fun item => body item ++ [';'] := by
  rw [List.flatMap_def, statements_flatten_iff]
  refine List.forall_mem_map.mpr fun item hitem => .ended (hend item hitem) ?_ ?_
  · obtain ⟨c, rest, hbody⟩ := List.exists_cons_of_ne_nil (hne item hitem)
    have hc : isBlank c = false := hfirst item hitem c (by rw [hbody]; rfl)
    simp [Text.isBlankText, hbody, hc]
  · exact Text.strip_eq_self (hfirst item hitem) (hlast item hitem)

theorem infix_of_closesComment {text : Text} (h : closesComment text = true) :
    ['*', '/'] <:+: text := by
  fun_induction closesComment text with
  | case1 rest => exact ⟨[], rest, rfl⟩
  | case2 c rest _ ih => exact (ih h).trans (List.suffix_cons c rest).isInfix
  | case3 => exact absurd h Bool.false_ne_true

/-- No block comment is closed behind the mark that opens it. -/
def Unclosed (text : Text) : Prop :=
  ∀ front rest, text = front ++ '/' :: '*' :: rest → ¬ ['*', '/'] <:+: rest

namespace Unclosed

variable {text : Text} {c : Char}

theorem of_no_opening (h : ¬ ['/', '*'] <:+: text) : Unclosed text := by
  rintro front rest rfl
  exact absurd ⟨front, rest, by simp⟩ h

theorem of_no_closing (h : ¬ ['*', '/'] <:+: text) : Unclosed text := by
  rintro front rest rfl hclosing
  exact h (hclosing.trans ⟨front ++ ['/', '*'], [], by simp⟩)

theorem tail (h : Unclosed (c :: text)) : Unclosed text :=
  fun front rest hsplit => h (c :: front) rest (congrArg (c :: ·) hsplit)

theorem cons (h : Unclosed text) (hopen : c = '/' → text.head? ≠ some '*') :
    Unclosed (c :: text) := by
  rintro (_ | ⟨d, front⟩) rest hsplit
  · obtain ⟨rfl, rfl⟩ := List.cons.inj hsplit
    exact absurd rfl (hopen rfl)
  · exact h front rest (List.cons.inj hsplit).2

theorem of_opening {rest : Text} (h : ¬ ['*', '/'] <:+: rest) : Unclosed ('/' :: '*' :: rest) := by
  rintro (_ | ⟨c, front⟩) after hsplit
  · obtain rfl : rest = after := by simpa using hsplit
    exact h
  · have hbehind : Unclosed ('*' :: rest) :=
      (of_no_closing h).cons fun hstar => absurd hstar (by decide)
    exact hbehind front after (List.cons.inj hsplit).2

/-- A text where every block comment stays open is left alone. -/
theorem dropBlockComments_eq_self (h : Unclosed text) : dropBlockComments false text = text := by
  generalize hinside : false = inside
  fun_induction dropBlockComments inside text with
  | case1 inside => rfl
  | case2 rest ih => exact absurd hinside Bool.false_ne_true
  | case3 c rest _ ih => exact absurd hinside Bool.false_ne_true
  | case4 rest hcloses ih => exact absurd (infix_of_closesComment hcloses) (h [] rest rfl)
  | case5 rest hcloses => rfl
  | case6 c rest hnone ih => rw [ih h.tail rfl]

end Unclosed

/-- A block comment has to be opened and closed. -/
theorem dropBlockComments_of_unclosed {text : Text}
    (h : ¬ ['/', '*'] <:+: text ∨ ¬ ['*', '/'] <:+: text) : dropBlockComments false text = text :=
  (h.elim Unclosed.of_no_opening Unclosed.of_no_closing).dropBlockComments_eq_self

theorem dropBlockComments_of_unmarked {text : Text} (h : ¬ ['/', '*'] <:+: text) :
    dropBlockComments false text = text := dropBlockComments_of_unclosed (.inl h)

theorem dropLineComments_of_unmarked {text : Text} (h : ¬ ['-', '-'] <:+: text) :
    dropLineComments false text = text := by
  generalize hinside : false = inside
  fun_induction dropLineComments inside text with
  | case1 inside => rfl
  | case2 rest ih => exact absurd hinside Bool.false_ne_true
  | case3 c rest _ ih => exact absurd hinside Bool.false_ne_true
  | case4 rest ih => exact absurd ⟨[], rest, rfl⟩ h
  | case5 c rest _ ih =>
      rw [ih (fun htext => h (htext.trans (List.suffix_cons c rest).isInfix)) rfl]

/-- A text without the marks that open comments stays as it is. -/
theorem stripComments_of_unmarked {text : Text} (hblock : ¬ ['/', '*'] <:+: text)
    (hline : ¬ ['-', '-'] <:+: text) : stripComments text = text := by
  unfold stripComments
  rw [dropBlockComments_of_unmarked hblock, dropLineComments_of_unmarked hline]

/-- Without slashes and hyphens there are no comments. -/
theorem stripComments_eq_self {text : Text} (h : ∀ c ∈ text, c ≠ '/' ∧ c ≠ '-') :
    stripComments text = text := by
  refine stripComments_of_unmarked (fun hblock => ?_) fun hline => ?_
  · exact (h '/' (hblock.mem List.mem_cons_self)).1 rfl
  · exact (h '-' (hline.mem List.mem_cons_self)).2 rfl

/-! ### Parts -/

namespace ListScan

variable {before : Option Char} {depth : Int} {c : Char}

theorem step_plain (hquote : isQuote c = false) (hopening : c ≠ '(') (hclosing : c ≠ ')') :
    step ⟨⟨before, none⟩, depth⟩ c = ⟨⟨some c, none⟩, depth⟩ := by
  simp [step, Quoting.step_of_plain hquote, hopening, hclosing]

theorem step_quote (hquote : isQuote c = true) (hbefore : before ≠ some '\\') :
    step ⟨⟨before, none⟩, depth⟩ c = ⟨⟨some c, some c⟩, depth⟩ := by
  simp [step, Quoting.step_of_quote hquote hbefore, Quoting.isOutside]

theorem step_inside {quote : Char} (h : c ≠ quote) :
    step ⟨⟨before, some quote⟩, depth⟩ c = ⟨⟨some c, some quote⟩, depth⟩ := by
  simp [step, Quoting.step_inside h, Quoting.isOutside]

theorem step_closing {quote : Char} (hquote : isQuote quote = true) (hbefore : before ≠ some '\\') :
    step ⟨⟨before, some quote⟩, depth⟩ quote = ⟨⟨some quote, none⟩, depth⟩ := by
  have hopening : quote ≠ '(' := by
    rintro rfl
    exact absurd hquote (by decide)
  have hclosing : quote ≠ ')' := by
    rintro rfl
    exact absurd hquote (by decide)
  simp [step, Quoting.step_of_closing hquote hbefore, hopening, hclosing]

theorem isCut_eq_false {scan : ListScan} (h : c ≠ ',') : scan.isCut c = false := by
  simp [isCut, h]

theorem isCut_of_deep (h : 1 ≤ depth) : isCut ⟨⟨before, none⟩, depth⟩ c = false := by
  have hdeep : depth ≠ 0 := by omega
  simp [isCut, hdeep]

theorem isCut_inside {quote : Char} : isCut ⟨⟨before, some quote⟩, depth⟩ c = false := by
  simp [isCut, Quoting.isOutside]

end ListScan

/-- The pieces of a list that goes on with `text`, from where a scan stands. -/
abbrev pieces (scan : ListScan) (text : Text) : List Text :=
  Text.piecesBy ListScan.step ListScan.isCut scan text

theorem pieces_of_keep {scan : ListScan} {c : Char} (h : (scan.step c).isCut c = false)
    (rest : Text) : pieces scan (c :: rest) = Text.prepended [c] (pieces (scan.step c) rest) :=
  Text.piecesBy_cons_of_keep h rest

theorem pieces_of_cut {scan : ListScan} {c : Char} (h : (scan.step c).isCut c = true)
    (rest : Text) : pieces scan (c :: rest) = [] :: pieces (scan.step c) rest :=
  Text.piecesBy_cons_of_cut h rest

variable {before : Option Char} {depth : Int}

theorem pieces_quoted {quote : Char} {inner : Text} (hquote : ListScan.isQuote quote = true)
    (hbefore : before ≠ some '\\') (hinner : ∀ c ∈ inner, c ≠ quote ∧ c ≠ '\\') (rest : Text) :
    pieces ⟨⟨before, some quote⟩, depth⟩ (inner ++ quote :: rest)
      = Text.prepended (inner ++ [quote]) (pieces ⟨⟨some quote, none⟩, depth⟩ rest) := by
  induction inner generalizing before with
  | nil =>
      have hcomma : quote ≠ ',' := by
        rintro rfl
        exact absurd hquote (by decide)
      rw [List.nil_append, pieces_of_keep (ListScan.isCut_eq_false hcomma),
        ListScan.step_closing hquote hbefore]
      rfl
  | cons c inner ih =>
      obtain ⟨⟨hne, hslash⟩, hinner⟩ := List.forall_mem_cons.mp hinner
      have hc : (some c : Option Char) ≠ some '\\' := by simpa using hslash
      have hkeep : ListScan.isCut (ListScan.step ⟨⟨before, some quote⟩, depth⟩ c) c = false := by
        rw [ListScan.step_inside hne]
        exact ListScan.isCut_inside
      rw [List.cons_append, pieces_of_keep hkeep, ListScan.step_inside hne, ih hc hinner,
        Text.prepended_prepended]
      rfl

/-- A scan for commas takes a nested text into one piece and comes out of it as it went in.  Inside
of brackets no comma is a cut. -/
theorem pieces_nested {avoids : Char → Bool} {text : Text}
    (htext : Nested .round ListScan.isQuote avoids text) (hbefore : before ≠ some '\\')
    (hdepth : 0 ≤ depth) (hcomma : depth = 0 → avoids ',' = true) :
    ∃ last, last ≠ some '\\' ∧ ∀ rest,
      pieces ⟨⟨before, none⟩, depth⟩ (text ++ rest)
        = Text.prepended text (pieces ⟨⟨last, none⟩, depth⟩ rest) := by
  induction htext generalizing before depth with
  | nil =>
      refine ⟨before, hbefore, fun rest => ?_⟩
      rw [List.nil_append, Text.prepended_nil_of_ne_nil (Text.piecesBy_ne_nil _ _)]
  | @plain avoids c text quote opening closing slash allowed _ ih =>
      have hc : (some c : Option Char) ≠ some '\\' := by simpa using slash
      obtain ⟨last, hlast, hscan⟩ := ih hc hdepth hcomma
      refine ⟨last, hlast, fun rest => ?_⟩
      have hstep : ListScan.step ⟨⟨before, none⟩, depth⟩ c = ⟨⟨some c, none⟩, depth⟩ :=
        ListScan.step_plain quote opening closing
      have hkeep : ListScan.isCut (ListScan.step ⟨⟨before, none⟩, depth⟩ c) c = false := by
        rw [hstep]
        by_cases hzero : depth = 0
        · refine ListScan.isCut_eq_false ?_
          rintro rfl
          rw [hcomma hzero] at allowed
          exact Bool.noConfusion allowed
        · exact ListScan.isCut_of_deep (by omega)
      rw [List.cons_append, pieces_of_keep hkeep, hstep, hscan,
        Text.prepended_prepended]
      rfl
  | @quoted avoids quote inner text mark slash inside _ ih =>
      have hq : (some quote : Option Char) ≠ some '\\' := by simpa using slash
      obtain ⟨last, hlast, hscan⟩ := ih hq hdepth hcomma
      refine ⟨last, hlast, fun rest => ?_⟩
      have hkeep : ListScan.isCut (ListScan.step ⟨⟨before, none⟩, depth⟩ quote) quote = false := by
        rw [ListScan.step_quote mark hbefore]
        exact ListScan.isCut_inside
      rw [List.cons_append, List.append_assoc, List.cons_append,
        pieces_of_keep hkeep, ListScan.step_quote mark hbefore,
        pieces_quoted mark hq inside, hscan, Text.prepended_prepended, Text.prepended_prepended]
      simp
  | @group avoids inner text _ _ ihInner ih =>
      have hopening : (some '(' : Option Char) ≠ some '\\' := by decide
      have hclosing : (some ')' : Option Char) ≠ some '\\' := by decide
      have hdeep : 0 ≤ depth + 1 := by omega
      have hne : depth + 1 ≠ 0 := by omega
      obtain ⟨_, -, hinner⟩ := ihInner hopening hdeep (fun hzero => absurd hzero hne)
      obtain ⟨last, hlast, hscan⟩ := ih hclosing hdepth hcomma
      refine ⟨last, hlast, fun rest => ?_⟩
      have hopen : ListScan.step ⟨⟨before, none⟩, depth⟩ '(' = ⟨⟨some '(', none⟩, depth + 1⟩ := by
        simp [ListScan.step, Quoting.step, ListScan.isQuote, Quoting.isOutside]
      have hclose : ∀ before, ListScan.step ⟨⟨before, none⟩, depth + 1⟩ ')'
          = ⟨⟨some ')', none⟩, depth⟩ := by
        intro before
        simp [ListScan.step, Quoting.step, ListScan.isQuote, Quoting.isOutside]
      show pieces _ ('(' :: (inner ++ ')' :: text) ++ rest) = _
      rw [List.cons_append, List.append_assoc, List.cons_append,
        pieces_of_keep (ListScan.isCut_eq_false (by decide)), hopen, hinner,
        pieces_of_keep (ListScan.isCut_eq_false (by decide)), hclose, hscan,
        Text.prepended_prepended, Text.prepended_prepended, Text.prepended_prepended]
      simp [Brackets.round]

/-- The separator of parts: a comma with a space after it. -/
abbrev partSeparator : Text := [',', ' ']

/-- A list of parts is cut at the commas between them, and the space stays with the next part. -/
theorem pieces_joined {text : Text} {others : List Text}
    (h : ∀ part ∈ text :: others, Nested .round ListScan.isQuote (· == ',') part)
    (hbefore : before ≠ some '\\') :
    pieces ⟨⟨before, none⟩, 0⟩ (Text.joined partSeparator (text :: others))
      = text :: others.map (' ' :: ·) := by
  induction others generalizing text before with
  | nil =>
      obtain ⟨last, -, hscan⟩ := pieces_nested (h text List.mem_cons_self) hbefore (Int.le_refl 0)
        (fun _ => rfl)
      have hend := hscan []
      rw [List.append_nil] at hend
      rw [Text.joined_singleton, hend]
      simp [pieces, Text.piecesBy]
  | cons next others ih =>
      obtain ⟨htext, hothers⟩ := List.forall_mem_cons.mp h
      obtain ⟨last, hlast, hscan⟩ := pieces_nested htext hbefore (Int.le_refl 0) (fun _ => rfl)
      have hcomma : ∀ before, ListScan.step ⟨⟨before, none⟩, 0⟩ ',' = ⟨⟨some ',', none⟩, 0⟩ :=
        fun before => ListScan.step_plain rfl (by decide) (by decide)
      have hspace : ∀ before, ListScan.step ⟨⟨before, none⟩, 0⟩ ' ' = ⟨⟨some ' ', none⟩, 0⟩ :=
        fun before => ListScan.step_plain rfl (by decide) (by decide)
      have hcut : ListScan.isCut (ListScan.step ⟨⟨last, none⟩, 0⟩ ',') ',' = true := by
        rw [hcomma]
        rfl
      have hkeep : ListScan.isCut (ListScan.step ⟨⟨some ',', none⟩, 0⟩ ' ') ' ' = false :=
        ListScan.isCut_eq_false (by decide)
      rw [Text.joined_cons_cons, hscan, List.cons_append, List.singleton_append, pieces_of_cut hcut,
        hcomma, pieces_of_keep hkeep, hspace, ih hothers (by decide)]
      simp

/-- A list falls into the parts that it was joined from. -/
theorem parts_joined {texts : List Text}
    (hnested : ∀ text ∈ texts, Nested .round ListScan.isQuote (· == ',') text)
    (hne : ∀ text ∈ texts, text ≠ [])
    (hfirst : ∀ text ∈ texts, ∀ c ∈ text.head?, isBlank c = false)
    (hlast : ∀ text ∈ texts, ∀ c ∈ text.getLast?, isBlank c = false) :
    parts (Text.joined partSeparator texts) = texts := by
  cases texts with
  | nil => rfl
  | cons text others =>
      have htrim : ∀ part ∈ text :: others, Text.trim part = part := fun part hpart =>
        Text.strip_eq_self (hfirst part hpart) (hlast part hpart)
      have htrims : (text :: others.map (' ' :: ·)).map Text.trim = text :: others := by
        rw [List.map_cons, List.map_map, htrim text List.mem_cons_self]
        congr 1
        refine (List.map_congr_left fun part hpart => ?_).trans (List.map_id others)
        show Text.trim (' ' :: part) = id part
        rw [Text.trim_cons_of_blank (by decide), htrim part (List.mem_cons_of_mem _ hpart)]
        rfl
      have hpieces : Text.piecesBy ListScan.step ListScan.isCut {}
          (Text.joined partSeparator (text :: others)) = text :: others.map (' ' :: ·) :=
        pieces_joined hnested (by decide)
      obtain ⟨inner, last, hsplit⟩ : ∃ inner last,
          text :: others.map (' ' :: ·) = inner ++ [last] :=
        ⟨_, _, (List.dropLast_concat_getLast (List.cons_ne_nil _ _)).symm⟩
      have hmap : inner.map Text.trim ++ [last.trim] = text :: others := by
        rw [← htrims, hsplit, List.map_append, List.map_singleton]
      have hfull : last.trim ≠ [] := by
        refine hne _ ?_
        rw [← hmap]
        simp
      unfold parts
      rw [hpieces, hsplit]
      simp only [List.getLast?_append, List.getLast?_singleton, Option.some_or, Option.getD_some,
        List.dropLast_concat]
      rw [if_neg (by simpa using hfull), hmap]

end Diagrams.Schema
