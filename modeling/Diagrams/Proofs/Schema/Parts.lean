/-
How a list falls into parts.

The scan over a list runs through all parts without a stop, but at a comma that counts it is outside
quotes and brackets, and from there on it sees what it would see at the start of a text: that is
what `Alike` says.  So a part can be judged by itself.  It is `Closed` if a scan of it alone ends
outside quotes and brackets, and `CommaFree` if such a scan meets no comma outside of both.  Every
text is either free of commas or a closed part without commas, a comma and another text
(`list_induction`), and the parts are what stands between the commas (`parts_exact`).
-/
import Diagrams.Proofs.Schema.Script
import Diagrams.Proofs.Text.Slices

namespace Diagrams.Schema

namespace ListScan

/-- Where a scan stands behind a text. -/
def behind (scan : ListScan) (text : Text) : ListScan := text.foldl step scan

/-- The places of the commas that a scan meets outside quotes and brackets. -/
def commas (scan : ListScan) (text : Text) : List Nat := Text.cuts step isCut scan text

/-- Whether the scan is outside quotes and brackets. -/
def IsClosed (scan : ListScan) : Prop := scan.quoting.isOutside = true ∧ scan.depth = 0

instance (scan : ListScan) : Decidable scan.IsClosed := inferInstanceAs (Decidable (_ ∧ _))

/-- Scans that see the same in whatever text comes next. -/
structure Alike (scan other : ListScan) : Prop where
  quote : scan.quoting.quote = other.quoting.quote
  depth : scan.depth = other.depth
  slash : scan.quoting.before = some '\\' ↔ other.quoting.before = some '\\'

variable {scan other : ListScan} {c : Char}

theorem Alike.step (h : Alike scan other) (c : Char) : Alike (scan.step c) (other.step c) := by
  have hslash : (scan.quoting.before != some '\\') = (other.quoting.before != some '\\') := by
    rw [Bool.eq_iff_iff, bne_iff_ne, bne_iff_ne, ne_eq, ne_eq, h.slash]
  have hquoting : scan.quoting.step isQuote c = other.quoting.step isQuote c := by
    unfold Quoting.step
    rw [hslash, h.quote]
  constructor
  · exact congrArg Quoting.quote hquoting
  · unfold ListScan.step
    rw [hquoting, h.depth]
  · unfold ListScan.step
    rw [hquoting]

theorem Alike.behind (h : Alike scan other) (text : Text) :
    Alike (scan.behind text) (other.behind text) := by
  induction text generalizing scan other with
  | nil => exact h
  | cons c text ih => exact ih (h.step c)

theorem Alike.isClosed_iff (h : Alike scan other) : scan.IsClosed ↔ other.IsClosed := by
  unfold IsClosed Quoting.isOutside
  rw [h.quote, h.depth]

theorem Alike.commas (h : Alike scan other) (text : Text) :
    scan.commas text = other.commas text := by
  induction text generalizing scan other with
  | nil => rfl
  | cons c text ih =>
      have hnext := h.step c
      have hcut : (scan.step c).isCut c = (other.step c).isCut c := by
        unfold isCut Quoting.isOutside
        rw [hnext.quote, hnext.depth]
      unfold ListScan.commas at ih ⊢
      rw [Text.cuts_cons, Text.cuts_cons, hcut, ih hnext]

/-- A character that is neither quote nor bracket changes nothing but what stands in front. -/
theorem step_of_plain (hquote : isQuote c = false) (hopening : c ≠ '(') (hclosing : c ≠ ')')
    (scan : ListScan) : scan.step c
      = { scan with quoting := { scan.quoting with before := some c } } := by
  simp [step, Quoting.step, hquote, hopening, hclosing]

theorem step_comma (scan : ListScan) :
    scan.step ',' = { scan with quoting := { scan.quoting with before := some ',' } } :=
  step_of_plain rfl (by decide) (by decide) scan

theorem step_blank (h : isBlank c = true) (scan : ListScan) :
    scan.step c = { scan with quoting := { scan.quoting with before := some c } } := by
  have hne : ∀ d, isBlank d = false → c ≠ d := by
    rintro d hd rfl
    exact absurd (h.symm.trans hd) (by decide)
  refine step_of_plain ?_ (hne _ (by decide)) (hne _ (by decide)) scan
  simp [isQuote, hne '\x27' (by decide), hne '"' (by decide)]

/-- A comma that counts stands where the scan is outside quotes and brackets. -/
theorem isCut_step_iff (scan : ListScan) (c : Char) :
    (scan.step c).isCut c = true ↔ c = ',' ∧ scan.IsClosed := by
  constructor
  · intro hcut
    obtain ⟨⟨houtside, hc⟩, hdepth⟩ : ((scan.step c).quoting.isOutside = true ∧ c = ',') ∧
        (scan.step c).depth = 0 := by simpa [isCut] using hcut
    obtain rfl := hc
    rw [step_comma] at houtside hdepth
    exact ⟨rfl, houtside, hdepth⟩
  · rintro ⟨rfl, houtside, hdepth⟩
    have hquote : scan.quoting.quote.isNone = true := houtside
    rw [step_comma]
    simp [isCut, Quoting.isOutside, hquote, hdepth]

/-- Outside quotes and brackets a scan sees what it would see at the start, if no backslash is in
front. -/
theorem IsClosed.alike (h : scan.IsClosed) (hbefore : scan.quoting.before ≠ some '\\') :
    Alike scan {} := by
  refine ⟨Option.isNone_iff_eq_none.mp h.1, h.2, ?_⟩
  simp [hbefore]

theorem isClosed_behind_blanks {gap : Text} (h : ∀ c ∈ gap, isBlank c = true) :
    (scan.behind gap).IsClosed ↔ scan.IsClosed := by
  induction gap generalizing scan with
  | nil => rfl
  | cons c gap ih =>
      obtain ⟨hc, hgap⟩ := List.forall_mem_cons.mp h
      refine (ih hgap).trans ?_
      rw [step_blank hc]
      rfl

theorem alike_behind_blanks {gap : Text} (h : ∀ c ∈ gap, isBlank c = true) (hscan : Alike scan {}) :
    Alike (scan.behind gap) {} := by
  induction gap generalizing scan with
  | nil => exact hscan
  | cons c gap ih =>
      obtain ⟨hc, hgap⟩ := List.forall_mem_cons.mp h
      refine ih hgap ?_
      have hslash : c ≠ '\\' := by
        rintro rfl
        exact absurd hc (by decide)
      rw [step_blank hc]
      exact ⟨hscan.quote, hscan.depth, by simp [hslash]⟩

theorem commas_blanks {gap : Text} (h : ∀ c ∈ gap, isBlank c = true) : scan.commas gap = [] := by
  induction gap generalizing scan with
  | nil => rfl
  | cons c gap ih =>
      obtain ⟨hc, hgap⟩ := List.forall_mem_cons.mp h
      have hkeep : (scan.step c).isCut c = false := by
        refine isCut_eq_false ?_
        rintro rfl
        exact absurd hc (by decide)
      have hrest : Text.cuts ListScan.step isCut (scan.step c) gap = [] := ih hgap
      unfold commas
      rw [Text.cuts_cons, hkeep, hrest]
      rfl

end ListScan

/-! ### One part -/

/-- A scan of the text alone ends outside quotes and brackets. -/
def Closed (text : Text) : Prop := (ListScan.behind {} text).IsClosed

/-- A scan of the text alone meets no comma outside quotes and brackets. -/
def CommaFree (text : Text) : Prop := ListScan.commas {} text = []

instance (text : Text) : Decidable (Closed text) :=
  inferInstanceAs (Decidable (ListScan.IsClosed _))

instance (text : Text) : Decidable (CommaFree text) := inferInstanceAs (Decidable (_ = _))

variable {front text back : Text}

theorem closed_padded (hfront : ∀ c ∈ front, isBlank c = true)
    (hback : ∀ c ∈ back, isBlank c = true) :
    Closed (front ++ (text ++ back)) ↔ Closed text := by
  have halike := (ListScan.alike_behind_blanks hfront ⟨rfl, rfl, Iff.rfl⟩).behind text
  unfold Closed
  rw [ListScan.behind, List.foldl_append, List.foldl_append]
  exact (ListScan.isClosed_behind_blanks hback).trans halike.isClosed_iff

theorem commaFree_padded (hfront : ∀ c ∈ front, isBlank c = true)
    (hback : ∀ c ∈ back, isBlank c = true) :
    CommaFree (front ++ (text ++ back)) ↔ CommaFree text := by
  have halike := (ListScan.alike_behind_blanks hfront ⟨rfl, rfl, Iff.rfl⟩).commas text
  have hgaps : ∀ scan : ListScan, scan.commas front = [] ∧ scan.commas back = [] :=
    fun scan => ⟨ListScan.commas_blanks hfront, ListScan.commas_blanks hback⟩
  unfold ListScan.commas at halike hgaps
  unfold ListScan.behind at halike
  unfold CommaFree ListScan.commas
  rw [Text.cuts_append, Text.cuts_append, (hgaps _).1, (hgaps _).2, halike]
  simp

theorem closed_trim (text : Text) : Closed text.trim ↔ Closed text := by
  obtain ⟨front, back, hfront, hback, htext⟩ := Text.exists_trim text
  conv_rhs => rw [htext]
  exact (closed_padded hfront hback).symm

theorem commaFree_trim (text : Text) : CommaFree text.trim ↔ CommaFree text := by
  obtain ⟨front, back, hfront, hback, htext⟩ := Text.exists_trim text
  conv_rhs => rw [htext]
  exact (commaFree_padded hfront hback).symm

/-! ### Part by part -/

theorem pieces_of_commaFree (h : CommaFree text) : pieces {} text = [text] :=
  Text.piecesBy_of_uncut h

/-- A closed part without commas is cut off at the comma behind it, and the scan starts anew. -/
theorem pieces_part (hfree : CommaFree text) (hclosed : Closed text) (rest : Text) :
    pieces {} (text ++ ',' :: rest) = text :: pieces {} rest := by
  have hcut : ((ListScan.behind {} text).step ',').isCut ',' = true :=
    (ListScan.isCut_step_iff _ _).mpr ⟨rfl, hclosed⟩
  have halike : ListScan.Alike ((ListScan.behind {} text).step ',') {} := by
    rw [ListScan.step_comma]
    exact ListScan.IsClosed.alike hclosed (by simp)
  have hanew : pieces ((ListScan.behind {} text).step ',') rest = pieces {} rest := by
    rw [pieces, pieces, Text.piecesBy_eq_slices, Text.piecesBy_eq_slices]
    exact congrArg _ (halike.commas rest)
  have htext : Text.piecesBy ListScan.step ListScan.isCut {} text = [text] :=
    pieces_of_commaFree hfree
  rw [pieces, Text.piecesBy_append, htext]
  show [] ++ Text.prepended text (pieces (ListScan.behind {} text) (',' :: rest)) = _
  rw [pieces_of_cut hcut, hanew]
  simp

theorem ListScan.exists_first_comma {scan : ListScan} (h : scan.commas text ≠ []) :
    ∃ front rest, text = front ++ ',' :: rest ∧ scan.commas front = [] ∧
      (scan.behind front).IsClosed := by
  induction text generalizing scan with
  | nil => exact absurd rfl h
  | cons c text ih =>
      unfold commas at h
      rw [Text.cuts_cons] at h
      cases hcut : (scan.step c).isCut c with
      | true =>
          obtain ⟨rfl, hclosed⟩ := (isCut_step_iff scan c).mp hcut
          exact ⟨[], text, rfl, rfl, hclosed⟩
      | false =>
          have hlater : (scan.step c).commas text ≠ [] := by
            rintro hnone
            unfold commas at hnone
            exact h (by rw [hcut, hnone]; rfl)
          obtain ⟨front, rest, rfl, hfront, hclosed⟩ := ih hlater
          refine ⟨c :: front, rest, rfl, ?_, hclosed⟩
          unfold commas at hfront ⊢
          rw [Text.cuts_cons, hcut, hfront]
          rfl

/-- Every text is free of commas, or it starts with a closed part that is and has a comma behind
it. -/
theorem list_induction {P : Text → Prop} (last : ∀ text, CommaFree text → P text)
    (part : ∀ text rest, CommaFree text → Closed text → P rest → P (text ++ ',' :: rest))
    (text : Text) : P text := by
  by_cases hfree : CommaFree text
  · exact last text hfree
  · obtain ⟨front, rest, htext, hfront, hclosed⟩ := ListScan.exists_first_comma hfree
    rw [htext]
    exact part front rest hfront hclosed (list_induction last part rest)
termination_by text.length
decreasing_by simp [htext]; omega

/-- What stands between the commas has none, and all of it but the last is closed. -/
theorem pieces_spec (content : Text) : (∀ piece ∈ pieces {} content, CommaFree piece) ∧
    ∀ piece ∈ (pieces {} content).dropLast, Closed piece := by
  induction content using list_induction with
  | last text hfree =>
      rw [pieces_of_commaFree hfree]
      exact ⟨List.forall_mem_singleton.mpr hfree, List.forall_mem_nil _⟩
  | part text rest hfree hclosed ih =>
      rw [pieces_part hfree hclosed, List.dropLast_cons_of_ne_nil (Text.piecesBy_ne_nil _ _)]
      exact ⟨List.forall_mem_cons.mpr ⟨hfree, ih.1⟩, List.forall_mem_cons.mpr ⟨hclosed, ih.2⟩⟩

/-! ### The parts -/

/-- The parts that some pieces of a list stand for. -/
def partsOf (pieces : List Text) : List Text :=
  let last := (pieces.getLast?.getD []).trim
  pieces.dropLast.map Text.trim ++ if last.isEmpty then [] else [last]

theorem partsOf_singleton (piece : Text) :
    partsOf [piece] = if piece.isBlankText then [] else [piece.trim] := by
  have hblank : piece.trim.isEmpty = piece.isBlankText := by
    rw [Bool.eq_iff_iff, List.isEmpty_iff, Text.isBlankText_iff]
  rw [← hblank]
  rfl

theorem partsOf_append (front : List Text) {others : List Text} (h : others ≠ []) :
    partsOf (front ++ others) = front.map Text.trim ++ partsOf others := by
  obtain ⟨inner, last, rfl⟩ : ∃ inner last, others = inner ++ [last] :=
    ⟨_, _, (List.dropLast_concat_getLast h).symm⟩
  simp [partsOf, ← List.append_assoc]

theorem parts_part (hfree : CommaFree text) (hclosed : Closed text) (rest : Text) :
    parts (text ++ ',' :: rest) = text.trim :: parts rest := by
  show partsOf (pieces {} (text ++ ',' :: rest)) = _
  rw [pieces_part hfree hclosed]
  exact partsOf_append [text] (Text.piecesBy_ne_nil _ _)

/-- What stands behind the last comma of a list. -/
def lastStretch (content : Text) : Text :=
  content.drop (Text.lastStart 0 (ListScan.commas {} content))

theorem pieces_eq_slices (content : Text) :
    pieces {} content = content.slices 0 (ListScan.commas {} content) :=
  Text.piecesBy_eq_slices ({} : ListScan) content

/-- The parts are the pieces without the blanks around them; what stands behind the last
comma is none if it is blank. -/
theorem exists_parts_eq (content : Text) :
    ∃ init, pieces {} content = init ++ [lastStretch content] ∧
      init.length = (ListScan.commas {} content).length ∧
      parts content = init.map Text.trim ++
        if (lastStretch content).isBlankText then [] else [(lastStretch content).trim] := by
  have hlast : (pieces {} content).getLast? = some (lastStretch content) := by
    rw [pieces_eq_slices, Text.getLast?_slices]
    rfl
  obtain ⟨init, hpieces⟩ := List.getLast?_eq_some_iff.mp hlast
  refine ⟨init, hpieces, ?_, ?_⟩
  · have hlength := congrArg List.length (pieces_eq_slices content)
    rw [hpieces, Text.length_slices, List.length_append] at hlength
    exact Nat.add_right_cancel hlength
  · show partsOf (pieces {} content) = _
    rw [hpieces, partsOf_append _ (List.cons_ne_nil _ _), partsOf_singleton]

/-- A comma with blanks around it. -/
structure Comma where
  /-- The blanks in front of the comma. -/
  before : Text
  /-- The blanks behind it. -/
  behind : Text
  blankBefore : ∀ c ∈ before, isBlank c = true
  blankBehind : ∀ c ∈ behind, isBlank c = true

/-- A text that can be a part of a list: trimmed and not blank, closed and free of commas. -/
structure IsPart (text : Text) : Prop where
  trimmed : text.trim = text
  notBlank : text.isBlankText = false
  closed : Closed text
  commaFree : CommaFree text

/-- A list written out: a first part, and others with a comma in front of each. -/
def listText (first : Text) (others : List (Comma × Text)) : Text :=
  first ++ others.flatMap fun (comma, next) => comma.before ++ ',' :: (comma.behind ++ next)

theorem parts_listText {gap first : Text} {others : List (Comma × Text)}
    (hgap : ∀ c ∈ gap, isBlank c = true) (hfirst : IsPart first)
    (hothers : ∀ other ∈ others, IsPart other.2) :
    parts (gap ++ listText first others) = first :: others.map (·.2) := by
  induction others generalizing gap first with
  | nil =>
      have hnil : ∀ c ∈ ([] : Text), isBlank c = true := List.forall_mem_nil _
      have hfree := (commaFree_padded hgap hnil).mpr hfirst.commaFree
      have htrim := (Text.trim_padded hgap hnil).trans hfirst.trimmed
      have hfull : (gap ++ (first ++ [])).isBlankText = false := by
        rw [Text.isBlankText, List.all_append, List.all_append, ← Text.isBlankText,
          ← Text.isBlankText, hfirst.notBlank]
        simp
      show partsOf (pieces {} (gap ++ listText first [])) = _
      rw [listText, List.flatMap_nil, pieces_of_commaFree hfree, partsOf_singleton, hfull, htrim]
      rfl
  | cons other others ih =>
      obtain ⟨comma, next⟩ := other
      obtain ⟨hnext, hothers⟩ := List.forall_mem_cons.mp hothers
      have htext : gap ++ listText first ((comma, next) :: others)
          = (gap ++ (first ++ comma.before)) ++ ',' :: (comma.behind ++ listText next others) := by
        simp [listText]
      rw [htext, parts_part ((commaFree_padded hgap comma.blankBefore).mpr hfirst.commaFree)
        ((closed_padded hgap comma.blankBefore).mpr hfirst.closed),
        Text.trim_padded hgap comma.blankBefore, hfirst.trimmed, ih comma.blankBehind hnext hothers]
      rfl

/-- **Parts that are joined by commas, with whatever blanks around these, are cut out
again.  Whatever the content is, its parts are trimmed and free of commas, all but the last
are closed, and there are as many as there are commas, and one more if what stands behind
the last comma is not blank.** -/
theorem parts_exact :
    (∀ (first : Text) (others : List (Comma × Text)), IsPart first →
      (∀ other ∈ others, IsPart other.2) →
        parts (listText first others) = first :: others.map (·.2)) ∧
    ∀ content : Text,
      (∀ part ∈ parts content, part.trim = part ∧ CommaFree part) ∧
      (∀ part ∈ (parts content).dropLast, Closed part) ∧
      (parts content).length = (ListScan.commas {} content).length
        + if (lastStretch content).isBlankText then 0 else 1 := by
  refine ⟨fun first others hfirst hothers => parts_listText (List.forall_mem_nil _) hfirst hothers,
    fun content => ?_⟩
  obtain ⟨init, hpieces, hlength, hparts⟩ := exists_parts_eq content
  obtain ⟨hfree, hclosed⟩ := pieces_spec content
  rw [hpieces] at hfree hclosed
  rw [List.dropLast_concat] at hclosed
  refine ⟨fun part hpart => ?_, fun part hpart => ?_, ?_⟩
  · obtain ⟨piece, hpiece, rfl⟩ : ∃ piece ∈ init ++ [lastStretch content], part = piece.trim := by
      rw [hparts] at hpart
      rcases List.mem_append.mp hpart with hinit | hlast
      · obtain ⟨piece, hpiece, rfl⟩ := List.mem_map.mp hinit
        exact ⟨piece, List.mem_append_left _ hpiece, rfl⟩
      · split at hlast
        · exact absurd hlast List.not_mem_nil
        · exact ⟨_, List.mem_append_right _ List.mem_cons_self, List.mem_singleton.mp hlast⟩
    exact ⟨Text.strip_eq_self Text.head?_strip Text.getLast?_strip,
      (commaFree_trim piece).mpr (hfree piece hpiece)⟩
  · obtain ⟨piece, hpiece, rfl⟩ : ∃ piece ∈ init, piece.trim = part := by
      rw [hparts] at hpart
      split at hpart
      · rw [List.append_nil] at hpart
        exact List.mem_map.mp ((List.dropLast_sublist _).mem hpart)
      · rw [List.dropLast_concat] at hpart
        exact List.mem_map.mp hpart
    exact (closed_trim piece).mpr (hclosed piece hpiece)
  · rw [hparts, List.length_append, List.length_map, hlength]
    split <;> rfl

/-- Commas in quotes and brackets belong to the part. -/
theorem parts_exact_quoted :
    IsPart "a DECIMAL(10, 2)".toList ∧ IsPart "b TEXT DEFAULT 'x, (y'".toList ∧
      parts "a DECIMAL(10, 2) ,\n b TEXT DEFAULT 'x, (y'".toList
        = ["a DECIMAL(10, 2)".toList, "b TEXT DEFAULT 'x, (y'".toList] := by
  have ha : IsPart "a DECIMAL(10, 2)".toList := ⟨by decide, by decide, by decide, by decide⟩
  have hb : IsPart "b TEXT DEFAULT 'x, (y'".toList := ⟨by decide, by decide, by decide, by decide⟩
  have hbefore : ∀ c ∈ [' '], isBlank c = true := List.forall_mem_singleton.mpr (by decide)
  have hbehind : ∀ c ∈ ['\n', ' '], isBlank c = true :=
    List.forall_mem_cons.mpr ⟨by decide, List.forall_mem_singleton.mpr (by decide)⟩
  exact ⟨ha, hb, parts_exact.1 _ [(⟨[' '], ['\n', ' '], hbefore, hbehind⟩, _)] ha
    (List.forall_mem_singleton.mpr hb)⟩

end Diagrams.Schema
