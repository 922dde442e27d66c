/-
Line comments in a script are ignored.

A script with comments falls into as many pieces as the script without them, as no comment holds a
semicolon.  A piece is trimmed and ended before its comments are removed, so a comment at its end
takes the semicolon with it; and a piece in which there are only comments makes up a statement that
the script does not have, which has no effect.
-/
import Diagrams.Proofs.Schema.CommentedText

namespace Diagrams

open Padded Pattern Schema Progress

namespace Schema.Commented

variable {script : Commented}

/-! ### Statements without their comments -/

section

variable (h : Harmless script) (hbody : ';' ∉ plain script)

include h hbody

/-- The trimmed script and what is left of it without its comments are two spellings of one text. -/
theorem exists_spellings : ∃ padded, Spaced padded ∧ AddsBlanks padded ∧ ';' ∉ tight padded ∧
    tight padded = (plain script).trim ∧ wide padded = bare script := by
  obtain ⟨hspaced, hadds⟩ := h.spaced
  obtain ⟨padded, hpadded, hblanks, htight, hwide⟩ := hspaced.exists_loosened hadds
  rw [tight_spelled] at htight
  rw [wide_spelled] at hwide
  have hend : ';' ∉ tight padded := fun hmem => hbody (Text.mem_of_mem_strip (htight ▸ hmem))
  exact ⟨padded, hpadded, hblanks, hend, htight, hwide⟩

theorem readAlike_bare : ReadAlike (plain script).trim (bare script) := by
  obtain ⟨padded, hpadded, hblanks, hend, htight, hwide⟩ := exists_spellings h hbody
  have halike := readBare_padded (hpadded.statement hblanks hend)
  rwa [htight, hwide] at halike

theorem readAlike_bare_semicolon (hlast : ∀ c ∈ (bare script).getLast?, isBlank c = false) :
    ReadAlike (plain script).trim (bare script ++ [';']) := by
  obtain ⟨padded, hpadded, hblanks, hend, htight, hwide⟩ := exists_spellings h hbody
  have hsolid : ∀ item ∈ padded.getLast?, isBlank item.2 = false := fun item hitem => by
    refine hlast item.2 ?_
    rw [← hwide, wide, List.getLast?_map, Option.mem_def.mp hitem]
    rfl
  have halike := readBare_padded (hpadded.statement_semicolon hblanks hend hsolid)
  rw [tight_append, wide_append, htight, hwide] at halike
  simpa using halike

end

/-! ### The ends of a statement -/

/-- Whether a piece is a blank of the script. -/
def isBlankPiece : Piece → Bool
  | .own c => isBlank c
  | .comment _ => false

/-- The script between the blanks at its ends. -/
theorem exists_core (script : Commented) : ∃ front core rest, script = front ++ (core ++ rest) ∧
    (∀ piece ∈ front, isBlankPiece piece = true) ∧ (∀ piece ∈ rest, isBlankPiece piece = true) ∧
    (∀ piece ∈ core.head?, isBlankPiece piece = false) ∧
    ∀ piece ∈ core.getLast?, isBlankPiece piece = false := by
  let behind := script.dropWhile isBlankPiece
  refine ⟨script.takeWhile isBlankPiece, behind.rdropWhile isBlankPiece,
    behind.rtakeWhile isBlankPiece, ?_, fun piece => List.mem_takeWhile_imp,
    fun piece => List.mem_rtakeWhile_imp, fun piece hpiece => ?_, fun piece hpiece => ?_⟩
  · rw [List.rdropWhile_append_rtakeWhile, List.takeWhile_append_dropWhile]
  · have hfirst : piece ∈ behind.head? := by
      obtain ⟨after, hafter⟩ := List.rdropWhile_prefix isBlankPiece behind
      rw [← hafter, List.head?_append, Option.mem_def.mp hpiece]
      rfl
    have hstop := List.head?_dropWhile_not isBlankPiece script
    rw [Option.mem_def.mp hfirst] at hstop
    simpa using hstop
  · obtain ⟨hne, rfl⟩ := List.mem_getLast?_eq_getLast hpiece
    simpa using List.rdropWhile_last_not isBlankPiece behind hne

theorem isBlank_written (h : ∀ piece ∈ script, isBlankPiece piece = true) :
    (∀ c ∈ written script, isBlank c = true) ∧ ∀ c ∈ plain script, isBlank c = true := by
  induction script with
  | nil => simp
  | cons piece rest ih =>
      obtain ⟨hpiece, hothers⟩ := List.forall_mem_cons.mp h
      obtain ⟨hwritten, hplain⟩ := ih hothers
      cases piece with
      | own c =>
          exact ⟨List.forall_mem_cons.mpr ⟨hpiece, hwritten⟩,
            List.forall_mem_cons.mpr ⟨hpiece, hplain⟩⟩
      | comment text => exact absurd hpiece Bool.false_ne_true

theorem head?_written_of_piece (h : ∀ piece ∈ script.head?, isBlankPiece piece = false) :
    ∀ c ∈ (written script).head?, isBlank c = false := by
  intro c hc
  rcases head?_written hc with ⟨rest, rfl⟩ | ⟨rfl, -⟩
  · exact h (.own c) rfl
  · decide

/-! ### A comment at the end of a statement -/

theorem dropLineComments_feed (inside : Bool) (text : Text) :
    dropLineComments inside (text ++ ['\n']) = dropLineComments inside text ++ ['\n'] := by
  fun_induction dropLineComments inside text with
  | case1 inside => cases inside <;> rfl
  | case2 rest ih => rw [List.cons_append, dropLineComments, ih, List.cons_append]
  | case3 c rest hc ih =>
      rw [List.cons_append, dropLineComments, ih]
      exact hc
  | case4 rest ih => rw [List.cons_append, List.cons_append, dropLineComments, ih]
  | case5 c rest hnone ih =>
      rw [List.cons_append, dropLineComments_cons, ih, List.cons_append]
      rintro rfl hminus
      cases rest with
      | nil => exact absurd hminus (by decide)
      | cons d rest =>
          obtain rfl : d = '-' := Option.some.inj hminus
          exact hnone rest rfl rfl

/-- A line feed at the end of a text stays there. -/
theorem stripComments_feed (text : Text) :
    stripComments (text ++ ['\n']) = stripComments text ++ ['\n'] := by
  have hblock : dropBlockComments false (text ++ ['\n']) = dropBlockComments false text ++ ['\n'] :=
    dropBlockComments_line (by decide) (by simp) (by simp)
  unfold stripComments
  rw [hblock, dropLineComments_feed]

/-- A comment that is not ended takes the semicolon with it. -/
theorem stripComments_unended {front : Commented} {text : Text}
    (h : Removable (front ++ [.comment text])) :
    stripComments (written front ++ '-' :: '-' :: Text.dropEnd isBlank text ++ [';'])
      = bare front := by
  obtain ⟨htext, -⟩ := h.of_append
  have hprefix : Text.dropEnd isBlank text <+: text := List.rdropWhile_prefix isBlank text
  have hlonger : Removable (front ++ [.comment (Text.dropEnd isBlank text ++ [';'])]) := by
    refine h.change_end ⟨?_, by simp, trivial⟩ (by simp) fun hclosing => ?_
    · rw [List.mem_append, List.mem_singleton]
      rintro (hmem | hfeed)
      · exact htext (Text.mem_of_mem_dropEnd hmem)
      · exact absurd hfeed (by decide)
    · obtain ⟨ending, hending, hmark⟩ := (closing_written hclosing).resolve_left (by simp)
      obtain rfl := Piece.comment.inj (List.mem_singleton.mp hending)
      rcases mark_append.mp hmark with hkept | hend | ⟨-, hfirst⟩
      · rw [written_comment, mark_cons_iff (by decide), mark_cons_iff (by decide), mark_append]
        exact .inl (hkept.trans hprefix.isInfix)
      · exact absurd (hend.length_le) (by decide)
      · exact absurd (Option.some.inj hfirst) (by decide)
  have hstrip := stripComments_written hlonger
  rw [written_append, written_comment, written_nil, bare_append, bare_comment, bare_nil] at hstrip
  rw [← List.append_left_inj ['\n'], ← stripComments_feed, ← hstrip]
  simp

/-- **What is read of a piece of a script does not depend on its comments.** -/
theorem readAlike_statement (h : Harmless script) (hbody : ';' ∉ plain script)
    (hfull : (written script).isBlankText = false) :
    ReadAlike (plain script).trim (stripComments ((written script).trim ++ [';'])) := by
  obtain ⟨front, core, rest, rfl, hfront, hrest, hfirst, hlast⟩ := exists_core script
  obtain ⟨hfrontWritten, hfrontPlain⟩ := isBlank_written hfront
  obtain ⟨hrestWritten, hrestPlain⟩ := isBlank_written hrest
  have hcore : Harmless core := h.of_within ⟨front, rest, by simp⟩
  have hend : ';' ∉ plain core := fun hmem => hbody (by simp [hmem])
  have hstart := head?_written_of_piece hfirst
  rw [plain_append, plain_append, Text.trim_padded hfrontPlain hrestPlain, written_append]
  rcases List.eq_nil_or_concat core with rfl | ⟨inner, piece, rfl⟩
  · have hblank : (written (front ++ ([] ++ rest))).isBlankText = true := by
      rw [Text.isBlankText, List.all_eq_true, written_append]
      simpa using fun c => Or.rec (hfrontWritten c) (hrestWritten c)
    rw [hblank] at hfull
    exact Bool.noConfusion hfull
  rw [List.concat_eq_append] at *
  cases piece with
  | own c =>
      have hsolid : isBlank c = false := hlast (.own c) (by simp)
      have hremovable : Removable ((inner ++ [.own c]) ++ [.own ';']) := by
        have hplain : Removable ((inner ++ [.own c]) ++ []) := by simpa using hcore.removable hend
        refine hplain.change_end ⟨by simp, by simp, trivial⟩ (by simp) fun hclosing => ?_
        exact absurd hclosing.length_le (by decide)
      have hstrip := stripComments_written hremovable
      rw [written_append, bare_append] at hstrip
      rw [written_append, Text.trim_between hfrontWritten hrestWritten hstart
        (by simpa using hsolid), show [';'] = written [.own ';'] from rfl, hstrip]
      exact readAlike_bare_semicolon hcore hend (by simpa using hsolid)
  | comment text =>
      let shown := written inner ++ '-' :: '-' :: Text.dropEnd isBlank text
      have hwritten : written (inner ++ [.comment text])
          = shown ++ (text.rtakeWhile isBlank ++ ['\n']) := by
        have htail : text = Text.dropEnd isBlank text ++ text.rtakeWhile isBlank :=
          List.rdropWhile_append_rtakeWhile.symm
        conv_lhs => rw [htail]
        simp [shown]
      have hbehind : ∀ c ∈ text.rtakeWhile isBlank ++ ['\n'] ++ written rest, isBlank c = true := by
        rw [List.forall_mem_append, List.forall_mem_append, List.forall_mem_singleton]
        exact ⟨⟨fun c => List.mem_rtakeWhile_imp, by decide⟩, hrestWritten⟩
      have hbegins : ∀ c ∈ shown.head?, isBlank c = false := by
        rwa [hwritten, List.head?_append_of_ne_nil _ (by simp [shown])] at hstart
      have hends : ∀ c ∈ shown.getLast?, isBlank c = false := by
        intro c hc
        rw [List.getLast?_append, List.getLast?_cons, List.getLast?_cons] at hc
        cases hkept : (Text.dropEnd isBlank text).getLast? with
        | none =>
            obtain rfl : '-' = c := by simpa [hkept] using hc
            decide
        | some d =>
            obtain rfl : d = c := by simpa [hkept] using hc
            obtain ⟨hne, rfl⟩ := List.mem_getLast?_eq_getLast hkept
            exact Bool.eq_false_iff.mpr (List.rdropWhile_last_not isBlank text hne)
      have hinner : Harmless inner := hcore.of_within (List.prefix_append inner _).isInfix
      rw [written_append, hwritten, List.append_assoc,
        Text.trim_between hfrontWritten hbehind hbegins hends,
        stripComments_unended (hcore.removable hend)]
      simpa using readAlike_bare hinner (by simpa using hend)

/-- A script without comments. -/
theorem harmless_own {text : Text} (hquotes : Unquoted text) (hline : ¬ ['-', '-'] <:+: text)
    (hopening : ¬ ['/', '*'] <:+: text) (hclosing : ¬ ['*', '/'] <:+: text) :
    Harmless (text.map .own) := by
  have hplain : plain (text.map .own) = text := plain_map_own text
  have hnone : ∀ text', Piece.comment text' ∉ text.map Piece.own := by simp
  have hsplit : ∀ {front text' rest},
      text.map Piece.own = front ++ .comment text' :: rest → False :=
    fun hsplit => hnone _ (hsplit ▸ List.mem_append_right _ List.mem_cons_self)
  exact ⟨⟨hplain.symm ▸ hquotes, hplain.symm ▸ hline, hplain.symm ▸ hopening,
    hplain.symm ▸ hclosing, fun text' hmem => absurd hmem (hnone text'), fun _ _ _ h =>
      (hsplit h).elim⟩,
    fun _ _ _ _ _ h => (hsplit h).elim, fun _ _ _ h => (hsplit h).elim⟩

/-- What is read of a piece of a script that has no comments. -/
theorem readAlike_plain (h : Harmless script) (hbody : ';' ∉ plain script)
    (hfull : (plain script).isBlankText = false) :
    ReadAlike (plain script).trim (stripComments ((plain script).trim ++ [';'])) := by
  have hown := @readAlike_statement ((plain script).map .own)
    (harmless_own h.unquoted h.line h.opening h.closing)
  rw [plain_map_own, written_map_own] at hown
  exact hown hbody hfull

theorem traceless_nil : Traceless [] := by
  refine traceless_of_no_bracket List.not_mem_nil (.inl ?_)
  rfl

/-! ### Scripts -/

theorem splitWhere_append_of_keep {test : Char → Bool} {front rest piece : Text}
    {others : List Text} (hfront : ∀ c ∈ front, test c = false)
    (h : rest.splitWhere test = piece :: others) :
    Text.splitWhere test (front ++ rest) = (front ++ piece) :: others := by
  induction front with
  | nil => exact h
  | cons c front ih =>
      obtain ⟨hc, hothers⟩ := List.forall_mem_cons.mp hfront
      rw [List.cons_append, Text.splitWhere_cons_of_keep hc, ih hothers]
      rfl

/-- A script with comments falls into the pieces of the script without them. -/
theorem exists_fragments (htext : ∀ text, .comment text ∈ script → ';' ∉ text) :
    ∃ first others, (plain script).splitWhere (· == ';') = plain first :: others.map plain ∧
      (written script).splitWhere (· == ';') = written first :: others.map written ∧
      first <+: script ∧ (∀ fragment ∈ others, fragment <:+: script) ∧
      ∀ fragment ∈ first :: others, ';' ∉ plain fragment := by
  induction script with
  | nil => exact ⟨[], [], rfl, rfl, List.prefix_rfl, by simp, by simp⟩
  | cons piece rest ih =>
      obtain ⟨first, others, hplain, hwritten, hbegins, hothers, hend⟩ :=
        ih fun text hmem => htext text (List.mem_cons_of_mem _ hmem)
      obtain ⟨hfirst, hlater⟩ := List.forall_mem_cons.mp hend
      have hbehind : ∀ fragment ∈ others, fragment <:+: piece :: rest := fun fragment hmem =>
        (hothers fragment hmem).trans (List.suffix_cons piece rest).isInfix
      cases piece with
      | own c =>
          by_cases hc : c = ';'
          · subst hc
            refine ⟨[], first :: others, ?_, ?_, List.nil_prefix, ?_, by simpa using hend⟩
            · rw [plain_own, Text.splitWhere_cons_of_cut (by simp), hplain]
              rfl
            · rw [written_own, Text.splitWhere_cons_of_cut (by simp), hwritten]
              rfl
            · exact List.forall_mem_cons.mpr
                ⟨hbegins.isInfix.trans (List.suffix_cons _ rest).isInfix, hbehind⟩
          · refine ⟨.own c :: first, others, ?_, ?_,
              List.cons_prefix_cons.mpr ⟨rfl, hbegins⟩, hbehind, ?_⟩
            · exact @splitWhere_append_of_keep _ [c] _ _ _ (by simpa using hc) hplain
            · exact @splitWhere_append_of_keep _ [c] _ _ _ (by simpa using hc) hwritten
            · refine List.forall_mem_cons.mpr ⟨?_, hlater⟩
              rw [plain_own, List.mem_cons, not_or]
              exact ⟨fun heq => hc heq.symm, hfirst⟩
      | comment text =>
          have hkeep : ∀ c ∈ '-' :: '-' :: (text ++ ['\n']), (c == ';') = false := by
            have hbody : ';' ∉ '-' :: '-' :: (text ++ ['\n']) := by
              simpa using htext text List.mem_cons_self
            exact fun c hc => beq_eq_false_iff_ne.mpr fun heq => hbody (heq ▸ hc)
          refine ⟨.comment text :: first, others, hplain, ?_,
            List.cons_prefix_cons.mpr ⟨rfl, hbegins⟩, hbehind,
            List.forall_mem_cons.mpr ⟨hfirst, hlater⟩⟩
          have hpieces := splitWhere_append_of_keep hkeep hwritten
          simpa using hpieces

/-- The statements in the pieces of a script. -/
def ended (fragments : List Text) : List Text :=
  (fragments.filter fun fragment => !fragment.isBlankText).map fun fragment =>
    fragment.trim ++ [';']

theorem ended_cons (fragment : Text) (others : List Text) : ended (fragment :: others)
    = (if fragment.isBlankText then [] else [fragment.trim ++ [';']]) ++ ended others := by
  unfold ended
  cases hblank : fragment.isBlankText with
  | true => rw [List.filter_cons_of_neg (by simp [hblank])]; rfl
  | false => rw [List.filter_cons_of_pos (by simp [hblank])]; rfl

theorem plain_subset_written (script : Commented) : plain script ⊆ written script := by
  induction script with
  | nil => exact List.Subset.refl _
  | cons piece rest ih =>
      cases piece with
      | own c => exact List.cons_subset_cons c ih
      | comment text =>
          rw [plain_comment, written_comment]
          exact fun c hc => by simp [ih hc]

/-- A script that is blank with its comments is blank without them. -/
theorem isBlankText_plain (h : (written script).isBlankText = true) :
    (plain script).isBlankText = true :=
  List.all_eq_true.mpr fun c hc => List.all_eq_true.mp h c (plain_subset_written script hc)

theorem sameTables_foldl_ended {fragments : List Commented}
    (h : ∀ fragment ∈ fragments, Harmless fragment ∧ ';' ∉ plain fragment)
    {progress other : Progress} (hsame : SameTables progress other) :
    SameTables ((ended (fragments.map written)).foldl Progress.readStatement progress)
      ((ended (fragments.map plain)).foldl Progress.readStatement other) := by
  induction fragments generalizing progress other with
  | nil => exact hsame
  | cons fragment fragments ih =>
      obtain ⟨⟨hfragment, hbody⟩, hothers⟩ := List.forall_mem_cons.mp h
      rw [List.map_cons, List.map_cons, ended_cons, ended_cons, List.foldl_append,
        List.foldl_append]
      refine ih hothers ?_
      cases hwritten : (written fragment).isBlankText with
      | true =>
          rw [isBlankText_plain hwritten]
          exact hsame
      | false =>
          have halike := readAlike_statement hfragment hbody hwritten
          cases hplain : (plain fragment).isBlankText with
          | true =>
              -- In this piece there are only comments.
              have hnil : (plain fragment).trim = [] := Text.isBlankText_iff.mp hplain
              rw [hnil] at halike
              exact ((halike other progress hsame.symm).symm).trans (traceless_nil other).symm
          | false =>
              exact (halike.symm.trans (readAlike_plain hfragment hbody hplain))
                progress other hsame

/-- **Line comments are ignored.** -/
theorem diagram_read_written (h : Harmless script) (title : Text) (grid : Option Er.Grid) :
    (read (written script) title grid).diagram = (read (plain script) title grid).diagram := by
  obtain ⟨first, others, hplain, hwritten, hbegins, hothers, hend⟩ :=
    exists_fragments fun text hmem => (h.text text hmem).2
  refine diagram_read_congr ?_ grid
  have hpieces : ∀ fragment ∈ first :: others, Harmless fragment ∧ ';' ∉ plain fragment :=
    fun fragment hmem =>
    ⟨(List.mem_cons.mp hmem).elim (fun heq => heq ▸ h.of_within hbegins.isInfix)
      fun hlater => h.of_within (hothers fragment hlater), hend fragment hmem⟩
  have hsame := @sameTables_foldl_ended _ hpieces { diagram := .empty title }
    { diagram := .empty title } ⟨rfl, rfl⟩
  unfold readStatements statements
  rw [hplain, hwritten]
  exact hsame

/-- Lines that end in comments, and a last line that does not. -/
def ofLines (lines : List (String × String)) (last : String) : Commented :=
  lines.flatMap (fun line => line.1.toList.map .own ++ [.comment line.2.toList]) ++
    last.toList.map .own

/-- A table with a remark in the length of a key column. -/
def measured : Commented :=
  ofLines [("CREATE TABLE t (a INT, PRIMARY KEY (a( ", " length")] "10)));"

-- The length of a key column is put away only where it stands in one line.
example : (read (written measured) defaultTitle none).diagram.tables
    ≠ (read (plain measured) defaultTitle none).diagram.tables := by decide +kernel

/-- A table with remarks, one of them in the list of its key columns. -/
def remarked : Commented :=
  ofLines [("CREATE TABLE t ( ", " NOT NULL: a, b"), ("a INT, ", " /* for now */"),
    ("b INT, PRIMARY KEY (a, ", " (first)")] "b));"

theorem diagram_read_written_remarked :
    (read (written remarked) defaultTitle none).diagram
      = (read (plain remarked) defaultTitle none).diagram := by
  have hinserted : Inserted remarked := .of_forall_places (by decide +kernel) (by decide +kernel)
  have hharmless : Harmless remarked :=
    .of_forall_places hinserted (by decide +kernel) (by decide +kernel)
  exact diagram_read_written hharmless defaultTitle none

/-- A block comment that starts in one comment and ends in another one takes a column with it. -/
theorem diagram_read_written_across :
    let script :=
      ofLines [("CREATE TABLE t (a INT, ", " see /* below"), ("b INT, ", " done */ here")] "c INT);"
    Inserted script ∧
      (read (written script) defaultTitle none).diagram
        ≠ (read (plain script) defaultTitle none).diagram := by
  refine ⟨.of_forall_places (by decide +kernel) (by decide +kernel), fun h => ?_⟩
  exact absurd (congrArg Er.Diagram.tables h) (by decide +kernel)

end Schema.Commented

end Diagrams
