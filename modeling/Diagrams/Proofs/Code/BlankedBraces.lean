/-
Which brace closes which in a blanked source.

The scan for a closing brace looks out for quotes, and a blanked source still has those of
its literals.  But they come in pairs with only blanks in between, and comments are all
blank.  So the scan is outside all quotes wherever a lexeme ends, and what it counts are the
braces that are code: no more, no less.

The braces that are code are counted over the marks of a source (`codeMarks`), which have
one entry for each character.  `evenFrom` is that plain count; the scan does the same,
lexeme by lexeme (`closingFrom_blanked`), and it finds the first index where the count is
down to zero (`closing?_blankLiterals`).

All this holds for a source whose code has no quotes and backslashes of its own: a quote that opens
no literal is code, and the scan takes it for the start of a quoted stretch.
-/
import Mathlib.Data.Nat.Find
import Diagrams.Proofs.Brackets.Closing
import Diagrams.Proofs.Code.Blanked

namespace Diagrams.Code

/-! ### The braces that are code -/

/-- For each character of a lexeme, the character if it is code. -/
def Lexeme.codeMarks (lexeme : Lexeme) : List (Option Char) :=
  lexeme.text.map fun c => if lexeme.kind = .code then some c else none

/-- For each character of a source, the character if it is code. -/
def codeMarks (source : Text) : List (Option Char) := (lexemes source).flatMap Lexeme.codeMarks

theorem Lexeme.length_codeMarks (lexeme : Lexeme) : lexeme.codeMarks.length = lexeme.text.length :=
  List.length_map _

theorem length_codeMarks (source : Text) : (codeMarks source).length = source.length := by
  have hsource : (lexemes source).flatMap Lexeme.text = source := flatMap_text_lexemes source
  calc (codeMarks source).length
      = ((lexemes source).flatMap Lexeme.text).length := by
        simp only [codeMarks, List.length_flatMap, Lexeme.length_codeMarks]
    _ = source.length := by rw [hsource]

theorem StandsIn.outside_iff {source : Text} {index offset : Nat} {lexeme : Lexeme}
    (h : StandsIn source index lexeme offset) : Outside source index ↔ lexeme.kind = .code := by
  constructor
  · exact fun houtside => houtside lexeme offset h
  · rintro hkind other place hother
    rw [← (h.unique hother).1]
    exact hkind

/-- The marks are the characters outside comments and literals. -/
theorem getElem?_codeMarks_eq_iff {source : Text} {index : Nat} {c : Char} :
    (codeMarks source)[index]? = some (some c) ↔
      source[index]? = some c ∧ Outside source index := by
  by_cases hindex : index < source.length
  · obtain ⟨lexeme, offset, hstands⟩ := exists_standsIn hindex
    rw [codeMarks, hstands.getElem?_flatMap Lexeme.length_codeMarks, hstands.outside_iff,
      hstands.getElem?_source, Lexeme.codeMarks, List.getElem?_map,
      List.getElem?_eq_getElem hstands.within]
    by_cases hkind : lexeme.kind = .code <;> simp [hkind]
  · rw [List.getElem?_eq_none (by rw [length_codeMarks]; omega), List.getElem?_eq_none (by omega)]
    simp

/-- How many more opening than closing braces there are among the marks. -/
def braceSum (marks : List (Option Char)) : Int :=
  (marks.count (some '\x7b') : Int) - marks.count (some '\x7d')

theorem braceSum_cons (mark : Option Char) (marks : List (Option Char)) :
    braceSum (mark :: marks) = braceSum [mark] + braceSum marks := by
  have hcount : ∀ brace, (mark :: marks).count brace = [mark].count brace + marks.count brace :=
    fun brace => by rw [← List.singleton_append, List.count_append]
  simp only [braceSum, hcount, Int.natCast_add]
  omega

@[simp] theorem braceSum_none : braceSum [none] = 0 := rfl

theorem braceSum_opening : braceSum [some '\x7b'] = 1 := rfl

theorem braceSum_closing : braceSum [some '\x7d'] = -1 := rfl

theorem braceSum_of_ne {c : Char} (hopening : c ≠ '\x7b') (hclosing : c ≠ '\x7d') :
    braceSum [some c] = 0 := by
  simp [braceSum, hopening, hclosing]

/-! ### The plain count -/

/-- The offset of the first mark up to which the count is zero, where `depth` is the count in
front. -/
def evenFrom : (depth : Int) → (offset : Nat) → List (Option Char) → Option Nat
  | _, _, [] => none
  | depth, offset, mark :: marks =>
    if depth + braceSum [mark] = 0 then some offset
    else evenFrom (depth + braceSum [mark]) (offset + 1) marks

section

variable {depth : Int} {offset : Nat} {marks : List (Option Char)}

theorem evenFrom_eq_some_iff {stop : Nat} :
    evenFrom depth offset marks = some stop ↔
      ∃ place < marks.length, stop = offset + place ∧
        depth + braceSum (marks.take (place + 1)) = 0 ∧
        ∀ earlier < place, depth + braceSum (marks.take (earlier + 1)) ≠ 0 := by
  induction marks generalizing depth offset with
  | nil => simp [evenFrom]
  | cons mark marks ih =>
      have hfirst : braceSum ((mark :: marks).take (0 + 1)) = braceSum [mark] := rfl
      have hlater : ∀ place, depth + braceSum ((mark :: marks).take (place + 1 + 1))
          = depth + braceSum [mark] + braceSum (marks.take (place + 1)) := by
        intro place
        rw [List.take_succ_cons, braceSum_cons, Int.add_assoc]
      rw [evenFrom]
      split
      case isTrue hzero =>
        constructor
        · rintro ⟨rfl⟩
          exact ⟨0, Nat.succ_pos _, rfl, hzero, fun earlier hlt => absurd hlt (Nat.not_lt_zero _)⟩
        · rintro ⟨place, -, rfl, -, hearlier⟩
          cases place with
          | zero => rfl
          | succ place => exact absurd hzero (hearlier 0 (Nat.succ_pos place))
      case isFalse hzero =>
        rw [ih]
        constructor
        · rintro ⟨place, hplace, rfl, hsum, hearlier⟩
          refine ⟨place + 1, Nat.succ_lt_succ hplace, by omega, (hlater place).trans hsum, ?_⟩
          intro earlier hlt
          cases earlier with
          | zero => exact hzero
          | succ earlier =>
              rw [hlater]
              exact hearlier earlier (by omega)
        · rintro ⟨place, hplace, rfl, hsum, hearlier⟩
          cases place with
          | zero => exact absurd hsum hzero
          | succ place =>
              refine ⟨place, Nat.lt_of_succ_lt_succ hplace, by omega,
                (hlater place).symm.trans hsum, ?_⟩
              intro earlier hlt
              rw [← hlater]
              exact hearlier (earlier + 1) (by omega)

/-- What is no code is not counted. -/
theorem evenFrom_replicate_none (hdepth : depth ≠ 0) (size : Nat) :
    evenFrom depth offset (List.replicate size none ++ marks)
      = evenFrom depth (offset + size) marks := by
  induction size generalizing offset with
  | zero => rfl
  | succ size ih =>
      rw [List.replicate_succ, List.cons_append, evenFrom, braceSum_none, Int.add_zero,
        if_neg hdepth, ih, Nat.add_assoc, Nat.add_comm 1]

end

/-! ### The scan over a blanked source -/

theorem nested_blanked (text : Text) :
    Nested Brackets.curly Brackets.isQuote (fun _ => false) (blanked text) := by
  apply Nested.of_forall
  intro c hc
  obtain ⟨d, -, rfl⟩ := List.mem_map.mp hc
  by_cases hline : d = '\n'
  · rw [if_pos hline]
    decide
  · rw [if_neg hline]
    decide

/-- What is left of a comment or literal has no braces and closed quotes. -/
theorem Begins.nested_blanked {lexeme : Lexeme} {rest : Text} (h : Begins lexeme rest)
    (hkind : lexeme.kind ≠ .code) :
    Nested Brackets.curly Brackets.isQuote (fun _ => false) lexeme.blanked := by
  cases hother : lexeme.kind with
  | code => exact absurd hother hkind
  | comment =>
      have hblanked : lexeme.blanked = blanked lexeme.text := by simp [Lexeme.blanked, hother]
      rw [hblanked]
      exact Code.nested_blanked lexeme.text
  | literal =>
      obtain ⟨quote, inner, hquote, htext⟩ := h.exists_quoted hother
      have hlexeme : lexeme = ⟨.literal, quote :: (inner ++ [quote])⟩ := by rw [← hother, ← htext]
      have hinside : ∀ c ∈ blanked inner, c ≠ quote ∧ c ≠ '\\' := by
        intro c hc
        obtain ⟨d, -, rfl⟩ := List.mem_map.mp hc
        by_cases hline : d = '\n'
        · rw [if_pos hline]
          rcases hquote with rfl | rfl <;> decide
        · rw [if_neg hline]
          rcases hquote with rfl | rfl <;> decide
      rw [hlexeme, Lexeme.blanked_literal]
      rcases hquote with rfl | rfl
      · exact .quoted (by decide) (by decide) hinside .nil
      · exact .quoted (by decide) (by decide) hinside .nil

theorem Lexeme.codeMarks_of_ne {lexeme : Lexeme} (h : lexeme.kind ≠ .code) :
    lexeme.codeMarks = List.replicate lexeme.text.length none := by
  rw [codeMarks, List.eq_replicate_iff]
  refine ⟨List.length_map _, ?_⟩
  intro mark hmark
  obtain ⟨c, -, rfl⟩ := List.mem_map.mp hmark
  exact if_neg h

section

variable {lexemes : List Lexeme} {before : Option Char} {depth : Int}

/-- **The scan for the closing brace counts the braces that are code.** -/
theorem closingFrom_blanked (hbegins : ∀ lexeme ∈ lexemes, ∃ rest, Begins lexeme rest)
    (hplain : ∀ lexeme ∈ lexemes, lexeme.kind = .code →
      ∀ c ∈ lexeme.text, Brackets.isQuote c = false ∧ c ≠ '\\')
    (hbefore : before ≠ some '\\') (hdepth : 1 ≤ depth) (offset : Nat) :
    Brackets.curly.closingFrom ⟨before, none⟩ depth offset (lexemes.flatMap Lexeme.blanked)
      = evenFrom depth offset (lexemes.flatMap Lexeme.codeMarks) := by
  induction lexemes generalizing before depth offset with
  | nil => rfl
  | cons lexeme lexemes ih =>
      obtain ⟨⟨rest, hfirst⟩, hbegins⟩ := List.forall_mem_cons.mp hbegins
      obtain ⟨hcode, hplain⟩ := List.forall_mem_cons.mp hplain
      rw [List.flatMap_cons, List.flatMap_cons]
      by_cases hkind : lexeme.kind = .code
      · obtain ⟨c, htext⟩ := hfirst.exists_code hkind
        have hmarks : lexeme.codeMarks = [some c] := by simp [Lexeme.codeMarks, htext, hkind]
        have hblanked : lexeme.blanked = [c] := by simp [Lexeme.blanked, htext, hkind]
        obtain ⟨hquote, hslash⟩ := hcode hkind c (by rw [htext]; exact List.mem_singleton_self c)
        have hnext : some c ≠ some '\\' := fun h => hslash (Option.some.inj h)
        rw [hmarks, hblanked, List.singleton_append, List.singleton_append, evenFrom]
        by_cases hopening : c = '\x7b'
        · subst hopening
          have hdeep : depth + 1 ≠ 0 := by omega
          rw [braceSum_opening, if_neg hdeep, ← ih hbegins hplain hnext (by omega)]
          exact Brackets.closingFrom_opening Brackets.apart_curly
        · by_cases hclosing : c = '\x7d'
          · subst hclosing
            have hstep : Quoting.step Brackets.isQuote ⟨before, none⟩ '\x7d'
                = ⟨some '\x7d', none⟩ :=
              Quoting.step_of_plain hquote
            have hweight : Brackets.curly.weight ⟨some '\x7d', none⟩ '\x7d' = -1 := rfl
            rw [Brackets.closingFrom_cons Brackets.apart_curly, hstep, hweight, braceSum_closing]
            by_cases hlast : depth = 1
            · have hzero : depth + -1 = 0 := by omega
              rw [if_pos ⟨rfl, rfl, hlast⟩, if_pos hzero]
            · have hdeep : depth + -1 ≠ 0 := by omega
              rw [if_neg fun h => hlast h.2.2, if_neg hdeep]
              exact ih hbegins hplain hnext (by omega) (offset + 1)
          · have hdeep : depth + 0 ≠ 0 := by omega
            rw [braceSum_of_ne hopening hclosing, if_neg hdeep, Int.add_zero,
              ← ih hbegins hplain hnext hdepth]
            exact Brackets.closingFrom_plain hquote hopening hclosing
      · obtain ⟨last, hlast, hscan⟩ := Brackets.closingFrom_nested Brackets.apart_curly
          (hfirst.nested_blanked hkind) hbefore hdepth
        have hdeep : depth ≠ 0 := by omega
        rw [hscan, Lexeme.codeMarks_of_ne hkind, evenFrom_replicate_none hdeep,
          ih hbegins hplain hlast hdepth, Lexeme.length_blanked]

end

/-- Code of a source without quotes and backslashes outside comments and literals. -/
theorem plain_of_mem_lexemes {source : Text} {lexeme : Lexeme}
    (hplain : ∀ (index : Nat) (c : Char), source[index]? = some c → Outside source index →
      Brackets.isQuote c = false ∧ c ≠ '\\')
    (hmem : lexeme ∈ lexemes source) (hkind : lexeme.kind = .code) :
    ∀ c ∈ lexeme.text, Brackets.isQuote c = false ∧ c ≠ '\\' := by
  intro c hc
  obtain ⟨before, after, hsplit⟩ := List.append_of_mem hmem
  obtain ⟨offset, hoffset, hget⟩ := List.getElem_of_mem hc
  have hstands : StandsIn source _ lexeme offset := .intro hsplit hoffset
  refine hplain _ c ?_ (hstands.outside_iff.mpr hkind)
  rw [hstands.getElem?_source, List.getElem?_eq_getElem hoffset, hget]

section

variable {source : Text} {start : Nat} (hopen : (blankLiterals source)[start]? = some '\x7b')

include hopen

theorem outside_of_brace : Outside source start :=
  outside_of_getElem?_blankLiterals hopen (by decide) (by decide) (by decide) (by decide)

/-- An opening brace that is left is a lexeme of its own. -/
theorem exists_split_of_brace :
    ∃ before after, lexemes source = before ++ ⟨.code, ['\x7b']⟩ :: after ∧
    start = (before.flatMap Lexeme.text).length := by
  have hlt : start < source.length := by
    rw [← length_blankLiterals source]
    exact (List.getElem?_eq_some_iff.mp hopen).1
  obtain ⟨lexeme, offset, hstands⟩ := exists_standsIn hlt
  have hkind := outside_of_brace hopen lexeme offset hstands
  obtain ⟨rest, hbegins⟩ := hstands.exists_begins
  obtain ⟨c, htext⟩ := hbegins.exists_code hkind
  have hwithin := hstands.within
  rw [htext, List.length_singleton, Nat.lt_one_iff] at hwithin
  subst hwithin
  have hsource := hstands.getElem?_source
  rw [← getElem?_blankLiterals_of_outside (outside_of_brace hopen), hopen, htext] at hsource
  obtain rfl : '\x7b' = c := by simpa using hsource
  have hlexeme : lexeme = ⟨.code, ['\x7b']⟩ := by rw [← hkind, ← htext]
  subst hlexeme
  obtain ⟨split, -⟩ := hstands
  exact ⟨_, _, split, Nat.add_zero _⟩

theorem closing?_eq_evenFrom
    (hplain : ∀ (index : Nat) (c : Char), source[index]? = some c → Outside source index →
      Brackets.isQuote c = false ∧ c ≠ '\\') :
    Brackets.curly.closing? (blankLiterals source) start
      = evenFrom 0 start ((codeMarks source).drop start) := by
  obtain ⟨before, after, hsplit, hstart⟩ := exists_split_of_brace hopen
  have hmem : ∀ lexeme ∈ after, lexeme ∈ lexemes source := by
    intro lexeme hlexeme
    rw [hsplit]
    exact List.mem_append_right _ (List.mem_cons_of_mem _ hlexeme)
  have hblanked : (blankLiterals source).drop start = '\x7b' :: after.flatMap Lexeme.blanked := by
    rw [blankLiterals, hsplit, hstart]
    exact drop_flatMap_of_length before _ Lexeme.length_blanked
  have hmarks : (codeMarks source).drop start = some '\x7b' :: after.flatMap Lexeme.codeMarks := by
    rw [codeMarks, hsplit, hstart]
    exact drop_flatMap_of_length before _ Lexeme.length_codeMarks
  have hnext : (some '\x7b' : Option Char) ≠ some '\\' := by decide
  have hscan := closingFrom_blanked
    (fun lexeme hlexeme => exists_begins_of_mem (hmem lexeme hlexeme))
    (fun lexeme hlexeme => plain_of_mem_lexemes hplain (hmem lexeme hlexeme)) hnext (Int.le_refl 1)
    (start + 1)
  have hmark : evenFrom 0 start (some '\x7b' :: after.flatMap Lexeme.codeMarks)
      = evenFrom 1 (start + 1) (after.flatMap Lexeme.codeMarks) := rfl
  rw [Brackets.closing?_eq Brackets.apart_curly hopen, hblanked, hmarks, hmark, ← hscan]
  exact Brackets.closingFrom_opening Brackets.apart_curly

end

/-! ### The brace that closes another -/

/-- How many more opening than closing braces are code from one index of the source up to
another. -/
def braceSurplus (source : Text) (start stop : Nat) : Int :=
  braceSum (((codeMarks source).take (stop + 1)).drop start)

/-- From one index up to another, both included, as many braces that are code close as open. -/
structure BracesEven (source : Text) (start stop : Nat) : Prop where
  ordered : start ≤ stop
  within : stop < source.length
  surplus : braceSurplus source start stop = 0

theorem braceSurplus_add (source : Text) (start place : Nat) :
    braceSurplus source start (start + place)
      = braceSum (((codeMarks source).drop start).take (place + 1)) := by
  have hsize : start + place + 1 - start = place + 1 := by omega
  rw [braceSurplus, List.drop_take, hsize]

theorem evenFrom_codeMarks_eq_some_iff {source : Text} {start stop : Nat} :
    evenFrom 0 start ((codeMarks source).drop start) = some stop ↔
      BracesEven source start stop ∧ ∀ earlier < stop, ¬ BracesEven source start earlier := by
  rw [evenFrom_eq_some_iff]
  simp only [List.length_drop, length_codeMarks, Int.zero_add, ← braceSurplus_add]
  constructor
  · rintro ⟨place, hplace, rfl, hsurplus, hfirst⟩
    refine ⟨⟨Nat.le_add_right _ _, by omega, hsurplus⟩, ?_⟩
    rintro earlier hlt ⟨hordered, -, heven⟩
    obtain ⟨earlier, rfl⟩ := Nat.exists_eq_add_of_le hordered
    exact hfirst earlier (by omega) heven
  · rintro ⟨⟨hordered, hwithin, hsurplus⟩, hfirst⟩
    obtain ⟨place, rfl⟩ := Nat.exists_eq_add_of_le hordered
    refine ⟨place, by omega, rfl, hsurplus, ?_⟩
    intro earlier hlt heven
    exact hfirst (start + earlier) (by omega) ⟨Nat.le_add_right _ _, by omega, heven⟩

theorem evenFrom_codeMarks_eq_none_iff {source : Text} {start : Nat} :
    evenFrom 0 start ((codeMarks source).drop start) = none ↔
      ∀ stop, ¬ BracesEven source start stop := by
  rw [Option.eq_none_iff_forall_ne_some]
  constructor
  · -- The first of the places where the count is even would have been found.
    intro hnone
    by_contra hsome
    rw [not_forall_not] at hsome
    classical
    exact hnone _ (evenFrom_codeMarks_eq_some_iff.mpr
      ⟨Nat.find_spec hsome, fun earlier hlt => Nat.find_min hsome hlt⟩)
  · exact fun hnone stop hstop => hnone stop (evenFrom_codeMarks_eq_some_iff.mp hstop).1

/-- **In a blanked source braces match by plain counting.**  If the code of the source has no quotes
and backslashes, an opening brace of the blanked source is code, and it is closed at the first index
up to which the code of the source closes as many braces as it opens, if there is one. -/
theorem closing?_blankLiterals {source : Text} {start : Nat}
    (hplain : ∀ (index : Nat) (c : Char), source[index]? = some c → Outside source index →
      Brackets.isQuote c = false ∧ c ≠ '\\')
    (hopen : (blankLiterals source)[start]? = some '\x7b') :
    (source[start]? = some '\x7b' ∧ Outside source start) ∧
      (∀ stop, Brackets.curly.closing? (blankLiterals source) start = some stop ↔
        BracesEven source start stop ∧ ∀ earlier < stop, ¬ BracesEven source start earlier) ∧
      (Brackets.curly.closing? (blankLiterals source) start = none ↔
        ∀ stop, ¬ BracesEven source start stop) := by
  have houtside := outside_of_brace hopen
  rw [closing?_eq_evenFrom hopen hplain]
  exact ⟨⟨(getElem?_blankLiterals_of_outside houtside).symm.trans hopen, houtside⟩,
    fun stop => evenFrom_codeMarks_eq_some_iff, evenFrom_codeMarks_eq_none_iff⟩

/-- That the code has no quotes and backslashes is told by the marks. -/
theorem plain_of_codeMarks {source : Text}
    (h : (codeMarks source).all (Option.all fun c => !Brackets.isQuote c && c != '\\') = true)
    (index : Nat) (c : Char) (hc : source[index]? = some c) (houtside : Outside source index) :
    Brackets.isQuote c = false ∧ c ≠ '\\' := by
  have hmark : some c ∈ codeMarks source :=
    List.mem_of_getElem? (getElem?_codeMarks_eq_iff.mpr ⟨hc, houtside⟩)
  simpa using List.all_eq_true.mp h _ hmark

/-- The brace of a class is not closed by the one in quotes. -/
theorem closing?_blankLiterals_braceSource :
    (blankLiterals braceSource)[8]? = some '\x7b' ∧
      (∀ (index : Nat) (c : Char), braceSource[index]? = some c → Outside braceSource index →
        Brackets.isQuote c = false ∧ c ≠ '\\') ∧
      BracesEven braceSource 8 24 ∧ ∀ earlier < 24, ¬ BracesEven braceSource 8 earlier := by
  have hopen : (blankLiterals braceSource)[8]? = some '\x7b' := by decide +kernel
  have hplain := @plain_of_codeMarks braceSource (by decide +kernel)
  have hfound : Brackets.curly.closing? (blankLiterals braceSource) 8 = some 24 := by decide +kernel
  exact ⟨hopen, hplain, ((closing?_blankLiterals hplain hopen).2.1 24).mp hfound⟩

end Diagrams.Code
