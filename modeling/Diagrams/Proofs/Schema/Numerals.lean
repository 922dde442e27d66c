/-
Numbers are no names.

The lengths of a type stand in brackets, as a list of columns does.  Where they are taken for such a
list, its names start with a digit or a comma.  A written name starts with a letter or a low line,
and case does not matter for that, so no such name stands for a written one (`lower_ne_of_numeral`).
-/
import Diagrams.Proofs.Schema.UnbrokenNames
import Diagrams.Proofs.Text.Words

namespace Diagrams.Schema

/-- A text of digits and commas. -/
def IsNumeral (text : Text) : Prop := text ≠ [] ∧ ∀ c ∈ text, isDecimalDigit c = true ∨ c = ','

/-! ### Lower case -/

/-- The first character in lower case, where it is none that becomes another one. -/
theorem head?_lower {c : Char} (hsigma : c ≠ 'Σ') (hdot : c ≠ 'İ') (rest : Text) :
    (Text.lower (c :: rest)).head? = some (lowerChar c) := by
  unfold Text.lower Text.lowerAfter
  rw [if_neg hsigma, if_neg hdot]
  rfl

/-- No digit is in a run of capitals. -/
theorem apart_lowerRuns :
    ∀ start ∈ digitZeros, ∀ run ∈ lowerRuns, run.2.1 < start ∨ start + 9 < run.1 := by
  decide +kernel

/-- Digits of any script have no case. -/
theorem lowerChar_of_isDecimalDigit {c : Char} (h : isDecimalDigit c = true) : lowerChar c = c := by
  unfold isDecimalDigit digitValue? at h
  unfold lowerChar
  by_cases hlt : c.toNat < 0x80
  · rw [if_pos hlt] at h ⊢
    have hdigit : c.isDigit = true := by
      by_contra hno
      simp [hno] at h
    refine Char.toLower_eq_of_not_isUpper fun hupper => ?_
    simp only [Char.isUpper, Char.isDigit, Bool.and_eq_true, decide_eq_true_eq] at hupper hdigit
    exact absurd (UInt32.le_trans hupper.1 hdigit.2) (by decide)
  · rw [if_neg hlt] at h ⊢
    rw [Option.isSome_map] at h
    obtain ⟨start, hstart⟩ := Option.isSome_iff_exists.mp h
    have hrange := List.find?_some hstart
    simp only [Bool.and_eq_true, decide_eq_true_eq] at hrange
    have hnone : (lowerRuns.find? fun run => run.1 ≤ c.toNat && c.toNat ≤ run.2.1 &&
        (c.toNat - run.1) % run.2.2.1 == 0) = none := by
      refine List.find?_eq_none.mpr fun run hrun hmem => ?_
      simp only [Bool.and_eq_true, decide_eq_true_eq] at hmem
      rcases apart_lowerRuns start (List.mem_of_find?_eq_some hstart) run hrun with hbelow | habove
      · omega
      · omega
    rw [hnone]

/-- Whether a character may start a written name. -/
def startsName (c : Char) : Bool := c.isAlpha || c == '_'

theorem toNat_lt_of_startsName {c : Char} (h : startsName c = true) : c.toNat < 0x80 := by
  rcases Bool.or_eq_true_iff.mp h with halpha | hlow
  · exact toNat_lt_of_isAlpha halpha
  · rw [beq_iff_eq.mp hlow]
    decide

theorem startsName_lowerChar {c : Char} (h : startsName c = true) :
    startsName (lowerChar c) = true := by
  have hlower : lowerChar c = c.toLower := if_pos (toNat_lt_of_startsName h)
  rw [hlower]
  rcases Bool.or_eq_true_iff.mp h with halpha | hlow
  · rw [startsName, Char.isAlpha_toLower_eq_isAlpha, halpha]
    rfl
  · rw [beq_iff_eq.mp hlow]
    decide

theorem startsName_of_isDecimalDigit {c : Char} (h : isDecimalDigit c = true) :
    startsName c = false := by
  by_contra hstarts
  have hstarts := Bool.eq_true_of_not_eq_false hstarts
  unfold isDecimalDigit digitValue? at h
  rw [if_pos (toNat_lt_of_startsName hstarts)] at h
  have hdigit : c.isDigit = true := by
    by_contra hno
    simp [hno] at h
  rcases Bool.or_eq_true_iff.mp hstarts with halpha | hlow
  · simp only [Char.isAlpha, Char.isUpper, Char.isLower, Char.isDigit, Bool.or_eq_true,
      Bool.and_eq_true, decide_eq_true_eq] at halpha hdigit
    rcases halpha with hupper | hlower
    · exact absurd (UInt32.le_trans hupper.1 hdigit.2) (by decide)
    · exact absurd (UInt32.le_trans hlower.1 hdigit.2) (by decide)
  · rw [beq_iff_eq.mp hlow] at hdigit
    exact absurd hdigit (by decide)

/-- Case aside, no numeral is a written name. -/
theorem lower_ne_of_numeral {numeral name : Text} (hnumeral : IsNumeral numeral)
    (hname : isIdentifier name = true) : name.lower ≠ numeral.lower := by
  obtain ⟨c, rest, rfl⟩ := List.exists_cons_of_ne_nil hnumeral.1
  cases name with
  | nil => exact Bool.noConfusion hname
  | cons d name =>
      have hstarts : startsName d = true := (Bool.and_eq_true_iff.mp hname).1
      have hd : d ≠ 'Σ' ∧ d ≠ 'İ' := by
        constructor
        · rintro rfl
          exact absurd hstarts (by decide)
        · rintro rfl
          exact absurd hstarts (by decide)
      have hc : c ≠ 'Σ' ∧ c ≠ 'İ' := by
        have hfirst := hnumeral.2 c List.mem_cons_self
        constructor
        · rintro rfl
          exact absurd hfirst (by decide)
        · rintro rfl
          exact absurd hfirst (by decide)
      intro heq
      have hheads := congrArg List.head? heq
      rw [head?_lower hd.1 hd.2, head?_lower hc.1 hc.2, Option.some.injEq] at hheads
      have hlower := startsName_lowerChar hstarts
      rw [hheads] at hlower
      rcases hnumeral.2 c List.mem_cons_self with hdigit | rfl
      · rw [lowerChar_of_isDecimalDigit hdigit, startsName_of_isDecimalDigit hdigit] at hlower
        exact Bool.noConfusion hlower
      · exact absurd hlower (by decide)

/-! ### Lengths that are taken for columns -/

theorem mem_of_mem_withoutArguments {item : Text} {c : Char} (h : c ∈ withoutArguments item) :
    c ∈ item := by
  unfold withoutArguments at h
  rcases List.mem_append.mp h with hfront | hline
  · exact List.mem_of_mem_take hfront
  · have hback := (List.takeWhile_sublist _).mem hline
    exact List.mem_reverse.mp ((List.takeWhile_sublist _).mem (List.mem_reverse.mp hback))

/-- A name in a list is made of characters of the list. -/
theorem mem_of_mem_identifierList {text name : Text} {c : Char} (h : name ∈ identifierList text)
    (hc : c ∈ name) : c ∈ text := by
  obtain ⟨item, hitem, rfl⟩ := List.mem_map.mp (List.mem_filter.mp h).1
  have hpiece : c ∈ item := by
    have hword := mem_of_mem_unquote hc
    cases hfirst : (withoutArguments item.trim).words.head? with
    | none =>
        rw [hfirst] at hword
        exact absurd hword List.not_mem_nil
    | some word =>
        rw [hfirst] at hword
        have hbare := Text.mem_of_mem_words (List.mem_of_mem_head? hfirst) hword
        exact Text.mem_of_mem_strip (mem_of_mem_withoutArguments hbare)
  rw [Text.splitWhere_eq_piecesBy] at hitem
  exact Text.mem_of_mem_piecesBy hitem hpiece

/-- The names in a list of numbers are numerals. -/
theorem isNumeral_of_mem_identifierList {text name : Text}
    (h : ∀ c ∈ text, isDecimalDigit c = true ∨ c = ',') (hname : name ∈ identifierList text) :
    IsNumeral name := by
  refine ⟨?_, fun c hc => h c (mem_of_mem_identifierList hname hc)⟩
  have hfull := (List.mem_filter.mp hname).2
  rintro rfl
  exact absurd hfull (by decide)

end Diagrams.Schema
