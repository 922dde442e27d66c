/-
Classes of characters, and how they lie to each other.

Names are made of word characters; what separates them are blanks, quotes, brackets and
points, and none of these is a word character.  Words that are read without regard to case are
spelled with letters only, so a word never runs over the end of a name.  Whatever spells a
word stands for its capitals, save for the capital i with a dot, which a pattern takes for an
i and the table of capitals does not.
-/
import Mathlib
import Diagrams.Text.Capitals
import Diagrams.Proofs.Pattern.Paths

namespace Diagrams

/-- Letters and digits by their code points. -/
theorem isAlphanum_iff {c : Char} :
    c.isAlphanum = true ↔
      0x30 ≤ c.toNat ∧ c.toNat ≤ 0x39 ∨ 0x41 ≤ c.toNat ∧ c.toNat ≤ 0x5A ∨
        0x61 ≤ c.toNat ∧ c.toNat ≤ 0x7A := by
  simp [Char.isAlphanum, Char.isAlpha, Char.isUpper, Char.isLower, Char.isDigit,
    UInt32.le_iff_toNat_le]
  omega

/-- Blanks are no word characters, in any script. -/
theorem isWordChar_of_isBlank {c : Char} (h : isBlank c = true) : isWordChar c = false := by
  obtain ⟨range, hrange, hlo, hhi⟩ := Ranges.contains_iff.mp h
  have hcodes : ∀ code ∈ blankRanges.flatMap fun range =>
      List.range' range.1 (range.2 + 1 - range.1),
      if code < 0x80 then code < 0x30 else wordRanges.contains code = false := by
    decide +kernel
  have hmem : c.toNat ∈ blankRanges.flatMap fun range =>
      List.range' range.1 (range.2 + 1 - range.1) := by
    refine List.mem_flatMap.mpr ⟨range, hrange, ?_⟩
    rw [List.mem_range'_1]
    omega
  have hcode := hcodes _ hmem
  by_cases hlt : c.toNat < 0x80
  · rw [if_pos hlt] at hcode
    have hlow : c ≠ '_' := by
      rintro rfl
      exact absurd hcode (by decide)
    have hnone : c.isAlphanum = false := by
      by_contra halphanum
      have hrange := isAlphanum_iff.mp (by simpa using halphanum)
      omega
    rw [isWordChar_of_lt hlt, hnone]
    simpa using hlow
  · rw [if_neg hlt] at hcode
    unfold isWordChar
    rw [if_neg hlt]
    exact hcode

theorem isBlank_of_isWordChar {c : Char} (h : isWordChar c = true) : isBlank c = false := by
  by_contra hblank
  rw [isWordChar_of_isBlank (by simpa using hblank)] at h
  exact Bool.noConfusion h

theorem toNat_lt_of_isAlphanum {c : Char} (h : c.isAlphanum = true) : c.toNat < 0x80 := by
  have hcode := isAlphanum_iff.mp h
  omega

theorem isWordChar_of_isAlphanum {c : Char} (h : c.isAlphanum = true) : isWordChar c = true := by
  rw [isWordChar_of_lt (toNat_lt_of_isAlphanum h), h]
  rfl

theorem isAlphanum_of_isAlpha {c : Char} (h : c.isAlpha = true) : c.isAlphanum = true := by
  unfold Char.isAlphanum
  rw [h]
  rfl

/-- A word of one letter or more. -/
def isLetters (word : String) : Bool := !word.toList.isEmpty && word.toList.all Char.isAlpha

theorem ne_nil_of_isLetters {word : String} (h : isLetters word = true) : word.toList ≠ [] := by
  simpa using (Bool.and_eq_true_iff.mp h).1

theorem isWordChar_of_isLetters {word : String} (h : isLetters word = true) :
    ∀ c ∈ word.toList, isWordChar c = true := fun c hc =>
  isWordChar_of_isAlphanum (isAlphanum_of_isAlpha
    (List.all_eq_true.mp (Bool.and_eq_true_iff.mp h).2 c hc))

theorem isWordChar_of_isLatinLetter {c : Char} (h : isLatinLetter c = true) :
    isWordChar c = true := by
  unfold isLatinLetter at h
  simp only [Bool.or_eq_true, beq_iff_eq] at h
  have hsigns : ['\u212a', '\u017f', '\u0130', '\u0131'].all isWordChar = true := by
    decide +kernel
  rcases h with (((h | rfl) | rfl) | rfl) | rfl
  · exact isWordChar_of_isAlphanum (isAlphanum_of_isAlpha h)
  all_goals exact List.all_eq_true.mp hsigns _ (by simp)

/-- Decimal digits are word characters, in any script. -/
theorem isWordChar_of_isDecimalDigit {c : Char} (h : isDecimalDigit c = true) :
    isWordChar c = true := by
  unfold isDecimalDigit digitValue? at h
  by_cases hlt : c.toNat < 0x80
  · rw [if_pos hlt] at h
    have hdigit : c.isDigit = true := by
      by_contra hno
      simp [hno] at h
    refine isWordChar_of_isAlphanum ?_
    unfold Char.isAlphanum
    rw [hdigit, Bool.or_true]
  · rw [if_neg hlt, Option.isSome_map] at h
    obtain ⟨start, hstart⟩ := Option.isSome_iff_exists.mp h
    have hrange := List.find?_some hstart
    simp only [Bool.and_eq_true, decide_eq_true_eq] at hrange
    -- The ten digits after each zero lie in one range of word characters.
    have hranges : ∀ start ∈ digitZeros,
        wordRanges.any (fun range => range.1 ≤ start && start + 9 ≤ range.2) = true := by
      decide +kernel
    obtain ⟨range, hmem, hbounds⟩ :=
      List.any_eq_true.mp (hranges start (List.mem_of_find?_eq_some hstart))
    simp only [Bool.and_eq_true, decide_eq_true_eq] at hbounds
    unfold isWordChar
    rw [if_neg hlt]
    refine Ranges.contains_iff.mpr ⟨range, hmem, ?_, ?_⟩
    · omega
    · omega

/-! ### Letters in either case -/

theorem matchesLetter_iff {letter c : Char} :
    matchesLetter letter c = true ↔
      c.toLower = letter.toLower ∨ letter.toLower = 'k' ∧ c = '\u212a' ∨
        letter.toLower = 's' ∧ c = '\u017f' ∨
        letter.toLower = 'i' ∧ (c = '\u0130' ∨ c = '\u0131') := by
  unfold matchesLetter
  rw [Bool.or_eq_true, beq_iff_eq]
  refine or_congr_right ?_
  split
  · rename_i h
    simp [h]
  · rename_i h
    simp [h]
  · rename_i h
    simp [h]
  · rename_i hk hs hi
    constructor
    · exact fun h => Bool.noConfusion h
    · rintro (⟨h, -⟩ | ⟨h, -⟩ | ⟨h, -⟩)
      · exact (hk h).elim
      · exact (hs h).elim
      · exact (hi h).elim

theorem isLatinLetter_of_matchesLetter {letter c : Char} (hletter : letter.isAlpha = true)
    (h : matchesLetter letter c = true) : isLatinLetter c = true := by
  unfold isLatinLetter
  rcases matchesLetter_iff.mp h with h | ⟨-, rfl⟩ | ⟨-, rfl⟩ | ⟨-, rfl | rfl⟩
  · have halpha : c.isAlpha = true := by
      rw [← Char.isAlpha_toLower_eq_isAlpha, h, Char.isAlpha_toLower_eq_isAlpha, hletter]
    simp [halpha]
  all_goals decide

/-- What matches a capital stands for it. -/
theorem capitalsOf_of_matchesLetter {letter c : Char} (hletter : letter.isUpper = true)
    (h : matchesLetter letter c = true) (hdot : c ≠ '\u0130') (hkelvin : c ≠ '\u212a') :
    capitalsOf c = [letter] := by
  have hupper : letter.toUpper = letter :=
    Char.toUpper_eq_of_not_isLower (Char.not_isLower_of_isUpper hletter)
  have hself : ∀ low : Char, letter.toLower = low → letter = low.toUpper := by
    rintro low rfl
    rw [Char.toUpper_toLower_eq_toUpper, hupper]
  rcases matchesLetter_iff.mp h with h | ⟨-, rfl⟩ | ⟨hs, rfl⟩ | ⟨hi, rfl | rfl⟩
  · have halpha : c.isAlphanum = true := by
      refine isAlphanum_of_isAlpha ?_
      rw [← Char.isAlpha_toLower_eq_isAlpha, h, Char.isAlpha_toLower_eq_isAlpha]
      simp [Char.isAlpha, hletter]
    have hlt := toNat_lt_of_isAlphanum halpha
    have hsame : c.toUpper = letter := by
      rw [← Char.toUpper_toLower_eq_toUpper, h, Char.toUpper_toLower_eq_toUpper, hupper]
    unfold capitalsOf
    split
    all_goals first
      | exact absurd hlt (by decide)
      | rw [hsame]
  · exact absurd rfl hkelvin
  · rw [hself 's' hs]
    rfl
  · exact absurd rfl hdot
  · rw [hself 'i' hi]
    rfl

theorem isWordChar_of_capitalsOf {c : Char} (h : ∀ d ∈ capitalsOf c, d.isUpper = true) :
    isWordChar c = true := by
  have hsigns : ['ß', 'ı', 'ſ', 'ﬀ', 'ﬁ', 'ﬂ', 'ﬃ', 'ﬄ', 'ﬅ', 'ﬆ'].all isWordChar = true := by
    decide +kernel
  unfold capitalsOf at h
  split at h
  case h_11 =>
    have hupper := h c.toUpper (List.mem_singleton.mpr rfl)
    rw [Char.isUpper_toUpper_eq_isAlpha] at hupper
    exact isWordChar_of_isAlphanum (isAlphanum_of_isAlpha hupper)
  all_goals exact List.all_eq_true.mp hsigns _ (by simp)

/-! ### Words -/

namespace Pattern.Spells

variable {word : String} {text : Text}

theorem length_eq (h : Spells word text) : text.length = word.toList.length :=
  (List.Forall₂.length_eq h).symm

/-- A word of letters is spelled with letters. -/
theorem isLatinLetter (h : Spells word text) (hword : word.toList.all Char.isAlpha = true) :
    ∀ c ∈ text, isLatinLetter c = true := by
  unfold Spells at h
  generalize word.toList = letters at h hword
  induction h with
  | nil => simp
  | cons hc _ ih =>
      rw [List.all_cons, Bool.and_eq_true] at hword
      exact List.forall_mem_cons.mpr ⟨isLatinLetter_of_matchesLetter hword.1 hc, ih hword.2⟩

theorem isWordChar (h : Spells word text) (hword : word.toList.all Char.isAlpha = true) :
    ∀ c ∈ text, isWordChar c = true :=
  fun c hc => isWordChar_of_isLatinLetter (h.isLatinLetter hword c hc)

/-- What spells a word in capitals stands for the word. -/
theorem capitals (h : Spells word text) (hword : word.toList.all Char.isUpper = true)
    (hdot : '\u0130' ∉ text) (hkelvin : '\u212a' ∉ text) : text.capitals = word.toList := by
  unfold Spells at h
  unfold Text.capitals
  generalize word.toList = letters at h hword ⊢
  induction h with
  | nil => rfl
  | @cons letter c _ _ hc _ ih =>
      rw [List.all_cons, Bool.and_eq_true] at hword
      rw [List.mem_cons, not_or] at hdot hkelvin
      rw [List.flatMap_cons, ih hdot.2 hkelvin.2 hword.2,
        capitalsOf_of_matchesLetter hword.1 hc (Ne.symm hdot.1) (Ne.symm hkelvin.1)]
      rfl

/-- A word without a k is spelled without the sign for kelvin. -/
theorem not_mem_kelvin (h : Spells word text)
    (hword : word.toList.all (fun letter => letter.isAlpha && letter.toLower != 'k') = true) :
    '\u212a' ∉ text := by
  unfold Spells at h
  generalize word.toList = letters at h hword
  induction h with
  | nil => simp
  | @cons letter c _ _ hc _ ih =>
      rw [List.all_cons, Bool.and_eq_true, Bool.and_eq_true] at hword
      obtain ⟨⟨halpha, hk⟩, hrest⟩ := hword
      rw [List.mem_cons, not_or]
      refine ⟨?_, ih hrest⟩
      rintro rfl
      rcases matchesLetter_iff.mp hc with h | ⟨h, -⟩ | ⟨-, h⟩ | ⟨-, h | h⟩
      · have hlower : ('\u212a' : Char).toLower.isAlpha = true := by
          rw [h, Char.isAlpha_toLower_eq_isAlpha, halpha]
        exact absurd hlower (by decide)
      · simp [h] at hk
      all_goals exact absurd h (by decide)

end Pattern.Spells

theorem isWordChar_of_isUpper_capitals {word : Text}
    (h : word.capitals.all Char.isUpper = true) : ∀ c ∈ word, isWordChar c = true := by
  intro c hc
  refine isWordChar_of_capitalsOf fun d hd => ?_
  exact List.all_eq_true.mp h d (List.mem_flatMap.mpr ⟨c, hc, hd⟩)

end Diagrams
