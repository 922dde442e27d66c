/-
Texts with the case of letters and the kind of blanks levelled out.

`leveled` writes the Latin letters in capitals and every blank but the line feed as a space.  No
class of characters tells a character from its levelled form, and signs are left alone, so a
test in a reader gives the same answer on both; it is enough to look at the letters and the
blanks one by one (`apply_leveled`).  A text without blanks has the same lower case and stands
for the same capitals when it is levelled.
-/
import Diagrams.Text.Lower
import Diagrams.Proofs.Text.Letters
import Diagrams.Proofs.Text.Mapped

namespace Diagrams

/-- The character in capitals, or a space if it is a blank other than the line feed. -/
def leveled (c : Char) : Char := if isBlank c && c != '\n' then ' ' else c.toUpper

theorem leveled_of_not_isBlank {c : Char} (h : isBlank c = false) : leveled c = c.toUpper := by
  unfold leveled
  rw [h, Bool.false_and, if_neg Bool.false_ne_true]

section

variable {α : Type} {test : Char → α}
  (hletter : ∀ c : Char, c.isLower = true → test c.toUpper = test c)
include hletter

/-- What makes no difference between small letters and capitals tells no character from its
capital. -/
theorem apply_toUpper (c : Char) : test c.toUpper = test c := by
  by_cases hlower : c.isLower = true
  · exact hletter c hlower
  · rw [Char.toUpper_eq_of_not_isLower hlower]

/-- What makes no difference between a space and the other blanks on a line either tells no
character from its levelled form. -/
theorem apply_leveled
    (hblank : ∀ c : Char, isBlank c = true → c ≠ '\n' → test ' ' = test c) (c : Char) :
    test (leveled c) = test c := by
  unfold leveled
  by_cases h : isBlank c = true ∧ c ≠ '\n'
  · rw [if_pos (by simpa using h)]
    exact hblank c h.1 h.2
  · rw [if_neg (by simpa using h)]
    exact apply_toUpper hletter c

end

/-! ### Classes of characters -/

/-- The code points of the small Latin letters. -/
def smallLetters : List Nat := List.range' 0x61 26

/-- The code points of the blanks. -/
def blanks : List Nat :=
  blankRanges.flatMap fun range => List.range' range.1 (range.2 + 1 - range.1)

theorem mem_smallLetters {c : Char} (h : c.isLower = true) : c.toNat ∈ smallLetters := by
  have hcode : 0x61 ≤ c.toNat ∧ c.toNat ≤ 0x7A := by
    simpa [Char.isLower, UInt32.le_iff_toNat_le] using h
  unfold smallLetters
  rw [List.mem_range'_1]
  omega

theorem mem_blanks {c : Char} (h : isBlank c = true) : c.toNat ∈ blanks := by
  obtain ⟨range, hrange, hlo, hhi⟩ := Ranges.contains_iff.mp h
  refine List.mem_flatMap.mpr ⟨range, hrange, ?_⟩
  rw [List.mem_range'_1]
  omega

/-- The answers to what the readers ask of a character. -/
def classesOf (c : Char) : List Bool :=
  [isBlank c, isWordChar c, isDecimalDigit c, isLatinLetter c, isCased c, isCaseIgnorable c]

/-- A character and its levelled form belong to the same classes. -/
theorem classesOf_leveled (c : Char) : classesOf (leveled c) = classesOf c := by
  have hletters : ∀ code ∈ smallLetters,
      classesOf (Char.ofNat code).toUpper = classesOf (Char.ofNat code) := by decide +kernel
  have hblanks : ∀ code ∈ blanks, classesOf ' ' = classesOf (Char.ofNat code) := by decide +kernel
  refine apply_leveled (fun d hd => ?_) (fun d hd _ => ?_) c
  · simpa using hletters d.toNat (mem_smallLetters hd)
  · simpa using hblanks d.toNat (mem_blanks hd)

section

variable (c : Char)

@[simp] theorem isBlank_leveled : isBlank (leveled c) = isBlank c :=
  Option.some.inj (congrArg (·[0]?) (classesOf_leveled c))

@[simp] theorem isWordChar_leveled : isWordChar (leveled c) = isWordChar c :=
  Option.some.inj (congrArg (·[1]?) (classesOf_leveled c))

@[simp] theorem isDecimalDigit_leveled : isDecimalDigit (leveled c) = isDecimalDigit c :=
  Option.some.inj (congrArg (·[2]?) (classesOf_leveled c))

@[simp] theorem isLatinLetter_leveled : isLatinLetter (leveled c) = isLatinLetter c :=
  Option.some.inj (congrArg (·[3]?) (classesOf_leveled c))

@[simp] theorem isCased_leveled : isCased (leveled c) = isCased c :=
  Option.some.inj (congrArg (·[4]?) (classesOf_leveled c))

@[simp] theorem isCaseIgnorable_leveled : isCaseIgnorable (leveled c) = isCaseIgnorable c :=
  Option.some.inj (congrArg (·[5]?) (classesOf_leveled c))

end

theorem toNat_lt_of_isAlpha {c : Char} (h : c.isAlpha = true) : c.toNat < 0x80 :=
  toNat_lt_of_isAlphanum (isAlphanum_of_isAlpha h)

theorem isAlpha_of_isLower {c : Char} (h : c.isLower = true) : c.isAlpha = true := by
  unfold Char.isAlpha
  rw [h, Bool.or_true]

/-- A letter of a word is found in either case. -/
theorem matchesLetter_leveled {letter : Char} (h : letter.isAlpha = true) (c : Char) :
    matchesLetter letter (leveled c) = matchesLetter letter c := by
  have hblank : ∀ d, isBlank d = true → matchesLetter letter d = false := by
    intro d hd
    by_contra hmatch
    have hword : isWordChar d = true :=
      isWordChar_of_isLatinLetter (isLatinLetter_of_matchesLetter h (by simpa using hmatch))
    rw [isWordChar_of_isBlank hd] at hword
    exact Bool.noConfusion hword
  have hletter : ∀ d : Char, d.isAlpha = true →
      (matchesLetter letter d = true ↔ d.toLower = letter.toLower) := by
    intro d hd
    rw [matchesLetter_iff]
    constructor
    · rintro (hsame | ⟨-, rfl⟩ | ⟨-, rfl⟩ | ⟨-, rfl | rfl⟩)
      · exact hsame
      all_goals exact absurd hd (by decide)
    · exact .inl
  refine apply_leveled (fun d hd => ?_) (fun d hd _ => ?_) c
  · have hsmall := isAlpha_of_isLower hd
    have hcapital : d.toUpper.isAlpha = true := by rw [Char.isAlpha_toUpper_eq_isAlpha, hsmall]
    rw [Bool.eq_iff_iff, hletter d hsmall, hletter _ hcapital, Char.toLower_toUpper_eq_toLower]
  · rw [hblank ' ' (by decide), hblank d hd]

/-- Whether a character is levelled to itself and no other is levelled to it: no letter and no
blank. -/
def isSign (c : Char) : Bool := !c.isAlpha && (!isBlank c || c == '\n')

/-- Signs are told apart from everything else. -/
theorem leveled_beq (sign : Char) (h : isSign sign = true) (c : Char) :
    (leveled c == sign) = (c == sign) := by
  have hnone : ∀ d, isSign d = false → (d == sign) = false := by
    intro d hd
    rw [beq_eq_false_iff_ne]
    rintro rfl
    rw [h] at hd
    exact Bool.noConfusion hd
  refine @apply_leveled _ (· == sign) (fun d hd => ?_) (fun d hd hne => ?_) c
  · have hsmall : isSign d = false := by simp [isSign, isAlpha_of_isLower hd]
    have hcapital : isSign d.toUpper = false := by simp [isSign, isAlpha_of_isLower hd]
    exact (hnone _ hcapital).trans (hnone d hsmall).symm
  · have hblank : isSign d = false := by simp [isSign, hd, hne]
    exact (hnone ' ' (by decide)).trans (hnone d hblank).symm

theorem leveled_eq_iff (sign : Char) (h : isSign sign = true) {c : Char} :
    leveled c = sign ↔ c = sign := by
  rw [← beq_iff_eq, leveled_beq sign h, beq_iff_eq]

theorem leveled_sign (sign : Char) (h : isSign sign = true) : leveled sign = sign :=
  (leveled_eq_iff sign h).mpr rfl

/-! ### Texts without blanks -/

/-- There is no blank in the text. -/
def Text.Unbroken (text : Text) : Prop := ∀ c ∈ text, isBlank c = false

theorem lowerChar_leveled {c : Char} (h : isBlank c = false) :
    lowerChar (leveled c) = lowerChar c := by
  have hlower : ∀ d : Char, d.isAlpha = true → lowerChar d = d.toLower :=
    fun d hd => if_pos (toNat_lt_of_isAlpha hd)
  rw [leveled_of_not_isBlank h]
  refine apply_toUpper (fun d hd => ?_) c
  have hsmall := isAlpha_of_isLower hd
  have hcapital : d.toUpper.isAlpha = true := by rw [Char.isAlpha_toUpper_eq_isAlpha, hsmall]
  rw [hlower d hsmall, hlower _ hcapital, Char.toLower_toUpper_eq_toLower]

theorem capitalsOf_leveled {c : Char} (h : isBlank c = false) :
    capitalsOf (leveled c) = capitalsOf c := by
  have hletters : ∀ code ∈ smallLetters,
      capitalsOf (Char.ofNat code).toUpper = capitalsOf (Char.ofNat code) := by decide +kernel
  rw [leveled_of_not_isBlank h]
  refine apply_toUpper (fun d hd => ?_) c
  simpa using hletters d.toNat (mem_smallLetters hd)

namespace Text

theorem meetsCased_map_leveled (text : Text) : meetsCased (text.map leveled) = meetsCased text := by
  unfold meetsCased
  rw [dropWhile_map isCaseIgnorable_leveled, List.head?_map, Option.map_map]
  congr 2
  exact funext isCased_leveled

theorem lowerAfter_map_leveled {before text : Text} (h : text.Unbroken) :
    lowerAfter (before.map leveled) (text.map leveled) = lowerAfter before text := by
  induction text generalizing before with
  | nil => rfl
  | cons c text ih =>
      obtain ⟨hc, htext⟩ := List.forall_mem_cons.mp h
      have hlater : lowerAfter (leveled c :: before.map leveled) (text.map leveled)
          = lowerAfter (c :: before) text := @ih (c :: before) htext
      rw [List.map_cons, lowerAfter, lowerAfter, hlater, meetsCased_map_leveled,
        meetsCased_map_leveled, lowerChar_leveled hc]
      simp only [leveled_eq_iff 'Σ' (by decide), leveled_eq_iff 'İ' (by decide)]

/-- **Levelling a text without blanks does not change its lower case.** -/
theorem lower_map_leveled {text : Text} (h : text.Unbroken) :
    lower (text.map leveled) = lower text :=
  @lowerAfter_map_leveled [] text h

theorem capitals_map_leveled {text : Text} (h : text.Unbroken) :
    capitals (text.map leveled) = capitals text := by
  unfold capitals
  rw [List.flatMap_map]
  exact List.flatMap_congr fun c hc => capitalsOf_leveled (h c hc)

end Text

end Diagrams
