/-
The words in front of a member.

A member may start with a word for its visibility and with two modifiers, each from a list of words.
A word of a list matches where it stands by itself, so what matches is told by the first word of the
text: a word of the list is taken with the space behind it, and any other word is left in its place.
-/
import Diagrams.Proofs.Code.TypePattern

namespace Diagrams.Code.Written

open Pattern

variable {place : Place Slot} {next : Continuation Slot} {found : Place Slot} {words : List String}

/-- The word characters at the front of a text. -/
def leadingWord (text : Text) : Text := text.takeWhile isWordChar

theorem leadingWord_append {word rest : Text} (h : ∀ c ∈ word, isWordChar c = true)
    (hstop : ∀ c ∈ rest.head?, isWordChar c = false) : leadingWord (word ++ rest) = word :=
  takeWhile_append_of_stop h hstop

/-- A type starts with a simple name. -/
theorem exists_leadingWord {type : MemberType} (h : type.Qualified) :
    ∃ first, IsSimpleName first ∧ ∀ after : Text, (∀ c ∈ after.head?, isWordChar c = false) →
      leadingWord (type.text ++ after) = first := by
  obtain ⟨first, rest, htext, hfirst, hrest⟩ := h.exists_simple
  refine ⟨first, hfirst, fun after hafter => ?_⟩
  rw [htext, List.append_assoc]
  refine leadingWord_append hfirst.isWordChar ?_
  intro c hc
  cases rest with
  | nil => exact hafter c hc
  | cons d rest => exact hrest c hc

/-- No type starts with a keyword of members. -/
theorem leadingWord_type {type : MemberType} (h : type.Qualified) {after : Text}
    (hafter : ∀ c ∈ after.head?, isWordChar c = false) {word : String}
    (hword : word ∈ memberKeywords) :
    leadingWord (type.text ++ after) ≠ word.toList := by
  obtain ⟨first, hfirst, hleading⟩ := exists_leadingWord h
  rw [hleading after hafter]
  exact hfirst.noKeyword word hword

/-- No type is a reserved word. -/
theorem not_reserved {type : MemberType} (h : type.Qualified) :
    reservedWords.contains type.text = false := by
  have hletters : ∀ word ∈ reservedWords, word.all Char.isAlpha = true := by decide
  by_contra hcontains
  have hmem : type.text ∈ reservedWords := by simpa using hcontains
  obtain ⟨first, hfirst, hleading⟩ := exists_leadingWord h
  have hword : ∀ c ∈ type.text, isWordChar c = true := fun c hc =>
    isWordChar_of_isAlphanum (isAlphanum_of_isAlpha (List.all_eq_true.mp (hletters _ hmem) c hc))
  have hsame : type.text = first := by
    have hnone : ∀ c ∈ ([] : Text).head?, isWordChar c = false := by simp
    rw [← hleading [] hnone, leadingWord_append hword hnone]
  exact hfirst.notReserved (hsame ▸ hmem)

/-! ### One word of a list -/

theorem mem_reached_wordOf {mid : Place Slot} :
    mid ∈ (Grammar.wordOf words).reached place ↔
      ∃ word ∈ words, ∃ rest, place.rest = word.toList ++ rest ∧
        mid = place.past word.toList rest := by
  unfold Grammar.wordOf
  induction words with
  | nil =>
      rw [List.map_nil, iff_false_intro mem_reached_oneOf_nil, false_iff]
      rintro ⟨word, hword, -⟩
      exact absurd hword List.not_mem_nil
  | cons word words ih =>
      rw [List.map_cons, mem_reached_oneOf_cons, ih, mem_reached_exactly]
      simp

/-- No word holds a blank. -/
def ArePlain (words : List String) : Prop :=
  ∀ word ∈ words, ∀ c ∈ word.toList, isBlank c = false

theorem arePlain_of_isLetters (h : ∀ word ∈ words, isLetters word = true) : ArePlain words :=
  fun word hword c hc => isBlank_of_isWordChar (isWordChar_of_isLetters (h word hword) c hc)

section

variable {word : String} {rest : Text} (hplain : ArePlain words) (hword : word ∈ words)
  (hrest : place.rest = word.toList ++ ' ' :: rest) (hstop : ∀ c ∈ rest.head?, isBlank c = false)

include hplain hword hrest hstop

/-- Of the words of a list only one stands in front of a blank. -/
theorem word_gap_unique {other : String} {blanks rest' : Text} (hother : other ∈ words)
    (hrest' : place.rest = other.toList ++ (blanks ++ rest')) (hne : blanks ≠ [])
    (hblank : ∀ c ∈ blanks, isBlank c = true) :
    other.toList = word.toList ∧ blanks = [' '] ∧ rest' = rest := by
  obtain ⟨b, blanks, rfl⟩ := List.exists_cons_of_ne_nil hne
  obtain ⟨hb, hblanks⟩ := List.forall_mem_cons.mp hblank
  have hsolid : ∀ {w : String}, w ∈ words → ∀ c ∈ w.toList, (!isBlank c) = true :=
    fun hw c hc => by rw [hplain _ hw c hc]; rfl
  have hspace : ∀ c ∈ (' ' :: rest).head?, (!isBlank c) = false := by
    refine forall_head?_cons ?_ rest
    decide
  have hbehind : ∀ c ∈ (b :: (blanks ++ rest')).head?, (!isBlank c) = false := by
    refine forall_head?_cons ?_ _
    rw [hb]
    rfl
  obtain ⟨hsame, hsame'⟩ := append_inj_of_stop (hsolid hother) (hsolid hword) hbehind hspace
    (hrest'.symm.trans hrest)
  obtain ⟨rfl, htail⟩ := List.cons.inj hsame'
  cases blanks with
  | nil => exact ⟨hsame, rfl, htail⟩
  | cons d blanks =>
      have hd := hstop d (by rw [← htail]; rfl)
      rw [hblanks d List.mem_cons_self] at hd
      exact Bool.noConfusion hd

/-- A word of a list is taken with the space behind it. -/
theorem run_word_gap :
    (all [Grammar.wordOf words, gap]).run place next
      = next (place.past (word.toList ++ [' ']) rest) := by
  refine run_eq_next ?_ fun mid hmid => ?_
  · refine mem_reached_all_cons.mpr ⟨place.past word.toList (' ' :: rest), ?_, ?_⟩
    · exact mem_reached_wordOf.mpr ⟨word, hword, _, hrest, rfl⟩
    · refine mem_reached_atLeastOne.mpr ⟨[' '], rest, rfl, by simp, forall_blank_space, ?_⟩
      rw [Place.past_past]
  · obtain ⟨_, hmid', hgap⟩ := mem_reached_all_cons.mp hmid
    obtain ⟨other, hother, after, hafter, rfl⟩ := mem_reached_wordOf.mp hmid'
    obtain ⟨blanks, rest', rfl, hne, hblank, rfl⟩ := mem_reached_atLeastOne.mp hgap
    obtain ⟨hsame, rfl, rfl⟩ :=
      word_gap_unique hplain hword hrest hstop hother hafter hne hblank
    rw [hsame, Place.past_past]

/-- The same for a word that is noted. -/
theorem run_noted_word_gap (slot : Slot) :
    (all [noted slot (Grammar.wordOf words), gap]).run place next
      = next ((place.past (word.toList ++ [' ']) rest).marked slot word.toList (' ' :: rest)) := by
  refine run_eq_next ?_ fun mid hmid => ?_
  · refine mem_reached_all_cons.mpr
      ⟨(place.past word.toList (' ' :: rest)).marked slot word.toList (' ' :: rest), ?_, ?_⟩
    · refine mem_reached_noted.mpr ⟨place.past word.toList (' ' :: rest), ?_, ?_⟩
      · exact mem_reached_wordOf.mpr ⟨word, hword, _, hrest, rfl⟩
      · rw [Place.note_past _ hrest]
    · refine mem_reached_atLeastOne.mpr ⟨[' '], rest, rfl, by simp, forall_blank_space, ?_⟩
      rw [Place.past_marked, Place.past_past]
  · obtain ⟨_, hnoted, hgap⟩ := mem_reached_all_cons.mp hmid
    obtain ⟨_, hmid', rfl⟩ := mem_reached_noted.mp hnoted
    obtain ⟨other, hother, after, hafter, rfl⟩ := mem_reached_wordOf.mp hmid'
    rw [Place.note_past _ hafter] at hgap
    obtain ⟨blanks, rest', rfl, hne, hblank, rfl⟩ := mem_reached_atLeastOne.mp hgap
    obtain ⟨hsame, rfl, rfl⟩ :=
      word_gap_unique hplain hword hrest hstop hother hafter hne hblank
    rw [hsame, Place.past_marked, Place.past_past]
    rfl

end

/-- A text that starts with another word does not match. -/
theorem not_mem_word_gap {slot : Slot}
    (hwords : ∀ word ∈ words, isLetters word = true)
    (hfree : ∀ word ∈ words, leadingWord place.rest ≠ word.toList) (mid : Place Slot) :
    ¬ mid ∈ (all [noted slot (Grammar.wordOf words), gap]).reached place := by
  intro hmid
  obtain ⟨_, hnoted, hgap⟩ := mem_reached_all_cons.mp hmid
  obtain ⟨mid', hmid', rfl⟩ := mem_reached_noted.mp hnoted
  obtain ⟨word, hword, rest, hrest, rfl⟩ := mem_reached_wordOf.mp hmid'
  obtain ⟨c, hc, hblank⟩ := Opens.atLeastOne _ _ hgap
  refine hfree word hword ?_
  rw [hrest]
  refine leadingWord_append (isWordChar_of_isLetters (hwords word hword)) fun d hd => ?_
  obtain rfl : c = d := Option.mem_unique hc hd
  exact isWordChar_of_isBlank hblank

/-! ### A word that may be missing -/

/-- The place behind a word that may be missing. -/
def leading (place : Place Slot) (slot : Slot) (word? : Option String) (rest : Text) : Place Slot :=
  match word? with
  | some word => (place.past (word.toList ++ [' ']) rest).marked slot word.toList (' ' :: rest)
  | none => place

section

variable {slot other : Slot} {word? : Option String} {rest : Text} {first : Place Slot}

theorem rest_leading (h : place.rest = spaced word?.toList ++ rest) :
    (leading place slot word? rest).rest = rest := by
  cases word? with
  | none => exact h
  | some word => rfl

theorem text?_leading_self (h : (Match.mk first place).text? slot = none) :
    (Match.mk first (leading place slot word? rest)).text? slot = word?.map String.toList := by
  cases word? with
  | none => exact h
  | some word => exact Match.text?_marked_self ..

theorem text?_leading_of_ne (h : slot ≠ other) :
    (Match.mk first (leading place slot word? rest)).text? other
      = (Match.mk first place).text? other := by
  cases word? with
  | none => rfl
  | some word => exact Match.text?_marked_of_ne _ _ h _ _

/-- A word of the list is taken; where it is missing, the text starts with no word of the list. -/
theorem run_optionalWord (hwords : ∀ word ∈ words, isLetters word = true)
    (hword : ∀ word ∈ word?, word ∈ words) (hrest : place.rest = spaced word?.toList ++ rest)
    (hstop : ∀ c ∈ rest.head?, isBlank c = false)
    (hfree : word? = none → ∀ word ∈ words, leadingWord rest ≠ word.toList)
    (hnext : next (leading place slot word? rest) = some found) :
    (Grammar.optionalWord slot words).run place next = some found := by
  cases word? with
  | none =>
      obtain rfl : place.rest = rest := hrest
      rw [Grammar.optionalWord, run_opt_of_none (run_eq_none (not_mem_word_gap hwords (hfree rfl)))]
      exact hnext
  | some word =>
      have htext : place.rest = word.toList ++ ' ' :: rest := by simpa [spaced] using hrest
      refine run_opt_of_some ?_
      rw [run_noted_word_gap (arePlain_of_isLetters hwords) (hword word rfl) htext hstop]
      exact hnext

end

/-! ### The words of a member -/

/-- The words for a visibility that a pattern looks for. -/
def knownVisibilities : List String := ["public", "private", "protected"]

theorem isLetters_visibilities : ∀ word ∈ knownVisibilities, isLetters word = true := by decide

theorem visibilityWords_eq (visibility : Uml.Visibility) :
    visibilityWords visibility = (visibilityWords visibility).head?.toList := by
  cases visibility <;> rfl

theorem mem_visibilityWords {visibility : Uml.Visibility} {word : String}
    (h : word ∈ visibilityWords visibility) : word ∈ knownVisibilities := by
  cases visibility with
  | publicAccess => simp_all [visibilityWords, knownVisibilities]
  | privateAccess => simp_all [visibilityWords, knownVisibilities]
  | protectedAccess => simp_all [visibilityWords, knownVisibilities]
  | packageAccess => exact absurd h List.not_mem_nil
  | unknown name => exact absurd h List.not_mem_nil

theorem leadingWord_spaced {word : String} (h : isLetters word = true) (others : List String)
    (rest : Text) : leadingWord (spaced (word :: others) ++ rest) = word.toList := by
  rw [spaced, List.append_assoc]
  exact leadingWord_append (isWordChar_of_isLetters h) (forall_head?_cons (by decide) _)

theorem head?_spaced {words : List String} {rest : Text}
    (hwords : ∀ word ∈ words, isLetters word = true) (hrest : ∀ c ∈ rest.head?, isBlank c = false) :
    ∀ c ∈ (spaced words ++ rest).head?, isBlank c = false := by
  cases words with
  | nil => exact hrest
  | cons word words =>
      have hword := hwords word List.mem_cons_self
      rw [spaced, List.append_assoc]
      exact forall_head?_append (ne_nil_of_isLetters hword)
        (fun c hc => isBlank_of_isWordChar (isWordChar_of_isLetters hword c hc)) _

/-- At most two words are a first one and a second one. -/
theorem modifiers_eq {modifiers : List String} (h : modifiers.length ≤ 2) :
    modifiers = modifiers[0]?.toList ++ modifiers[1]?.toList := by
  match modifiers, h with
  | [], _ => rfl
  | [_], _ => rfl
  | [_, _], _ => rfl

section

variable {modifiers allowed : List String} {rest : Text}

/-- The words in front of a member are taken one by one, and noted in their places. -/
theorem exists_leading (visibility : Uml.Visibility) (hlength : modifiers.length ≤ 2)
    (hmodifiers : ∀ word ∈ modifiers, word ∈ allowed)
    (hallowed : ∀ word ∈ allowed, isLetters word = true)
    (hapart : ∀ word ∈ allowed, word ∉ knownVisibilities)
    (hstop : ∀ c ∈ rest.head?, isBlank c = false)
    (hfree : ∀ word ∈ allowed ++ knownVisibilities, leadingWord rest ≠ word.toList) :
    ∃ last : Place Slot, last.rest = rest ∧
      (∀ first, (Match.mk first last).text? .visibility
          = (visibilityWords visibility).head?.map String.toList ∧
        (Match.mk first last).text? .firstModifier = modifiers[0]?.map String.toList ∧
        (Match.mk first last).text? .secondModifier = modifiers[1]?.map String.toList) ∧
      ∀ ps next found, (all ps).run last next = some found →
        (all (Grammar.visibility :: Grammar.optionalWord .firstModifier allowed ::
          Grammar.optionalWord .secondModifier allowed :: ps)).run
            (.start (spaced (visibilityWords visibility ++ modifiers) ++ rest)) next
              = some found := by
  have hfirst : ∀ word ∈ modifiers[0]?, word ∈ allowed :=
    fun word hword => hmodifiers word (List.mem_of_getElem? hword)
  have hsecond : ∀ word ∈ modifiers[1]?, word ∈ allowed :=
    fun word hword => hmodifiers word (List.mem_of_getElem? hword)
  have hstop₂ : ∀ c ∈ (spaced modifiers[1]?.toList ++ rest).head?, isBlank c = false :=
    head?_spaced (fun word hword => hallowed word (hsecond word (Option.mem_toList.mp hword))) hstop
  have hstop₁ : ∀ c ∈ (spaced modifiers[0]?.toList ++ (spaced modifiers[1]?.toList ++ rest)).head?,
      isBlank c = false :=
    head?_spaced (fun word hword => hallowed word (hfirst word (Option.mem_toList.mp hword))) hstop₂
  have hnone : modifiers[0]? = none → spaced modifiers[1]?.toList ++ rest = rest := by
    intro hempty
    have hlength := List.getElem?_eq_none_iff.mp hempty
    rw [List.getElem?_eq_none (by omega)]
    rfl
  have hfree₁ : ∀ word ∈ knownVisibilities,
      leadingWord (spaced modifiers[0]?.toList ++ (spaced modifiers[1]?.toList ++ rest))
        ≠ word.toList := by
    intro word hword
    cases hmodifier : modifiers[0]? with
    | none =>
        rw [hnone hmodifier]
        exact hfree word (List.mem_append_right _ hword)
    | some modifier =>
        have hmem := hfirst modifier hmodifier
        show leadingWord (spaced [modifier] ++ _) ≠ word.toList
        rw [leadingWord_spaced (hallowed modifier hmem)]
        intro heq
        exact hapart modifier hmem (String.toList_inj.mp heq ▸ hword)
  have hfree₂ : ∀ word ∈ allowed, leadingWord rest ≠ word.toList :=
    fun word hword => hfree word (List.mem_append_left _ hword)
  have htext : spaced (visibilityWords visibility ++ modifiers) ++ rest
      = spaced (visibilityWords visibility).head?.toList ++ (spaced modifiers[0]?.toList ++
          (spaced modifiers[1]?.toList ++ rest)) := by
    rw [← visibilityWords_eq, ← List.append_assoc (spaced modifiers[0]?.toList), ← spaced_append,
      ← modifiers_eq hlength, spaced_append, List.append_assoc]
  rw [htext]
  let start : Place Slot := .start (spaced (visibilityWords visibility).head?.toList ++
    (spaced modifiers[0]?.toList ++ (spaced modifiers[1]?.toList ++ rest)))
  let place₁ := leading start .visibility (visibilityWords visibility).head?
    (spaced modifiers[0]?.toList ++ (spaced modifiers[1]?.toList ++ rest))
  let place₂ := leading place₁ .firstModifier modifiers[0]? (spaced modifiers[1]?.toList ++ rest)
  have hrest₁ : place₁.rest = spaced modifiers[0]?.toList ++
      (spaced modifiers[1]?.toList ++ rest) :=
    rest_leading rfl
  have hrest₂ : place₂.rest = spaced modifiers[1]?.toList ++ rest := rest_leading hrest₁
  refine ⟨leading place₂ .secondModifier modifiers[1]? rest, rest_leading hrest₂,
    fun first => ⟨?_, ?_, ?_⟩, fun ps next found hnext => ?_⟩
  · rw [text?_leading_of_ne (by decide), text?_leading_of_ne (by decide)]
    exact text?_leading_self rfl
  · rw [text?_leading_of_ne (by decide)]
    refine text?_leading_self ?_
    exact text?_leading_of_ne (by decide)
  · refine text?_leading_self ?_
    rw [text?_leading_of_ne (by decide)]
    exact text?_leading_of_ne (by decide)
  · rw [run_all_cons]
    refine run_optionalWord isLetters_visibilities
      (fun word hword => mem_visibilityWords (List.mem_of_head? hword)) rfl hstop₁
      (fun _ => hfree₁) ?_
    rw [run_all_cons]
    refine run_optionalWord hallowed hfirst hrest₁ hstop₂
      (fun hempty => by rw [hnone hempty]; exact hfree₂) ?_
    rw [run_all_cons]
    exact run_optionalWord hallowed hsecond hrest₂ hstop (fun _ => hfree₂) hnext

end

end Diagrams.Code.Written
