/-
Members without a type.

All the words in front of the type of a member are optional.  So where the type is missing, a match
can leave the last of them for the type: in `static x` the word `static` is taken for the type of
`x`.  The words that never name a type do not help, since of the modifiers they hold one only.

This happens to the declarations that are made of modifiers and a name only, and to no others
(`modifier_for_type_iff`).  That it happens to no others is told by the parts of a match: the type
that is noted is a modifier, and in front of it there are modifiers again.  That it happens to all
of them holds because the type that is noted is the same in whatever way they are matched.
-/
import Diagrams.Proofs.Code.Fields
import Diagrams.Proofs.TypeSpelling

namespace Diagrams.Code

open Pattern

/-! ### Declarations without a type -/

/-- The words that say how a member may be used, and not of which type it is. -/
def modifierWords : List Text :=
  ["public", "private", "protected", "static", "final", "abstract", "transient", "volatile",
    "synchronized", "native", "default"].map String.toList

/-- Those of them that are not among the words that never name a type. -/
def looseModifiers : List Text := modifierWords.filter fun word => !reservedWords.contains word

/-- A declaration without a type: there is a modifier in its place. -/
def IsTypeless (leads ends : Text → Prop) (declaration : Text) : Prop :=
  ∃ lead modifier gap name ending,
    leads lead ∧ modifier ∈ looseModifiers ∧ IsGap gap ∧ IsWord name ∧
    ends ending ∧ declaration = lead ++ (modifier ++ (gap ++ (name ++ ending)))

/-- What may stand in front of the type of a field. -/
def IsFieldLead (text : Text) : Prop := AreLeadingWords Grammar.fieldModifiers text

/-- What may stand behind the name of a field: a value, or nothing. -/
def IsValue (text : Text) : Prop :=
  (∃ blanks value, (∀ c ∈ blanks, isBlank c = true) ∧ value ≠ [] ∧ text = blanks ++ '=' :: value) ∨
    IsEnd text

/-- A field without a type. -/
def IsTypelessField : Text → Prop := IsTypeless IsFieldLead IsValue

/-- A method without a type. -/
def IsTypelessMethod : Text → Prop := IsTypeless IsMethodLead AreArguments

theorem isWord_of_mem {word : Text} (h : word ∈ modifierWords) : IsWord word := by
  have hletters : ∀ word ∈ modifierWords, word ≠ [] ∧ word.all Char.isAlpha = true := by decide
  obtain ⟨hne, hall⟩ := hletters word h
  exact ⟨hne, fun c hc => isWordChar_of_isAlphanum
    (isAlphanum_of_isAlpha (List.all_eq_true.mp hall c hc))⟩

/-! ### Which type is noted -/

namespace IsTypeShaped

variable {type word : Text}

/-- A type is spelled as a word only if it is that word. -/
theorem eq_of_normalizeType (h : IsTypeShaped type) (hword : ∀ c ∈ word, isWordChar c = true)
    (hspelled : normalizeType type = word) : type = word := by
  have hsolid : word.filter (!isBlank ·) = word :=
    List.filter_eq_self.mpr fun c hc => by simp [isBlank_of_isWordChar (hword c hc)]
  have hkept : type.filter (!isBlank ·) = word := by
    rw [← hsolid, ← hspelled]
    exact (isNormalForm_normalizeType.filter_eq type).symm
  have hlast : ∀ c ∈ type.getLast?, isWordChar c = true := by
    intro c hc
    refine hword c ?_
    rw [← hkept, List.mem_filter]
    exact ⟨List.mem_of_getLast? hc, by simp [h.isBlank_getLast? c hc]⟩
  rw [← hkept, eq_comm, List.filter_eq_self]
  exact fun c hc => by simp [h.isBlank_of_getLast? hlast c hc]

/-- A type is one of the modifiers that are not kept from naming a type just if it is let
pass and spelled as a modifier. -/
theorem mem_looseModifiers_iff (h : IsTypeShaped type) : type ∈ looseModifiers ↔
    reservedWords.contains type = false ∧ normalizeType type ∈ modifierWords := by
  have hspelled : ∀ word ∈ modifierWords, normalizeType word = word := by decide
  rw [looseModifiers, List.mem_filter, and_comm, Bool.not_eq_true']
  refine and_congr_right fun _ => ⟨fun hmem => by rwa [hspelled type hmem], fun hmem => ?_⟩
  rwa [← h.eq_of_normalizeType (isWord_of_mem hmem).word rfl] at hmem

end IsTypeShaped

namespace Frames

variable {leads : List (Pattern Slot)} {ending : Pattern Slot}
    {isLead isEnding : Text → Prop} {sign : Char}
  {declaration : Text} (h : Frames leads ending isLead isEnding sign)

include h

/-- A loose modifier is noted as the type of those declarations that have no other. -/
theorem exists_type_mem_iff : (∃ found, (member leads ending).matchStart? declaration = some found ∧
    found.text .type ∈ looseModifiers) ↔ IsTypeless isLead isEnding declaration := by
  constructor
  · rintro ⟨found, hfound, hmodifier⟩
    obtain ⟨lead, gap, behind, htext, hlead, hending, hcut⟩ := h.exists_cut hfound
    exact ⟨lead, _, gap, _, behind, hlead, hmodifier, hcut.gapped, hcut.named, hending, htext⟩
  · rintro ⟨lead, modifier, gap, name, behind, hlead, hmodifier, hgap, hname, hending, rfl⟩
    have hword : IsWord modifier := isWord_of_mem (List.mem_of_mem_filter hmodifier)
    obtain ⟨found, hfound⟩ := Option.isSome_iff_exists.mp
      (h.isSome_matchStart? hlead hword hgap hname hending)
    obtain ⟨lead', gap', behind', htext, -, -, hcut'⟩ := h.exists_cut hfound
    have htype : Grammar.type.Spans none modifier [] := spans_type_of_isWord hword
    have hcut : Cut sign lead modifier gap name behind := h.cut hlead htype hgap hname hending
    refine ⟨found, hfound, ?_⟩
    rwa [hcut.type_eq hcut' h.signApart.1 h.signApart.2 htext hword.word]

/-- The same for a type that is let pass and spelled as a modifier. -/
theorem exists_spelled_iff :
    (∃ found, (member leads ending).matchStart? declaration = some found ∧
      reservedWords.contains (found.text .type) = false ∧
        normalizeType (found.text .type) ∈ modifierWords) ↔
      IsTypeless isLead isEnding declaration := by
  rw [← h.exists_type_mem_iff]
  refine exists_congr fun found => and_congr_right fun hfound => ?_
  obtain ⟨_, _, _, -, -, -, hcut⟩ := h.exists_cut hfound
  exact hcut.typed.mem_looseModifiers_iff.symm

end Frames

/-! ### Fields and methods -/

theorem exists_spans_value {before : Option Char} {text : Text} :
    (∃ front rest, text = front ++ rest ∧ Written.valueEnd.Spans before front rest) ↔
      IsValue text := by
  unfold Written.valueEnd IsValue
  rw [exists_spans_opt_finish]
  refine or_congr_left ?_
  simp only [spans_all_cons, spans_all_nil, spans_lit, spans_atLeastOne, spans_spaces]
  constructor
  · rintro ⟨_, rest, rfl, ⟨blanks, _, rfl, hblanks, _, _, rfl, rfl, gap, _, rfl, -, value, _, rfl,
      ⟨hne, -⟩, rfl⟩, -⟩
    exact ⟨blanks, gap ++ (value ++ rest), hblanks, by simp [hne], by simp⟩
  · rintro ⟨blanks, value, hblanks, hne, rfl⟩
    refine ⟨blanks ++ '=' :: value, [], by simp,
      ⟨blanks, _, rfl, hblanks, ['='], value, rfl, rfl, [], value, rfl, by simp, value, [], by simp,
        ⟨hne, fun _ _ => trivial⟩, rfl⟩, .inl rfl⟩

/-- What may stand in front of the type of a field. -/
def fieldLeads : List (Pattern Slot) :=
  [Grammar.visibility, Grammar.optionalWord .firstModifier Grammar.fieldModifiers,
    Grammar.optionalWord .secondModifier Grammar.fieldModifiers]

theorem field_eq_member : Grammar.field = member fieldLeads Written.valueEnd := rfl

theorem frames_field : Frames fieldLeads Written.valueEnd IsFieldLead IsValue '=' where
  spansLead := spans_leadingWords
  spansEnding _ _ := exists_spans_value
  notesNothing := by decide
  omitsSign := by decide +kernel
  signApart := by decide
  leadEnd := leadEnd_of_areLeadingWords
  endingStart := by
    rintro _ (⟨blanks, value, hblanks, -, rfl⟩ | rfl | rfl)
    · exact ⟨blanks, '=' :: value, rfl, hblanks, by simp⟩
    · exact ⟨[], [], rfl, by simp, by simp⟩
    · exact ⟨['\n'], [], rfl, List.forall_mem_singleton.mpr (by decide), by simp⟩

theorem exists_field_iff {declaration : Text} :
    (∃ field ∈ readField? declaration, field.type ∈ modifierWords) ↔
      IsTypelessField declaration := by
  rw [IsTypelessField, ← frames_field.exists_spelled_iff, ← field_eq_member]
  constructor
  · rintro ⟨field, hread, hmodifier⟩
    obtain ⟨found, hfound, hfield⟩ := Option.bind_eq_some_iff.mp hread
    obtain ⟨hreserved, hfield⟩ := Option.ite_none_left_eq_some.mp hfield
    obtain rfl := Option.some.inj hfield
    exact ⟨found, hfound, Bool.eq_false_iff.mpr hreserved, hmodifier⟩
  · rintro ⟨found, hfound, hreserved, hmodifier⟩
    have hread : readField? declaration = some _ :=
      Option.bind_eq_some_iff.mpr ⟨found, hfound, if_neg (Bool.eq_false_iff.mp hreserved)⟩
    exact ⟨_, hread, hmodifier⟩

theorem exists_method_iff {declaration : Text} :
    (∃ className, ∃ method ∈ readMethod? declaration className, method.returnType ∈ modifierWords) ↔
      IsTypelessMethod declaration := by
  rw [IsTypelessMethod, ← frames_method.exists_spelled_iff, ← method_eq_member]
  constructor
  · rintro ⟨className, method, hread, hmodifier⟩
    obtain ⟨found, hfound, hmethod⟩ := Option.bind_eq_some_iff.mp hread
    obtain ⟨hpassed, hmethod⟩ := Option.ite_none_left_eq_some.mp hmethod
    obtain rfl := Option.some.inj hmethod
    rw [Bool.or_eq_true, not_or] at hpassed
    exact ⟨found, hfound, Bool.eq_false_iff.mpr hpassed.2, hmodifier⟩
  · rintro ⟨found, hfound, hreserved, hmodifier⟩
    obtain ⟨_, _, _, -, -, -, hcut⟩ := frames_method.exists_cut hfound
    -- No method has the empty name.
    have hpassed : ¬ (found.text .name = [] ||
        reservedWords.contains (found.text .type)) = true := by
      rw [hreserved, Bool.or_false, decide_eq_true_eq]
      exact hcut.named.nonempty
    have hread : readMethod? declaration [] = some _ :=
      Option.bind_eq_some_iff.mpr ⟨found, hfound, if_neg hpassed⟩
    exact ⟨[], _, hread, hmodifier⟩

/-- **A modifier is taken for a type where there is no type, and nowhere else.**  The type of a
field that is read, and that of a method in whatever class, is no modifier just if the declaration
is not made of modifiers and a name only. -/
theorem modifier_for_type_iff (declaration : Text) :
    ((∀ field ∈ readField? declaration, field.type ∉ modifierWords) ↔
      ¬ IsTypelessField declaration) ∧
      ((∀ className, ∀ method ∈ readMethod? declaration className,
        method.returnType ∉ modifierWords) ↔ ¬ IsTypelessMethod declaration) := by
  constructor
  · rw [← exists_field_iff]
    simp only [not_exists, not_and]
  · rw [← exists_method_iff]
    simp only [not_exists, not_and]

/-- A field and a method whose types are missing: both are read, with modifiers for types. -/
theorem modifier_for_type_static :
    (readField? "static x".toList).map Uml.Field.type = some "static".toList ∧
      (readMethod? "public abstract m()".toList "A".toList).map Uml.Method.returnType
        = some "abstract".toList := by decide +kernel

end Diagrams.Code
