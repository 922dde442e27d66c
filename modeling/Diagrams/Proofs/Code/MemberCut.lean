/-
Where a match cuts the declaration of a member.

The patterns of fields and of methods have a frame in common: words in front, a type, a gap, a name,
and an ending (`member`).  What a match notes for the type and for the name are parts of the
declaration, with such words in front of them and such an ending behind (`Frames.exists_cut`).

A declaration can be matched in many ways, and the order in which they are tried tells which
of them is found.  But the place of the name is the same in all of them: it is told by the
sign that the ending starts with, as this sign stands nowhere before it (`Cut.front_eq`).  So
if what stands in front of the name is a word in one of the ways, then this word is the type
that is noted (`Cut.type_eq`).
-/
import Diagrams.Proofs.Code.LeadingWords
import Diagrams.Proofs.Pattern.Spans

namespace Diagrams.Code

open Pattern

/-! ### The parts of a declaration -/

/-- A text of blanks, at least one. -/
structure IsGap (text : Text) : Prop where
  nonempty : text ≠ []
  blank : ∀ c ∈ text, isBlank c = true

/-- A text of name characters, at least one. -/
structure IsWord (text : Text) : Prop where
  nonempty : text ≠ []
  word : ∀ c ∈ text, isWordChar c = true

/-- A word of the list with a gap behind it, or nothing. -/
def IsOptionalWord (words : List String) (text : Text) : Prop :=
  (∃ word ∈ words, ∃ gap, IsGap gap ∧ text = word.toList ++ gap) ∨ text = []

/-- The words in front of a type: one for the visibility and two modifiers, each of which may be
missing. -/
def AreLeadingWords (modifiers : List String) (text : Text) : Prop :=
  ∃ visibility first second, text = visibility ++ (first ++ second) ∧
    IsOptionalWord Written.knownVisibilities visibility ∧
    IsOptionalWord modifiers first ∧ IsOptionalWord modifiers second

/-- Type parameters with a gap behind them, or nothing. -/
def AreTypeParameters (text : Text) : Prop :=
  (∃ inner gap, (∀ c ∈ inner, c ≠ '(' ∧ c ≠ ')') ∧ IsGap gap ∧
    text = '<' :: (inner ++ '>' :: gap)) ∨ text = []

/-- Nothing, or one line feed. -/
def IsEnd (text : Text) : Prop := text = [] ∨ text = ['\n']

/-- What may stand in front of the type of a method. -/
def IsMethodLead (text : Text) : Prop :=
  ∃ words parameters, text = words ++ parameters ∧ AreLeadingWords Grammar.methodModifiers words ∧
    AreTypeParameters parameters

/-- What may stand behind the parameters of a method: exceptions, or nothing. -/
def AreExceptions (text : Text) : Prop :=
  (∃ blanks gap list, (∀ c ∈ blanks, isBlank c = true) ∧ IsGap gap ∧ list ≠ [] ∧
    (∀ c ∈ list, (Grammar.isDotted c || c == ',' || isBlank c) = true) ∧
    text = blanks ++ ("throws".toList ++ (gap ++ list))) ∨ IsEnd text

/-- What must stand behind the name of a method. -/
def AreArguments (text : Text) : Prop :=
  ∃ blanks parameters exceptions, (∀ c ∈ blanks, isBlank c = true) ∧ ')' ∉ parameters ∧
    AreExceptions exceptions ∧ text = blanks ++ '(' :: (parameters ++ ')' :: exceptions)

/-! ### What the parts of a pattern cover -/

section

variable {before : Option Char} {front rest : Text} {slot : Slot} {words : List String}

theorem spans_spaces : (spaces : Pattern Slot).Spans before front rest ↔
    ∀ c ∈ front, isBlank c = true :=
  Iff.rfl

theorem spans_gap : (gap : Pattern Slot).Spans before front rest ↔ IsGap front :=
  spans_atLeastOne.trans ⟨fun h => ⟨h.1, h.2⟩, fun h => ⟨h.nonempty, h.blank⟩⟩

theorem spans_name : (name : Pattern Slot).Spans before front rest ↔ IsWord front :=
  spans_atLeastOne.trans ⟨fun h => ⟨h.1, h.2⟩, fun h => ⟨h.nonempty, h.word⟩⟩

theorem spans_optionalWord : (Grammar.optionalWord slot words).Spans before front rest ↔
    IsOptionalWord words front := by
  have hword : ∀ {before : Option Char} {near far : Text},
      (noted slot (Grammar.wordOf words)).Spans before near far
      ↔ ∃ word ∈ words, near = word.toList := by
    intro before near far
    show (oneOf (words.map exactly)).Spans before near far ↔ _
    simp [spans_oneOf, spans_exactly]
  unfold Grammar.optionalWord IsOptionalWord
  rw [spans_opt, spans_all_cons]
  refine or_congr_left ?_
  constructor
  · rintro ⟨near, far, rfl, hnear, hfar⟩
    obtain ⟨word, hmem, rfl⟩ := hword.mp hnear
    exact ⟨word, hmem, far, spans_gap.mp hfar, rfl⟩
  · rintro ⟨word, hmem, far, hfar, rfl⟩
    exact ⟨word.toList, far, rfl, hword.mpr ⟨word, hmem, rfl⟩, spans_gap.mpr hfar⟩

theorem spans_leadingWords : (all [Grammar.visibility, Grammar.optionalWord .firstModifier words,
    Grammar.optionalWord .secondModifier words]).Spans before front rest ↔
      AreLeadingWords words front := by
  simp only [Grammar.visibility, spans_all_cons, spans_all_nil, spans_optionalWord]
  constructor
  · rintro ⟨visibility, _, rfl, hvisibility, first, _, rfl, hfirst, second, _, rfl, hsecond, rfl⟩
    exact ⟨visibility, first, second, by simp, hvisibility, hfirst, hsecond⟩
  · rintro ⟨visibility, first, second, rfl, hvisibility, hfirst, hsecond⟩
    exact ⟨visibility, _, rfl, hvisibility, first, _, rfl, hfirst, second, [],
      by simp, hsecond, rfl⟩

end

/-! ### The shape of a type -/

/-- The signs that end what may follow the name of a type. -/
def isClosingSign (c : Char) : Bool := c == '>' || c == ']' || c == '.'

/-- A type starts with a name, and what follows the name ends with a sign of its own. -/
def IsTypeShaped (text : Text) : Prop :=
  ∃ name rest, text = name ++ rest ∧ name ≠ [] ∧ (∀ c ∈ name, Grammar.isTypeName c = true) ∧
    ∀ c ∈ rest.getLast?, isClosingSign c = true

theorem forall_getLast?_repeated {P : Char → Prop} {covers : Option Char → Text → Text → Prop}
    (hcovers : ∀ before near rest, covers before near rest → ∀ c ∈ near.getLast?, P c)
    {before : Option Char} {front rest : Text} (h : Repeated covers before front rest) :
    ∀ c ∈ front.getLast?, P c := by
  induction h with
  | done => simp
  | step _ first _ ih => exact forall_getLast?_append (hcovers _ _ _ first) ih

theorem isTypeShaped_of_spans {before : Option Char} {front rest : Text}
    (h : Grammar.type.Spans before front rest) : IsTypeShaped front := by
  unfold Grammar.type at h
  simp only [spans_all_cons, spans_all_nil, spans_opt, spans_lit, spans_exactly,
    spans_atLeastOne] at h
  obtain ⟨name, _, rfl, ⟨hne, hname⟩, arguments, _, rfl, harguments, squares, _, rfl,
      hsquares, dots, _, rfl,
    hdots, rfl⟩ := h
  refine ⟨name, _, rfl, hne, hname, ?_⟩
  refine forall_getLast?_append ?_ (forall_getLast?_append ?_ (forall_getLast?_append ?_ (by simp)))
  · rcases harguments with ⟨blanks, _, rfl, -, opening, _, rfl, -, inner, _, rfl, -, closing, _,
      rfl, rfl, rfl⟩ | rfl
    · simp [isClosingSign]
    · simp
  · refine forall_getLast?_repeated (fun before near rest hnear => ?_) hsquares
    simp only [spans_all_cons, spans_all_nil, spans_lit] at hnear
    obtain ⟨blanks, _, rfl, -, opening, _, rfl, -, blanks', _, rfl, -, closing, _, rfl,
        rfl, rfl⟩ := hnear
    simp [isClosingSign]
  · rcases hdots with ⟨blanks, _, rfl, -, dots, _, rfl, rfl, rfl⟩ | rfl
    · simp [isClosingSign]
    · simp

namespace IsTypeShaped

variable {type word : Text}

theorem isBlank_of_isTypeName {c : Char} (h : Grammar.isTypeName c = true) : isBlank c = false := by
  simp only [Grammar.isTypeName, Grammar.isDotted, Bool.or_eq_true, beq_iff_eq] at h
  rcases h with (hword | rfl) | rfl
  · exact isBlank_of_isWordChar hword
  · decide
  · decide

theorem ne_nil (h : IsTypeShaped type) : type ≠ [] := by
  obtain ⟨name, rest, rfl, hne, -⟩ := h
  simp [hne]

/-- A type does not end with a blank. -/
theorem isBlank_getLast? (h : IsTypeShaped type) : ∀ c ∈ type.getLast?, isBlank c = false := by
  obtain ⟨name, rest, rfl, -, hname, hrest⟩ := h
  refine forall_getLast?_append (fun c hc => ?_) fun c hc => ?_
  · exact isBlank_of_isTypeName (hname c (List.mem_of_getLast? hc))
  · have hsign := hrest c hc
    simp only [isClosingSign, Bool.or_eq_true, beq_iff_eq] at hsign
    rcases hsign with (rfl | rfl) | rfl <;> decide

/-- A type that ends with a letter is no more than a name, so there are no blanks in it. -/
theorem isBlank_of_getLast? (h : IsTypeShaped type)
    (hlast : ∀ c ∈ type.getLast?, isWordChar c = true) :
    ∀ c ∈ type, isBlank c = false := by
  obtain ⟨name, rest, rfl, -, hname, hrest⟩ := h
  have hnone : rest = [] := by
    by_contra hne
    rw [List.getLast?_append_of_ne_nil _ hne, List.getLast?_eq_some_getLast hne] at hlast
    have hsign := hrest _ (List.getLast?_eq_some_getLast hne)
    have hword := hlast _ rfl
    simp only [isClosingSign, Bool.or_eq_true, beq_iff_eq] at hsign
    rcases hsign with (heq | heq) | heq <;> rw [heq] at hword <;> exact absurd hword (by decide)
  rw [hnone, List.append_nil]
  exact fun c hc => isBlank_of_isTypeName (hname c hc)

end IsTypeShaped

/-! ### Where a declaration is cut -/

/-- A declaration cut at its type and its name; what follows the name has blanks in front of a sign
that stands nowhere before it. -/
structure Cut (sign : Char) (lead type gap name ending : Text) : Prop where
  leadEnd : ∀ c ∈ lead.getLast?, isBlank c = true
  typed : IsTypeShaped type
  unsigned : sign ∉ lead ++ type
  gapped : IsGap gap
  named : IsWord name
  behind : ∃ blanks more, ending = blanks ++ more ∧ (∀ c ∈ blanks, isBlank c = true) ∧
    ∀ c ∈ more.head?, c = sign

namespace Cut

variable {sign : Char} {lead lead' type type' gap gap' name name' ending ending' : Text}

/-- What the declaration holds in front of the sign, and of the blanks in front of that. -/
theorem exists_sign (h : Cut sign lead type gap name ending) (hblank : isBlank sign = false)
    (hword : isWordChar sign = false) : ∃ blanks more,
      lead ++ (type ++ (gap ++ (name ++ ending)))
        = ((((lead ++ type) ++ gap) ++ name) ++ blanks) ++ more ∧
      (∀ c ∈ (((lead ++ type) ++ gap) ++ name) ++ blanks, (c != sign) = true) ∧
      (∀ c ∈ more.head?, (c != sign) = false) ∧ ∀ c ∈ blanks, isBlank c = true := by
  obtain ⟨blanks, more, rfl, hblanks, hmore⟩ := h.behind
  refine ⟨blanks, more, by simp, fun c hc => ?_, fun c hc => by simp [hmore c hc], hblanks⟩
  rw [bne_iff_ne]
  rintro rfl
  have hgap : c ∉ gap := not_mem_of_forall h.gapped.blank hblank
  have hname : c ∉ name := not_mem_of_forall h.named.word hword
  have hend : c ∉ blanks := not_mem_of_forall hblanks hblank
  have hsign := h.unsigned
  simp_all

/-- However a declaration is cut, the name and what stands in front of the gap are the same. -/
theorem front_eq (h : Cut sign lead type gap name ending)
    (h' : Cut sign lead' type' gap' name' ending') (hblank : isBlank sign = false)
    (hword : isWordChar sign = false)
    (heq : lead ++ (type ++ (gap ++ (name ++ ending)))
      = lead' ++ (type' ++ (gap' ++ (name' ++ ending')))) :
    lead ++ type = lead' ++ type' := by
  obtain ⟨blanks, more, htext, hfree, hmore, hblanks⟩ := h.exists_sign hblank hword
  obtain ⟨blanks', more', htext', hfree', hmore', hblanks'⟩ := h'.exists_sign hblank hword
  -- From the sign back: the blanks, the name, the gap.
  obtain ⟨hsigned, -⟩ := append_inj_of_stop hfree hfree' hmore hmore' (by rw [← htext, heq, htext'])
  have hlast : ∀ {front name : Text}, IsWord name → ∀ c ∈ (front ++ name).getLast?,
      isBlank c = false :=
    fun hname => forall_getLast?_append_of_forall hname.nonempty
      (fun c hc => isBlank_of_isWordChar (hname.word c hc)) _
  have hspaced : ∀ {front gap : Text}, IsGap gap → ∀ c ∈ (front ++ gap).getLast?,
      isWordChar c = false :=
    fun hgap => forall_getLast?_append_of_forall hgap.nonempty
      (fun c hc => isWordChar_of_isBlank (hgap.blank c hc)) _
  have htyped : ∀ {lead type : Text}, IsTypeShaped type → ∀ c ∈ (lead ++ type).getLast?,
      isBlank c = false := by
    intro lead type htype c hc
    rw [List.getLast?_append_of_ne_nil _ htype.ne_nil] at hc
    exact htype.isBlank_getLast? c hc
  obtain ⟨hnamed, -⟩ := append_inj_of_stop_behind hblanks hblanks' (hlast h.named)
    (hlast h'.named) hsigned
  obtain ⟨hgapped, -⟩ := append_inj_of_stop_behind h.named.word h'.named.word (hspaced h.gapped)
    (hspaced h'.gapped) hnamed
  exact (append_inj_of_stop_behind h.gapped.blank h'.gapped.blank (htyped h.typed)
    (htyped h'.typed) hgapped).1

/-- If the type is a word in one way to cut a declaration, it is this word in every way. -/
theorem type_eq (h : Cut sign lead type gap name ending)
    (h' : Cut sign lead' type' gap' name' ending') (hblank : isBlank sign = false)
    (hword : isWordChar sign = false)
    (heq : lead ++ (type ++ (gap ++ (name ++ ending)))
      = lead' ++ (type' ++ (gap' ++ (name' ++ ending'))))
    (htype : ∀ c ∈ type, isWordChar c = true) : type' = type := by
  have hfront := h.front_eq h' hblank hword heq
  have hlast : ∀ c ∈ type'.getLast?, isWordChar c = true := by
    intro c hc
    have hsame := congrArg List.getLast? hfront
    rw [List.getLast?_append_of_ne_nil _ h.typed.ne_nil,
      List.getLast?_append_of_ne_nil _ h'.typed.ne_nil] at hsame
    exact htype c (List.mem_of_getLast? (hsame.trans hc))
  have hstop : ∀ {lead : Text}, (∀ c ∈ lead.getLast?, isBlank c = true) →
      ∀ c ∈ lead.getLast?, (!isBlank c) = false := fun hlead c hc => by simp [hlead c hc]
  refine (append_inj_of_stop_behind ?_ ?_ (hstop h.leadEnd) (hstop h'.leadEnd) hfront).2.symm
  · exact fun c hc => by simp [isBlank_of_isWordChar (htype c hc)]
  · exact fun c hc => by simp [h'.typed.isBlank_of_getLast? hlast c hc]

end Cut

/-! ### How a match cuts a declaration -/

/-- The pattern of a member, with what may stand in front of its type and what may follow its
name. -/
def member (leads : List (Pattern Slot)) (ending : Pattern Slot) : Pattern Slot :=
  all (leads ++ [noted .type Grammar.type, gap, noted .name name, ending])

/-- What the pattern of a member takes for the words in front and for the ending, and the sign
that the ending may start with. -/
structure Frames (leads : List (Pattern Slot)) (ending : Pattern Slot)
    (isLead isEnding : Text → Prop) (sign : Char) : Prop where
  spansLead : ∀ {before : Option Char} {front rest : Text},
    (all leads).Spans before front rest ↔ isLead front
  spansEnding : ∀ (before : Option Char) (text : Text),
    (∃ front rest, text = front ++ rest ∧ ending.Spans before front rest) ↔ isEnding text
  notesNothing : ending.mayNote .type = false ∧ ending.mayNote .name = false
  omitsSign : (all leads).omits sign = true ∧ Grammar.type.omits sign = true
  signApart : isBlank sign = false ∧ isWordChar sign = false
  leadEnd : ∀ {lead : Text}, isLead lead → ∀ c ∈ lead.getLast?, isBlank c = true
  endingStart : ∀ {text : Text}, isEnding text →
    ∃ blanks more, text = blanks ++ more ∧ (∀ c ∈ blanks, isBlank c = true) ∧
      ∀ c ∈ more.head?, c = sign

theorem spans_type_of_isWord {before : Option Char} {word rest : Text} (h : IsWord word) :
    Grammar.type.Spans before word rest := by
  have hname : ∀ c ∈ word, Grammar.isTypeName c = true := fun c hc => by
    simp [Grammar.isTypeName, Grammar.isDotted, h.word c hc]
  unfold Grammar.type
  simp only [spans_all_cons, spans_all_nil, spans_opt, spans_atLeastOne]
  exact ⟨word, [], by simp, ⟨h.nonempty, hname⟩, [], [], rfl, .inr rfl, [], [], rfl, .done, [], [],
    rfl, .inr rfl, rfl⟩

namespace Frames

variable {leads : List (Pattern Slot)} {ending : Pattern Slot}
    {isLead isEnding : Text → Prop} {sign : Char}
  {declaration : Text} {found : Match Slot} (h : Frames leads ending isLead isEnding sign)

include h

/-- The parts of a declaration are a way to cut it. -/
theorem cut {lead type gap name behind rest : Text} {before : Option Char} (hlead : isLead lead)
    (htype : Grammar.type.Spans before type rest) (hgap : IsGap gap) (hname : IsWord name)
    (hending : isEnding behind) : Cut sign lead type gap name behind := by
  have hspansLead : (all leads).Spans none lead [] := h.spansLead.mpr hlead
  refine ⟨h.leadEnd hlead, isTypeShaped_of_spans htype, ?_, hgap, hname, h.endingStart hending⟩
  rw [List.mem_append, not_or]
  exact ⟨hspansLead.not_mem h.omitsSign.1, htype.not_mem h.omitsSign.2⟩

/-- What a match notes for type and name are parts of the declaration. -/
theorem exists_cut (hfound : (member leads ending).matchStart? declaration = some found) :
    ∃ lead gap behind,
      declaration = lead ++ (found.text .type ++ (gap ++ (found.text .name ++ behind))) ∧
      isLead lead ∧ isEnding behind ∧
        Cut sign lead (found.text .type) gap (found.text .name) behind := by
  obtain ⟨-, hlast⟩ := mem_reached_of_matchStart? hfound
  obtain ⟨mid, hleads, hlast⟩ := mem_reached_all_append.mp hlast
  obtain ⟨typed, htyped, hlast⟩ := mem_reached_all_cons.mp hlast
  obtain ⟨gapped, hgapped, hlast⟩ := mem_reached_all_cons.mp hlast
  obtain ⟨named, hnamed, hlast⟩ := mem_reached_all_cons.mp hlast
  obtain ⟨lead, hlead, -, hspansLead⟩ := spans_of_mem_reached hleads
  obtain ⟨type, htype, -, hspansType, hnotesType⟩ := spans_of_mem_reached_noted htyped found.first
  obtain ⟨gap, hgap, -, hspansGap⟩ := spans_of_mem_reached hgapped
  obtain ⟨name, hname, -, hspansName, hnotesName⟩ := spans_of_mem_reached_noted hnamed found.first
  obtain ⟨front, hrest, -, hspansEnding⟩ := spans_of_mem_reached (p := ending) hlast
  have htextName : found.text .name = name := by
    have hsame := @text?_of_mem_reached _ _ _ _ Slot.name _ found.first h.notesNothing.2 hlast
    rw [hnotesName] at hsame
    exact congrArg (Option.getD · []) hsame
  have htextType : found.text .type = type := by
    have hsame := @text?_of_mem_reached _ _ _ _ Slot.type _ found.first h.notesNothing.1 hlast
    have hbetween : (Match.mk found.first named).text? .type = some type := by
      rw [← hnotesType, text?_of_mem_reached (by decide) hnamed,
        text?_of_mem_reached (by decide) hgapped]
    rw [hbetween] at hsame
    exact congrArg (Option.getD · []) hsame
  have hisLead : isLead lead := h.spansLead.mp hspansLead
  have hisEnding : isEnding named.rest :=
    (h.spansEnding _ _).mp ⟨front, found.last.rest, hrest, hspansEnding⟩
  rw [htextName, htextType]
  refine ⟨lead, gap, named.rest, ?_, hisLead, hisEnding,
    h.cut hisLead hspansType (spans_gap.mp hspansGap) (spans_name.mp hspansName) hisEnding⟩
  show (Place.start declaration : Place Slot).rest = _
  rw [hlead, htype, hgap, hname]

/-- A declaration matches if a word stands in the place of its type. -/
theorem isSome_matchStart? {lead word gap name behind : Text} (hlead : isLead lead)
    (hword : IsWord word) (hgap : IsGap gap) (hname : IsWord name) (hending : isEnding behind) :
    ((member leads ending).matchStart? (lead ++ (word ++ (gap ++ (name ++ behind))))).isSome
      = true := by
  obtain ⟨front, rest, rfl, hspans⟩ := (h.spansEnding (name.getLast?.or (gap.getLast?.or
    (word.getLast?.or (lead.getLast?.or none)))) behind).mpr hending
  rw [matchStart?_isSome_iff_spans]
  refine ⟨lead ++ (word ++ (gap ++ (name ++ front))), rest, by simp, ?_⟩
  refine spans_all_append.mpr ⟨lead, _, rfl, h.spansLead.mpr hlead, ?_⟩
  refine spans_all_cons.mpr ⟨word, _, rfl, spans_type_of_isWord hword, ?_⟩
  refine spans_all_cons.mpr ⟨gap, _, rfl, spans_gap.mpr hgap, ?_⟩
  exact spans_all_cons.mpr ⟨name, _, rfl, spans_name.mpr hname, hspans⟩

end Frames

/-! ### The frame of a method -/

theorem leadEnd_of_isOptionalWord {words : List String} {text : Text}
    (h : IsOptionalWord words text) :
    ∀ c ∈ text.getLast?, isBlank c = true := by
  rcases h with ⟨word, -, gap, hgap, rfl⟩ | rfl
  · exact forall_getLast?_append_of_forall hgap.nonempty hgap.blank _
  · simp

theorem leadEnd_of_areLeadingWords {words : List String} {text : Text}
    (h : AreLeadingWords words text) :
    ∀ c ∈ text.getLast?, isBlank c = true := by
  obtain ⟨visibility, first, second, rfl, hvisibility, hfirst, hsecond⟩ := h
  exact forall_getLast?_append (leadEnd_of_isOptionalWord hvisibility)
    (forall_getLast?_append (leadEnd_of_isOptionalWord hfirst) (leadEnd_of_isOptionalWord hsecond))

theorem leadEnd_of_areTypeParameters {text : Text} (h : AreTypeParameters text) :
    ∀ c ∈ text.getLast?, isBlank c = true := by
  rcases h with ⟨inner, gap, -, hgap, rfl⟩ | rfl
  · have htext : '<' :: (inner ++ '>' :: gap) = ('<' :: (inner ++ ['>'])) ++ gap := by simp
    rw [htext]
    exact forall_getLast?_append_of_forall hgap.nonempty hgap.blank _
  · simp

/-- What may stand before the end of a text, and what stands at its end anyway. -/
theorem exists_spans_opt_finish {p : Pattern Slot} {before : Option Char} {text : Text} :
    (∃ front rest, text = front ++ rest ∧ (all [opt p, finish]).Spans before front rest) ↔
      (∃ front rest, text = front ++ rest ∧ p.Spans before front rest ∧ IsEnd rest) ∨
        IsEnd text := by
  simp only [spans_all_cons, spans_all_nil, spans_opt]
  constructor
  · rintro ⟨_, rest, rfl, near, _, rfl, hnear, _, _, rfl, ⟨rfl, hend⟩, rfl⟩
    rcases hnear with hp | rfl
    · exact .inl ⟨near, rest, by simp, by simpa using hp, hend⟩
    · exact .inr hend
  · rintro (⟨front, rest, rfl, hp, hend⟩ | hend)
    · exact ⟨front, rest, rfl, front, [], by simp, .inl (by simpa using hp), [], [], rfl,
        ⟨rfl, hend⟩, rfl⟩
    · exact ⟨[], text, rfl, [], [], rfl, .inr rfl, [], [], rfl, ⟨rfl, hend⟩, rfl⟩

/-- What may stand behind the parameters of a method. -/
def exceptionsEnd : Pattern Slot :=
  all [opt (all [spaces, exactly "throws", gap,
    atLeastOne fun c => Grammar.isDotted c || c == ',' || isBlank c]), finish]

/-- What must stand behind the name of a method. -/
def argumentsEnd : Pattern Slot :=
  all [spaces, lit '(', noted .parameters (many .greedy (· != ')')), lit ')', exceptionsEnd]

theorem exists_spans_exceptions {before : Option Char} {text : Text} :
    (∃ front rest, text = front ++ rest ∧ exceptionsEnd.Spans before front rest) ↔
      AreExceptions text := by
  unfold exceptionsEnd AreExceptions
  rw [exists_spans_opt_finish]
  refine or_congr_left ?_
  simp only [spans_all_cons, spans_all_nil, spans_exactly, spans_atLeastOne,
    spans_spaces, spans_gap]
  constructor
  · rintro ⟨_, rest, rfl, ⟨blanks, _, rfl, hblanks, _, _, rfl, rfl, gap, _, rfl, hgap, list, _,
      rfl, ⟨hne, hlist⟩, rfl⟩, hend⟩
    -- A line feed at the end is a blank, so it can belong to the list.
    refine ⟨blanks, gap, list ++ rest, hblanks, hgap, by simp [hne],
      List.forall_mem_append.mpr ⟨hlist, ?_⟩, by simp⟩
    rcases hend with rfl | rfl
    · exact List.forall_mem_nil _
    · exact List.forall_mem_singleton.mpr (by decide)
  · rintro ⟨blanks, gap, list, hblanks, hgap, hne, hlist, rfl⟩
    exact ⟨_, [], (List.append_nil _).symm,
      ⟨blanks, _, rfl, hblanks, _, _, rfl, rfl, gap, _, rfl, hgap, list, [],
        (List.append_nil _).symm, ⟨hne, hlist⟩, rfl⟩, .inl rfl⟩

theorem exists_spans_arguments {before : Option Char} {text : Text} :
    (∃ front rest, text = front ++ rest ∧ argumentsEnd.Spans before front rest) ↔
      AreArguments text := by
  have hlist : ∀ {text : Text}, (∀ c ∈ text, (c != ')') = true) ↔ ')' ∉ text := by
    intro text
    simp only [bne_iff_ne]
    exact ⟨fun h hmem => h _ hmem rfl, fun h c hc heq => h (heq ▸ hc)⟩
  unfold argumentsEnd AreArguments
  simp only [spans_all_cons, spans_all_nil, spans_lit, spans_spaces]
  constructor
  · rintro ⟨_, rest, rfl, blanks, _, rfl, hblanks, _, _, rfl, rfl, list, _, rfl, hparameters, _, _,
      rfl, rfl, ending, _, rfl, hending, rfl⟩
    refine ⟨blanks, list, ending ++ rest, hblanks, hlist.mp hparameters, ?_, by simp⟩
    exact exists_spans_exceptions.mp ⟨ending, rest, rfl, hending⟩
  · rintro ⟨blanks, list, ending, hblanks, hparameters, hexceptions, rfl⟩
    obtain ⟨front, rest, rfl, hspans⟩ := exists_spans_exceptions.mpr hexceptions
    exact ⟨blanks ++ '(' :: (list ++ ')' :: front), rest, by simp, blanks, _, rfl, hblanks, ['('],
      _, rfl, rfl, list, _, rfl, hlist.mpr hparameters, [')'], _, rfl, rfl, front, [],
      (List.append_nil _).symm, hspans, rfl⟩

theorem spans_typeParameters {before : Option Char} {front rest : Text} :
    (opt (all [lit '<', many .lazy (fun c => c != '(' && c != ')'), lit '>', gap]) :
      Pattern Slot).Spans before front rest ↔ AreTypeParameters front := by
  simp only [spans_opt, spans_all_cons, spans_all_nil, spans_lit, spans_gap]
  refine or_congr_left ?_
  constructor
  · rintro ⟨_, _, rfl, rfl, inner, _, rfl, hinner, _, _, rfl, rfl, gap, _, rfl, hgap, rfl⟩
    refine ⟨inner, gap, fun c hc => ?_, hgap, by simp⟩
    simpa using hinner c hc
  · rintro ⟨inner, gap, hinner, hgap, rfl⟩
    refine ⟨['<'], _, rfl, rfl, inner, _, rfl, fun c hc => ?_, ['>'], _, rfl, rfl, gap, [],
      (List.append_nil _).symm, hgap, rfl⟩
    simpa using hinner c hc

/-- What may stand in front of the type of a method. -/
def methodLeads : List (Pattern Slot) :=
  [Grammar.visibility, Grammar.optionalWord .firstModifier Grammar.methodModifiers,
    Grammar.optionalWord .secondModifier Grammar.methodModifiers] ++
  [opt (all [lit '<', many .lazy (fun c => c != '(' && c != ')'), lit '>', gap])]

theorem method_eq_member : Grammar.method = member methodLeads argumentsEnd := rfl

theorem frames_method : Frames methodLeads argumentsEnd IsMethodLead AreArguments '(' where
  spansLead := by
    intro before front rest
    unfold methodLeads IsMethodLead
    rw [spans_all_append]
    constructor
    · rintro ⟨words, parameters, rfl, hwords, hparameters⟩
      exact ⟨words, parameters, rfl, spans_leadingWords.mp hwords,
        spans_typeParameters.mp hparameters⟩
    · rintro ⟨words, parameters, rfl, hwords, hparameters⟩
      exact ⟨words, parameters, rfl, spans_leadingWords.mpr hwords,
        spans_typeParameters.mpr hparameters⟩
  spansEnding _ _ := exists_spans_arguments
  notesNothing := by decide
  omitsSign := by decide +kernel
  signApart := by decide
  leadEnd := by
    rintro _ ⟨words, parameters, rfl, hwords, hparameters⟩
    exact forall_getLast?_append (leadEnd_of_areLeadingWords hwords)
      (leadEnd_of_areTypeParameters hparameters)
  endingStart := by
    rintro _ ⟨blanks, parameters, ending, hblanks, -, -, rfl⟩
    exact ⟨blanks, '(' :: (parameters ++ ')' :: ending), rfl, hblanks, by simp⟩

end Diagrams.Code
