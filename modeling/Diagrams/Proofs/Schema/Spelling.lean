/-
How a name is written in a schema script.

A written name may carry a quote on either side and a schema in front of it, and quotes need not
agree.  `Spelled` says which texts are such writings of which name.  A writing has no blanks, and it
belongs to one name only: the last stretch of word characters in it.  So wherever a pattern finds a
written name that ends where the writing has to end, it finds the same name
(`name_unique_of_spelled`), and where the next character cannot belong to a writing the best match
covers all of it (`run_identifier`).
-/
import Diagrams.Schema.Grammar
import Diagrams.Proofs.Pattern.Blanks
import Diagrams.Proofs.Text.Letters

namespace Diagrams.Schema

open Pattern

/-- The characters that may open a quoted name. -/
def isOpenQuote (c : Char) : Bool := c == '\x60' || c == '"' || c == '['

/-- The characters that may close a quoted name. -/
def isCloseQuote (c : Char) : Bool := c == '\x60' || c == '"' || c == ']'

/-- Nothing, or one character that passes the test. -/
def AtMostOne (test : Char → Bool) (text : Text) : Prop :=
  text = [] ∨ ∃ c, test c = true ∧ text = [c]

/-- Nothing, or a schema in its quotes with the point after it and the opening quote of the name. -/
def IsQualifier (text : Text) : Prop :=
  text = [] ∨ ∃ schema closing opening, schema ≠ [] ∧ (∀ c ∈ schema, isWordChar c = true) ∧
    AtMostOne isCloseQuote closing ∧ AtMostOne isOpenQuote opening ∧
    text = schema ++ (closing ++ '.' :: opening)

/-- A writing of a name: what stands in front of the name, and what closes it. -/
structure Spelled (opening qualifier name closing : Text) : Prop where
  opening : AtMostOne isOpenQuote opening
  qualifier : IsQualifier qualifier
  nonempty : name ≠ []
  word : ∀ c ∈ name, isWordChar c = true
  closing : AtMostOne isCloseQuote closing

/-! ### Characters of a writing -/

theorem isWordChar_of_isOpenQuote {c : Char} (h : isOpenQuote c = true) : isWordChar c = false := by
  simp only [isOpenQuote, Bool.or_eq_true, beq_iff_eq] at h
  rcases h with (rfl | rfl) | rfl <;> decide

theorem isWordChar_of_isCloseQuote {c : Char} (h : isCloseQuote c = true) :
    isWordChar c = false := by
  simp only [isCloseQuote, Bool.or_eq_true, beq_iff_eq] at h
  rcases h with (rfl | rfl) | rfl <;> decide

theorem isOpenQuote_of_isWordChar {c : Char} (h : isWordChar c = true) :
    isOpenQuote c = false := by
  by_contra hquote
  rw [isWordChar_of_isOpenQuote (Bool.eq_true_of_not_eq_false hquote)] at h
  exact Bool.noConfusion h

theorem isBlank_of_isOpenQuote {c : Char} (h : isOpenQuote c = true) : isBlank c = false := by
  simp only [isOpenQuote, Bool.or_eq_true, beq_iff_eq] at h
  rcases h with (rfl | rfl) | rfl <;> decide

theorem isBlank_of_isCloseQuote {c : Char} (h : isCloseQuote c = true) : isBlank c = false := by
  simp only [isCloseQuote, Bool.or_eq_true, beq_iff_eq] at h
  rcases h with (rfl | rfl) | rfl <;> decide

/-- The characters of written names. -/
def isNameChar (c : Char) : Bool := isWordChar c || isOpenQuote c || isCloseQuote c || c == '.'

theorem isNameChar_of_isWordChar {c : Char} (h : isWordChar c = true) : isNameChar c = true := by
  simp [isNameChar, h]

theorem isBlank_of_isNameChar {c : Char} (h : isNameChar c = true) : isBlank c = false := by
  simp only [isNameChar, Bool.or_eq_true, beq_iff_eq] at h
  rcases h with ((h | h) | h) | rfl
  · exact isBlank_of_isWordChar h
  · exact isBlank_of_isOpenQuote h
  · exact isBlank_of_isCloseQuote h
  · decide

theorem isNameChar_of_isBlank {c : Char} (h : isBlank c = true) : isNameChar c = false := by
  by_contra hname
  rw [isBlank_of_isNameChar (Bool.eq_true_of_not_eq_false hname)] at h
  exact Bool.noConfusion h

theorem AtMostOne.forall {test : Char → Bool} {text : Text} (h : AtMostOne test text) :
    ∀ c ∈ text, test c = true := by
  rcases h with rfl | ⟨d, hd, rfl⟩
  · simp
  · simpa using hd

namespace Spelled

variable {opening qualifier name closing : Text}

/-- A name is not glued to what stands in front of it. -/
theorem before_name (h : Spelled opening qualifier name closing) :
    ∀ c ∈ (opening ++ qualifier).getLast?, isWordChar c = false := by
  have hopening : ∀ {text : Text}, AtMostOne isOpenQuote text →
      ∀ c ∈ text.getLast?, isWordChar c = false := fun htext c hc =>
    isWordChar_of_isOpenQuote (htext.forall c (List.mem_of_getLast? hc))
  rcases h.qualifier with rfl | ⟨schema, closing', opening', -, -, -, hopening', rfl⟩
  · rw [List.append_nil]
    exact hopening h.opening
  · rcases hopening' with rfl | ⟨d, hd, rfl⟩
    · simp
      decide
    · simpa using isWordChar_of_isOpenQuote hd

/-- Behind its opening quote a writing starts with a word character. -/
theorem head_isWordChar {rest : Text} (h : Spelled opening qualifier name closing) :
    ∀ c ∈ (qualifier ++ (name ++ rest)).head?, isWordChar c = true := by
  rcases h.qualifier with rfl | ⟨schema, closing', opening', hne, hword, -, -, rfl⟩
  · rw [List.nil_append]
    exact forall_head?_append h.nonempty h.word rest
  · rw [List.append_assoc]
    exact forall_head?_append hne hword _

/-- A writing holds nothing but characters of written names. -/
theorem isNameChar (h : Spelled opening qualifier name closing) :
    ∀ c ∈ opening ++ (qualifier ++ (name ++ closing)), isNameChar c = true := by
  have hopening : ∀ {text : Text}, AtMostOne isOpenQuote text →
      ∀ c ∈ text, Schema.isNameChar c = true := by
    intro text htext c hc
    simp [Schema.isNameChar, htext.forall c hc]
  have hclosing : ∀ {text : Text}, AtMostOne isCloseQuote text →
      ∀ c ∈ text, Schema.isNameChar c = true := by
    intro text htext c hc
    simp [Schema.isNameChar, htext.forall c hc]
  have hqualifier : ∀ c ∈ qualifier, Schema.isNameChar c = true := by
    rcases h.qualifier with rfl | ⟨schema, closing', opening', -, hword, hclosing', hopening', rfl⟩
    · simp
    · intro c hc
      simp only [List.mem_append, List.mem_cons] at hc
      rcases hc with hc | hc | rfl | hc
      · exact isNameChar_of_isWordChar (hword c hc)
      · exact hclosing hclosing' c hc
      · decide
      · exact hopening hopening' c hc
  intro c hc
  simp only [List.mem_append] at hc
  rcases hc with hc | hc | hc | hc
  · exact hopening h.opening c hc
  · exact hqualifier c hc
  · exact isNameChar_of_isWordChar (h.word c hc)
  · exact hclosing h.closing c hc

/-- A writing has no blanks. -/
theorem not_blank (h : Spelled opening qualifier name closing) :
    ∀ c ∈ opening ++ (qualifier ++ (name ++ closing)), isBlank c = false :=
  fun c hc => isBlank_of_isNameChar (h.isNameChar c hc)

end Spelled

/-- The last stretch of word characters in a text, in front of closing quotes. -/
def lastWord (text : Text) : Text :=
  ((text.reverse.dropWhile isCloseQuote).takeWhile isWordChar).reverse

theorem Spelled.lastWord {opening qualifier name closing : Text}
    (h : Spelled opening qualifier name closing) :
    lastWord (opening ++ (qualifier ++ (name ++ closing))) = name := by
  have hreverse : (opening ++ (qualifier ++ (name ++ closing))).reverse
      = closing.reverse ++ (name.reverse ++ (opening ++ qualifier).reverse) := by
    simp [List.reverse_append]
  have hquotes : ∀ c ∈ closing.reverse, isCloseQuote c = true := fun c hc =>
    h.closing.forall c (List.mem_reverse.mp hc)
  have hhead : ∀ c ∈ (name.reverse ++ (opening ++ qualifier).reverse).head?,
      isCloseQuote c = false := by
    intro c hc
    have hmem : c ∈ name := by
      cases hname : name.reverse with
      | nil => exact absurd (List.reverse_eq_nil_iff.mp hname) h.nonempty
      | cons d rest =>
          rw [hname] at hc
          obtain rfl : d = c := by simpa using hc
          exact List.mem_reverse.mp (hname ▸ List.mem_cons_self)
    by_contra hquote
    have := isWordChar_of_isCloseQuote (by simpa using hquote)
    rw [h.word c hmem] at this
    exact Bool.noConfusion this
  unfold Schema.lastWord
  rw [hreverse, dropWhile_append_of_stop hquotes hhead,
    takeWhile_append_of_stop (fun c hc => h.word c (List.mem_reverse.mp hc))
      (by simpa using h.before_name), List.reverse_reverse]

/-- A writing belongs to one name only. -/
theorem name_unique_of_spelled
    {opening qualifier name closing opening' qualifier' name' closing' : Text}
    (h : Spelled opening qualifier name closing) (h' : Spelled opening' qualifier' name' closing')
    (heq : opening ++ (qualifier ++ (name ++ closing))
      = opening' ++ (qualifier' ++ (name' ++ closing'))) : name = name' := by
  rw [← h.lastWord, ← h'.lastWord, heq]

/-! ### Patterns for written names -/

variable {place place' : Place Slot}

theorem mem_reached_opt_one {test : Char → Bool} :
    place' ∈ (opt (one test)).reached place ↔
      ∃ front rest, place.rest = front ++ rest ∧ AtMostOne test front ∧
        place' = place.past front rest := by
  rw [mem_reached_opt, mem_reached_one]
  constructor
  · rintro (⟨c, rest, hrest, hc, rfl⟩ | rfl)
    · exact ⟨[c], rest, hrest, .inr ⟨c, hc, rfl⟩, rfl⟩
    · exact ⟨[], _, rfl, .inl rfl, (Place.past_nil rfl).symm⟩
  · rintro ⟨front, rest, hrest, rfl | ⟨c, hc, rfl⟩, rfl⟩
    · exact .inr (Place.past_nil hrest)
    · exact .inl ⟨c, rest, hrest, hc, rfl⟩

/-- The schema in front of a name, as the pattern for written names has it. -/
abbrev qualifierPattern : Pattern Slot :=
  opt (all [name, Grammar.closeQuote, lit '.', Grammar.openQuote])

theorem mem_reached_qualifier :
    place' ∈ qualifierPattern.reached place ↔
      ∃ front rest, place.rest = front ++ rest ∧ IsQualifier front ∧
        place' = place.past front rest := by
  rw [mem_reached_opt]
  constructor
  · rintro (h | rfl)
    · simp only [mem_reached_all_cons, mem_reached_all_nil] at h
      obtain ⟨_, h₁, _, h₂, _, h₃, _, h₄, rfl⟩ := h
      obtain ⟨schema, rest₁, hrest₁, hne, hword, rfl⟩ := mem_reached_atLeastOne.mp h₁
      obtain ⟨closing, rest₂, hrest₂, hclosing, rfl⟩ := mem_reached_opt_one.mp h₂
      obtain ⟨rest₃, hrest₃, rfl⟩ := mem_reached_lit.mp h₃
      obtain ⟨opening, rest₄, hrest₄, hopening, rfl⟩ := mem_reached_opt_one.mp h₄
      simp only [Place.rest_past] at hrest₂ hrest₃ hrest₄
      refine ⟨schema ++ (closing ++ '.' :: opening), rest₄, ?_,
        .inr ⟨schema, closing, opening, hne, hword, hclosing, hopening, rfl⟩, ?_⟩
      · rw [hrest₁, hrest₂, hrest₃, hrest₄]
        simp
      · simp
    · exact ⟨[], _, rfl, .inl rfl, (Place.past_nil rfl).symm⟩
  · rintro ⟨front, rest, hrest, hfront, rfl⟩
    rcases hfront with rfl | ⟨schema, closing, opening, hne, hword, hclosing, hopening, rfl⟩
    · exact .inr (Place.past_nil hrest)
    · left
      simp only [mem_reached_all_cons, mem_reached_all_nil]
      refine ⟨_, mem_reached_atLeastOne.mpr ⟨schema, closing ++ '.' :: (opening ++ rest), ?_, hne,
        hword, rfl⟩, _, mem_reached_opt_one.mpr ⟨closing, '.' :: (opening ++ rest), rfl, hclosing,
        rfl⟩, _, mem_reached_lit.mpr ⟨opening ++ rest, rfl, rfl⟩, _,
        mem_reached_opt_one.mpr ⟨opening, rest, rfl, hopening, rfl⟩, ?_⟩
      · rw [hrest]
        simp
      · simp

theorem mem_reached_qualified {last : Pattern Slot} :
    place' ∈ (Grammar.qualified last).reached place ↔
      ∃ opening qualifier closing rest rest', ∃ mid ∈ last.reached
          (place.past (opening ++ qualifier) rest),
        AtMostOne isOpenQuote opening ∧ IsQualifier qualifier ∧ AtMostOne isCloseQuote closing ∧
        place.rest = opening ++ (qualifier ++ rest) ∧ mid.rest = closing ++ rest' ∧
        place' = mid.past closing rest' := by
  unfold Grammar.qualified Grammar.openQuote Grammar.closeQuote
  simp only [mem_reached_all_cons, mem_reached_all_nil]
  constructor
  · rintro ⟨_, h₁, _, h₂, mid, hmid, _, h₄, rfl⟩
    obtain ⟨opening, rest₁, hrest₁, hopening, rfl⟩ := mem_reached_opt_one.mp h₁
    obtain ⟨qualifier, rest₂, hrest₂, hqualifier, rfl⟩ := mem_reached_qualifier.mp h₂
    obtain ⟨closing, rest₃, hrest₃, hclosing, rfl⟩ := mem_reached_opt_one.mp h₄
    rw [Place.past_past] at hmid
    rw [Place.rest_past] at hrest₂
    exact ⟨opening, qualifier, closing, rest₂, rest₃, mid, hmid, hopening, hqualifier, hclosing,
      by rw [hrest₁, hrest₂], hrest₃, rfl⟩
  · rintro ⟨opening, qualifier, closing, rest, rest', mid, hmid, hopening, hqualifier, hclosing,
      hrest, hrest', rfl⟩
    refine ⟨_, mem_reached_opt_one.mpr ⟨opening, qualifier ++ rest, hrest, hopening, rfl⟩, _,
      mem_reached_qualifier.mpr ⟨qualifier, rest, rfl, hqualifier, rfl⟩, mid, ?_, _,
      mem_reached_opt_one.mpr ⟨closing, rest', hrest', hclosing, rfl⟩, rfl⟩
    rw [Place.past_past]
    exact hmid

theorem mem_reached_identifier {slot : Slot} :
    place' ∈ (Grammar.identifier slot).reached place ↔
      ∃ opening qualifier name closing rest, Spelled opening qualifier name closing ∧
        place.rest = opening ++ (qualifier ++ (name ++ (closing ++ rest))) ∧
        place' = (place.past (opening ++ (qualifier ++ (name ++ closing))) rest).marked slot name
          (closing ++ rest) := by
  unfold Grammar.identifier
  rw [mem_reached_qualified]
  constructor
  · rintro ⟨opening, qualifier, closing, rest, rest', _, hmid, hopening, hqualifier, hclosing,
      hrest, hrest', rfl⟩
    obtain ⟨_, hname, rfl⟩ := mem_reached_noted.mp hmid
    obtain ⟨name, rest'', hrest'', hne, hword, rfl⟩ := mem_reached_atLeastOne.mp hname
    rw [Place.rest_past] at hrest''
    rw [Place.note_past _ hrest''] at hrest' ⊢
    rw [Place.rest_marked, Place.rest_past] at hrest'
    refine ⟨opening, qualifier, name, closing, rest',
      ⟨hopening, hqualifier, hne, hword, hclosing⟩, ?_, ?_⟩
    · rw [hrest, hrest'', hrest']
    · simp [hrest']
  · rintro ⟨opening, qualifier, name, closing, rest, hspelled, hrest, rfl⟩
    refine ⟨opening, qualifier, closing, name ++ (closing ++ rest), rest, _,
      mem_reached_noted.mpr ⟨_, mem_reached_atLeastOne.mpr ⟨name, closing ++ rest, rfl,
        hspelled.nonempty, hspelled.word, rfl⟩, rfl⟩,
      hspelled.opening, hspelled.qualifier, hspelled.closing, hrest, ?_, ?_⟩
    · rw [Place.note_past _ rfl]
      simp
    · rw [Place.note_past _ rfl]
      simp

/-! ### The best match for a written name -/

variable {next : Continuation Slot} {found : Place Slot}

/-- The text cannot go on a written name in front of it. -/
def EndsName (rest : Text) : Prop :=
  ∀ c ∈ rest.head?, isWordChar c = false ∧ isCloseQuote c = false ∧ c ≠ '.'

theorem endsName_of_not_isNameChar {rest : Text} (h : ∀ c ∈ rest.head?, isNameChar c = false) :
    EndsName rest := by
  intro c hc
  have hchar := h c hc
  simp only [isNameChar, Bool.or_eq_false_iff, beq_eq_false_iff_ne] at hchar
  exact ⟨hchar.1.1.1, hchar.1.2, hchar.2⟩

theorem run_opt_one {test : Char → Bool} {front rest : Text} (hfront : AtMostOne test front)
    (h : place.rest = front ++ rest) (hstop : front = [] → ∀ c ∈ rest.head?, test c = false)
    (hnext : next (place.past front rest) = some found) :
    (opt (one test)).run place next = some found := by
  rcases hfront with rfl | ⟨c, hc, rfl⟩
  · rw [List.nil_append] at h
    rw [Place.past_nil h] at hnext
    rw [run_opt_of_none, hnext]
    refine run_eq_none fun mid hmid => ?_
    obtain ⟨d, rest', hrest', hd, -⟩ := mem_reached_one.mp hmid
    rw [h] at hrest'
    rw [hstop rfl d (by rw [hrest']; rfl)] at hd
    exact Bool.noConfusion hd
  · refine run_opt_of_some ?_
    exact (run_one h hc).trans hnext

theorem head?_closing {closing rest : Text} (hclosing : AtMostOne isCloseQuote closing)
    (hrest : ∀ c ∈ rest.head?, isWordChar c = false) :
    ∀ c ∈ (closing ++ rest).head?, isWordChar c = false := by
  rcases hclosing with rfl | ⟨d, hd, rfl⟩
  · exact hrest
  · exact forall_head?_cons (isWordChar_of_isCloseQuote hd) rest

/-- A name without a schema is not taken for one. -/
theorem not_mem_reached_qualifier {name closing rest : Text}
    (h : place.rest = name ++ (closing ++ rest)) (hname : ∀ c ∈ name, isWordChar c = true)
    (hclosing : AtMostOne isCloseQuote closing) (hrest : EndsName rest) (mid : Place Slot) :
    ¬ mid ∈ (all [Pattern.name, Grammar.closeQuote, lit '.', Grammar.openQuote]).reached place := by
  intro hmid
  simp only [mem_reached_all_cons] at hmid
  obtain ⟨_, h₁, _, h₂, _, h₃, -⟩ := hmid
  obtain ⟨schema, rest₁, hrest₁, -, hschema, rfl⟩ := mem_reached_atLeastOne.mp h₁
  obtain ⟨closing', rest₂, hrest₂, hclosing', rfl⟩ := mem_reached_opt_one.mp h₂
  obtain ⟨rest₃, hrest₃, -⟩ := mem_reached_lit.mp h₃
  simp only [Place.rest_past] at hrest₂ hrest₃
  subst hrest₂ hrest₃
  have hpoint : EndsName ('.' :: rest₃) → False := fun hends => (hends '.' rfl).2.2 rfl
  -- After the name and its closing quote there would have to be a point.
  have hstop : ∀ c ∈ (closing' ++ '.' :: rest₃).head?, isWordChar c = false :=
    head?_closing hclosing' (forall_head?_cons (by decide) rest₃)
  have hstop' := head?_closing hclosing fun c hc => (hrest c hc).1
  obtain ⟨-, htail⟩ := append_inj_of_stop hname hschema hstop' hstop (h.symm.trans hrest₁)
  have hquote : ∀ c ∈ rest.head?, isCloseQuote c = false := fun c hc => (hrest c hc).2.1
  have hquote' : ∀ c ∈ ('.' :: rest₃).head?, isCloseQuote c = false :=
    forall_head?_cons (by decide) rest₃
  obtain ⟨-, htail⟩ := append_inj_of_stop hclosing.forall hclosing'.forall hquote hquote' htail
  exact hpoint (htail ▸ hrest)

theorem run_qualifier {qualifier name closing rest : Text}
    (h : place.rest = qualifier ++ (name ++ (closing ++ rest)))
    (hspelled : Spelled [] qualifier name closing) (hrest : EndsName rest)
    (hnext : next (place.past qualifier (name ++ (closing ++ rest))) = some found) :
    qualifierPattern.run place next = some found := by
  rcases hspelled.qualifier with
    rfl | ⟨schema, closing', opening, hne, hword, hclosing', hopening, rfl⟩
  · rw [List.nil_append] at h
    rw [Place.past_nil h] at hnext
    rw [run_opt_of_none (run_eq_none (not_mem_reached_qualifier h hspelled.word hspelled.closing
      hrest)), hnext]
  · refine run_opt_of_some ?_
    rw [run_all_cons]
    have hname : ∀ c ∈ (name ++ (closing ++ rest)).head?, isOpenQuote c = false :=
      forall_head?_append hspelled.nonempty
        (fun c hc => isOpenQuote_of_isWordChar (hspelled.word c hc)) _
    have hrest' : place.rest
        = schema ++ (closing' ++ '.' :: (opening ++ (name ++ (closing ++ rest)))) := by
      rw [h]
      simp
    refine run_atLeastOne hrest' hne hword ?_ ?_
    · exact head?_closing hclosing' (forall_head?_cons (by decide) _)
    · rw [run_all_cons]
      refine run_opt_one hclosing' rfl (fun _ => forall_head?_cons (by decide) _) ?_
      rw [run_all_cons, run_lit rfl, run_all_cons]
      refine run_opt_one hopening rfl (fun _ => hname) ?_
      simpa using hnext

/-- Around a pattern that covers the name, a written name is matched whole where the text cannot go
on it. -/
theorem run_qualified {last : Pattern Slot} {opening qualifier name closing rest : Text}
    (mid : Place Slot) (hspelled : Spelled opening qualifier name closing)
    (h : place.rest = opening ++ (qualifier ++ (name ++ (closing ++ rest)))) (hrest : EndsName rest)
    (hmid : mid.rest = closing ++ rest)
    (hlast : ∀ {after : Continuation Slot}, after mid = some found →
      last.run (place.past (opening ++ qualifier) (name ++ (closing ++ rest))) after = some found)
    (hnext : next (mid.past closing rest) = some found) :
    (Grammar.qualified last).run place next = some found := by
  unfold Grammar.qualified
  rw [run_all_cons]
  refine run_opt_one hspelled.opening h ?_ ?_
  · intro _ c hc
    exact isOpenQuote_of_isWordChar (hspelled.head_isWordChar c hc)
  · rw [run_all_cons]
    refine run_qualifier rfl ⟨.inl rfl, hspelled.qualifier, hspelled.nonempty, hspelled.word,
      hspelled.closing⟩ hrest ?_
    rw [run_all_cons, Place.past_past]
    refine hlast ?_
    rw [run_all_cons]
    refine run_opt_one hspelled.closing hmid (fun _ c hc => (hrest c hc).2.1) ?_
    simpa using hnext

/-- A written name is noted without its quotes where the text cannot go on it. -/
theorem run_identifier {slot : Slot} {opening qualifier name closing rest : Text}
    (hspelled : Spelled opening qualifier name closing)
    (h : place.rest = opening ++ (qualifier ++ (name ++ (closing ++ rest)))) (hrest : EndsName rest)
    (hnext : next ((place.past (opening ++ (qualifier ++ (name ++ closing))) rest).marked slot name
      (closing ++ rest)) = some found) :
    (Grammar.identifier slot).run place next = some found := by
  unfold Grammar.identifier
  refine run_qualified ((place.past ((opening ++ qualifier) ++ name) (closing ++ rest)).marked slot
    name (closing ++ rest)) hspelled h hrest rfl (fun {after} hafter => ?_) ?_
  · rw [run_noted]
    refine run_atLeastOne rfl hspelled.nonempty hspelled.word
      (head?_closing hspelled.closing fun c hc => (hrest c hc).1) ?_
    rw [Place.note_past _ rfl, Place.past_past]
    exact hafter
  · simpa using hnext

/-- A written name that nothing is noted of. -/
theorem run_qualified_name {opening qualifier name closing rest : Text}
    (hspelled : Spelled opening qualifier name closing)
    (h : place.rest = opening ++ (qualifier ++ (name ++ (closing ++ rest)))) (hrest : EndsName rest)
    (hnext : next (place.past (opening ++ (qualifier ++ (name ++ closing))) rest) = some found) :
    (Grammar.qualified Pattern.name).run place next = some found := by
  refine run_qualified (place.past ((opening ++ qualifier) ++ name) (closing ++ rest))
    hspelled h hrest rfl (fun {after} hafter => ?_) ?_
  · refine run_atLeastOne rfl hspelled.nonempty hspelled.word
      (head?_closing hspelled.closing fun c hc => (hrest c hc).1) ?_
    rw [Place.past_past]
    exact hafter
  · simpa using hnext

end Diagrams.Schema
