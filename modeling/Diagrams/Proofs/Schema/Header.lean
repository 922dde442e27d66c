/-
How a table definition starts.

`TableHead` holds the pieces that may stand in front of the list of a table, and
`exists_tableHead_of_createTable` says that the strict pattern matches nothing else.  The permissive
pattern looks for the words in another way: it searches for the first of them and passes over up to
three words before it expects the second.  On every head it ends up at the same name
(`find?_looseTable`), because the words it may pass over cannot be taken for the one it waits for.
-/
import Diagrams.Schema.Table
import Diagrams.Proofs.Pattern.Search
import Diagrams.Proofs.Schema.Spelling

namespace Diagrams.Schema

open Pattern

/-! ### Words with gaps after them -/

/-- The words, spelled in either case and each with blanks after it. -/
inductive Phrase : List String → Text → Prop
  | nil : Phrase [] []
  | cons {word : String} {words : List String} {text gap after : Text} (spells : Spells word text)
      (nonempty : gap ≠ []) (blank : ∀ c ∈ gap, isBlank c = true) (tail : Phrase words after) :
      Phrase (word :: words) (text ++ (gap ++ after))

theorem spells_ne_nil {word : String} {text : Text} (h : Spells word text)
    (hword : isLetters word = true) : text ≠ [] := by
  rintro rfl
  have hlength := h.length_eq
  unfold isLetters at hword
  cases hletters : word.toList with
  | nil => simp [hletters] at hword
  | cons c letters => simp [hletters] at hlength

theorem isWordChar_of_spells {word : String} {text : Text} (h : Spells word text)
    (hword : isLetters word = true) : ∀ c ∈ text, isWordChar c = true :=
  h.isWordChar (Bool.and_eq_true_iff.mp hword).2

/-- What stands after a text of letters starts with a letter. -/
theorem head?_spells {word : String} {text rest : Text} (h : Spells word text)
    (hword : isLetters word = true) : ∀ c ∈ (text ++ rest).head?, isWordChar c = true :=
  forall_head?_append (spells_ne_nil h hword) (isWordChar_of_spells h hword) rest

variable {place place' : Place Slot}

theorem phrase_singleton_iff {word : String} {text : Text} :
    Phrase [word] text ↔ ∃ front gap, Spells word front ∧ gap ≠ [] ∧
      (∀ c ∈ gap, isBlank c = true) ∧ text = front ++ gap := by
  constructor
  · intro h
    cases h with
    | @cons _ _ front gap after hspells hne hblank htail =>
        cases htail
        exact ⟨front, gap, hspells, hne, hblank, by rw [List.append_nil]⟩
  · rintro ⟨front, gap, hspells, hne, hblank, rfl⟩
    simpa using Phrase.cons hspells hne hblank .nil

theorem Phrase.head? {words : List String} {text rest : Text} (h : Phrase words text)
    (hwords : words.all isLetters = true) (hrest : ∀ c ∈ rest.head?, isBlank c = false) :
    ∀ c ∈ (text ++ rest).head?, isBlank c = false := by
  cases h with
  | nil => exact hrest
  | cons hspells =>
      intro c hc
      rw [List.append_assoc] at hc
      exact isBlank_of_isWordChar
        (head?_spells hspells (List.all_cons .. ▸ hwords |> Bool.and_eq_true_iff.mp).1 c hc)

theorem mem_reached_leading {words : List String} :
    place' ∈ (Grammar.leading words).reached place ↔
      ∃ front rest, place.rest = front ++ rest ∧ Phrase words front ∧
        place' = place.past front rest := by
  unfold Grammar.leading
  induction words generalizing place with
  | nil =>
      rw [List.map_nil, mem_reached_all_nil]
      constructor
      · rintro rfl
        exact ⟨[], _, rfl, .nil, (Place.past_nil rfl).symm⟩
      · rintro ⟨_, rest, hrest, ⟨⟩, rfl⟩
        exact Place.past_nil hrest
  | cons word words ih =>
      rw [List.map_cons, mem_reached_all_cons]
      constructor
      · rintro ⟨_, hword, hplace'⟩
        obtain ⟨_, hkeyword, hgap⟩ := mem_reached_seq.mp hword
        obtain ⟨text, rest, hrest, hspells, rfl⟩ := mem_reached_keyword.mp hkeyword
        obtain ⟨gap, rest', hrest', hne, hblank, rfl⟩ := mem_reached_atLeastOne.mp hgap
        obtain ⟨after, rest'', hrest'', htail, rfl⟩ := ih.mp hplace'
        simp only [Place.rest_past] at hrest' hrest''
        refine ⟨text ++ (gap ++ after), rest'', ?_, .cons hspells hne hblank htail, by simp⟩
        rw [hrest, hrest', hrest'']
        simp
      · rintro ⟨_, rest, hrest, hphrase, rfl⟩
        cases hphrase with
        | @cons _ _ text gap after hspells hne hblank htail =>
            refine ⟨_, mem_reached_seq.mpr ⟨_, mem_reached_keyword.mpr
              ⟨text, gap ++ (after ++ rest), by rw [hrest]; simp, hspells, rfl⟩,
              mem_reached_atLeastOne.mpr ⟨gap, after ++ rest, rfl, hne, hblank, rfl⟩⟩, ?_⟩
            exact ih.mpr ⟨after, rest, rfl, htail, by simp⟩

variable {next : Continuation Slot} {found : Place Slot}

/-- Words with gaps are matched as they stand in front of something that is not blank. -/
theorem run_leading {words : List String} {front rest : Text} (hfront : Phrase words front)
    (hwords : words.all isLetters = true) (h : place.rest = front ++ rest)
    (hstop : ∀ c ∈ rest.head?, isBlank c = false)
    (hnext : next (place.past front rest) = some found) :
    (Grammar.leading words).run place next = some found := by
  unfold Grammar.leading
  induction hfront generalizing place with
  | nil =>
      rw [List.nil_append] at h
      rw [List.map_nil, run_all_nil, ← hnext, Place.past_nil h]
  | @cons word words text gap after hspells hne hblank htail ih =>
      rw [List.all_cons, Bool.and_eq_true] at hwords
      rw [List.map_cons, run_all_cons, run_seq,
        run_keyword (h.trans (List.append_assoc _ _ _)) hspells]
      refine run_atLeastOne (List.append_assoc _ _ _) hne hblank (htail.head? hwords.2 hstop) ?_
      refine ih hwords.2 rfl ?_
      simpa using hnext

/-! ### Words that cannot be taken for each other -/

/-- Two words agree as far as both go, whatever their cases. -/
def agree (word word' : String) : Bool :=
  (word.toList.zip word'.toList).all fun letters => letters.1.toLower == letters.2.toLower

theorem toLower_eq_of_matchesLetter {letter letter' c : Char} (hletter : letter.isAlpha = true)
    (hletter' : letter'.isAlpha = true) (h : matchesLetter letter c = true)
    (h' : matchesLetter letter' c = true) : letter.toLower = letter'.toLower := by
  -- The signs that stand for a letter are no lower-case form of any letter.
  have hsign : ∀ {letter sign : Char}, letter.isAlpha = true → sign.toLower = letter.toLower →
      sign.isAlpha = false → False := by
    intro letter sign hletter hsame hsign
    have halpha : sign.toLower.isAlpha = true := by
      rw [hsame, Char.isAlpha_toLower_eq_isAlpha, hletter]
    rw [Char.isAlpha_toLower_eq_isAlpha, hsign] at halpha
    exact Bool.noConfusion halpha
  rcases matchesLetter_iff.mp h with h | ⟨hk, rfl⟩ | ⟨hs, rfl⟩ | ⟨hi, hi'⟩
  · rcases matchesLetter_iff.mp h' with h' | ⟨-, rfl⟩ | ⟨-, rfl⟩ | ⟨-, rfl | rfl⟩
    · exact h.symm.trans h'
    all_goals exact (hsign hletter h (by decide)).elim
  · rcases matchesLetter_iff.mp h' with h' | ⟨hk', -⟩ | ⟨-, h'⟩ | ⟨-, h' | h'⟩
    · exact (hsign hletter' h' (by decide)).elim
    · exact hk.trans hk'.symm
    all_goals exact absurd h' (by decide)
  · rcases matchesLetter_iff.mp h' with h' | ⟨-, h'⟩ | ⟨hs', -⟩ | ⟨-, h' | h'⟩
    · exact (hsign hletter' h' (by decide)).elim
    · exact absurd h' (by decide)
    · exact hs.trans hs'.symm
    all_goals exact absurd h' (by decide)
  · rcases matchesLetter_iff.mp h' with h' | ⟨-, rfl⟩ | ⟨-, rfl⟩ | ⟨hi'', -⟩
    · rcases hi' with rfl | rfl <;> exact (hsign hletter' h' (by decide)).elim
    · exact absurd hi' (by decide)
    · exact absurd hi' (by decide)
    · exact hi.trans hi''.symm

/-- A text spells two words only if one of them goes on the other. -/
theorem agree_of_spells {word word' : String} {text text' rest rest' : Text}
    (hword : word.toList.all Char.isAlpha = true) (hword' : word'.toList.all Char.isAlpha = true)
    (h : Spells word text) (h' : Spells word' text') (heq : text ++ rest = text' ++ rest') :
    agree word word' = true := by
  unfold agree
  unfold Spells at h h'
  generalize word.toList = letters at h hword ⊢
  generalize word'.toList = letters' at h' hword' ⊢
  induction h generalizing letters' text' with
  | nil => simp
  | @cons letter c letters text hc htail ih =>
      cases h' with
      | nil => simp
      | @cons letter' c' letters' text' hc' htail' =>
          rw [List.all_cons, Bool.and_eq_true] at hword hword'
          obtain ⟨rfl, hsame⟩ := List.cons.inj heq
          rw [List.zip_cons_cons, List.all_cons, Bool.and_eq_true, beq_iff_eq]
          exact ⟨toLower_eq_of_matchesLetter hword.1 hword'.1 hc hc',
            ih hsame hword.2 letters' htail' hword'.2⟩

/-- Where one word is spelled, phrases that start with another word lead nowhere. -/
theorem not_mem_reached_leading {word word' : String} {words : List String} {text rest : Text}
    (h : place.rest = text ++ rest) (hspells : Spells word text)
    (hword : word.toList.all Char.isAlpha = true) (hword' : word'.toList.all Char.isAlpha = true)
    (hdiffer : agree word word' = false) (mid : Place Slot) :
    ¬ mid ∈ (Grammar.leading (word' :: words)).reached place := by
  intro hmid
  obtain ⟨_, rest', hrest', hphrase, -⟩ := mem_reached_leading.mp hmid
  cases hphrase with
  | cons hspells' =>
      rw [List.append_assoc] at hrest'
      have hagree := agree_of_spells hword hword' hspells hspells' (h.symm.trans hrest')
      rw [hdiffer] at hagree
      exact Bool.noConfusion hagree

/-! ### The pieces of a head -/

/-- The words for a temporary table, or none. -/
inductive IsTemporary : Text → Prop
  | lasting : IsTemporary []
  | temporary {scope word long gap : Text}
      (scope_spells : scope = [] ∨ Phrase ["GLOBAL"] scope ∨ Phrase ["LOCAL"] scope)
      (spells : Spells "TEMP" word) (long_spells : long = [] ∨ Spells "ORARY" long)
      (nonempty : gap ≠ []) (blank : ∀ c ∈ gap, isBlank c = true) :
      IsTemporary (scope ++ (word ++ (long ++ gap)))

/-- What stands in front of the list of a table. -/
structure TableHead where
  indent : Text
  create : Text
  temporary : Text
  table : Text
  condition : Text
  opening : Text
  qualifier : Text
  name : Text
  closing : Text
  space : Text
  indent_blank : ∀ c ∈ indent, isBlank c = true
  create_spells : Phrase ["CREATE"] create
  temporary_spells : IsTemporary temporary
  table_spells : Phrase ["TABLE"] table
  condition_spells : condition = [] ∨ Phrase ["IF", "NOT", "EXISTS"] condition
  spelled : Spelled opening qualifier name closing
  space_blank : ∀ c ∈ space, isBlank c = true

namespace TableHead

variable (head : TableHead)

/-- The name of the table as it is written. -/
def written : Text := head.opening ++ (head.qualifier ++ (head.name ++ head.closing))

/-- The head in front of a list that goes on with `rest`. -/
def before (rest : Text) : Text :=
  head.indent ++ (head.create ++ (head.temporary ++ (head.table ++ (head.condition ++
    (head.written ++ (head.space ++ '(' :: rest))))))

end TableHead

theorem mem_reached_temporary :
    place' ∈ (opt (all [opt (oneOf [Grammar.leading ["GLOBAL"], Grammar.leading ["LOCAL"]]),
      keyword "TEMP", opt (keyword "ORARY"), gap])).reached place ↔
      ∃ front rest, place.rest = front ++ rest ∧ IsTemporary front ∧
        place' = place.past front rest := by
  rw [mem_reached_opt]
  constructor
  · rintro (h | rfl)
    · simp only [mem_reached_all_cons, mem_reached_all_nil] at h
      obtain ⟨mid, h₁, _, h₂, mid', h₃, _, h₄, rfl⟩ := h
      obtain ⟨scope, rest₁, hrest₁, hscope, rfl⟩ : ∃ scope rest, place.rest = scope ++ rest ∧
          (scope = [] ∨ Phrase ["GLOBAL"] scope ∨ Phrase ["LOCAL"] scope) ∧
          mid = place.past scope rest := by
        simp only [mem_reached_opt, mem_reached_oneOf_cons, mem_reached_oneOf_nil,
          mem_reached_leading, or_false] at h₁
        rcases h₁ with (⟨scope, rest, hrest, hscope, rfl⟩ | ⟨scope, rest, hrest, hscope, rfl⟩) | rfl
        · exact ⟨scope, rest, hrest, .inr (.inl hscope), rfl⟩
        · exact ⟨scope, rest, hrest, .inr (.inr hscope), rfl⟩
        · exact ⟨[], _, rfl, .inl rfl, (Place.past_nil rfl).symm⟩
      obtain ⟨word, rest₂, hrest₂, hword, rfl⟩ := mem_reached_keyword.mp h₂
      obtain ⟨long, rest₃, hrest₃, hlong, rfl⟩ : ∃ long rest, rest₂ = long ++ rest ∧
          (long = [] ∨ Spells "ORARY" long) ∧
          mid' = (place.past (scope ++ word) rest₂).past long rest := by
        rw [Place.past_past, mem_reached_opt, mem_reached_keyword] at h₃
        rcases h₃ with ⟨long, rest, hrest, hlong, rfl⟩ | rfl
        · exact ⟨long, rest, hrest, .inr hlong, rfl⟩
        · exact ⟨[], _, rfl, .inl rfl, (Place.past_nil rfl).symm⟩
      obtain ⟨gap, rest₄, hrest₄, hne, hblank, rfl⟩ := mem_reached_atLeastOne.mp h₄
      simp only [Place.rest_past] at hrest₂ hrest₄
      refine ⟨_, rest₄, ?_, .temporary hscope hword hlong hne hblank, by simp⟩
      rw [hrest₁, hrest₂, hrest₃, hrest₄]
      simp
    · exact ⟨[], _, rfl, .lasting, (Place.past_nil rfl).symm⟩
  · rintro ⟨_, rest, hrest, hfront, rfl⟩
    cases hfront with
    | lasting => exact .inr (Place.past_nil hrest)
    | @temporary scope word long gap hscope hword hlong hne hblank =>
        left
        simp only [mem_reached_all_cons, mem_reached_all_nil]
        refine ⟨place.past scope (word ++ (long ++ (gap ++ rest))), ?_, _,
          mem_reached_keyword.mpr ⟨word, long ++ (gap ++ rest), rfl, hword, rfl⟩,
          place.past (scope ++ (word ++ long)) (gap ++ rest), ?_, _,
          mem_reached_atLeastOne.mpr ⟨gap, rest, rfl, hne, hblank, rfl⟩, by simp⟩
        · simp only [mem_reached_opt, mem_reached_oneOf_cons, mem_reached_leading]
          rcases hscope with rfl | hscope | hscope
          · exact .inr (Place.past_nil (by rw [hrest]; simp))
          · exact .inl (.inl ⟨scope, _, by rw [hrest]; simp, hscope, rfl⟩)
          · exact .inl (.inr (.inl ⟨scope, _, by rw [hrest]; simp, hscope, rfl⟩))
        · rw [Place.past_past, mem_reached_opt, mem_reached_keyword]
          rcases hlong with rfl | hlong
          · exact .inr (by simp)
          · exact .inl ⟨long, gap ++ rest, rfl, hlong, by simp⟩

/-- The strict pattern matches nothing but heads. -/
theorem exists_tableHead_of_createTable {statement : Text} {header : Match Slot}
    (h : Grammar.createTable.matchStart? statement = some header) :
    ∃ head : TableHead, statement = head.before header.rest ∧
      header.text .name = head.name := by
  obtain ⟨first, last⟩ := header
  obtain ⟨hfirst, hlast⟩ := mem_reached_of_matchStart? h
  subst hfirst
  unfold Grammar.createTable Grammar.ifNotExists at hlast
  simp only [mem_reached_all_cons, mem_reached_all_nil] at hlast
  obtain ⟨_, h₁, _, h₂, _, h₃, _, h₄, mid, h₅, _, h₆, _, h₇, _, h₈, rfl⟩ := hlast
  obtain ⟨indent, rest₁, hrest₁, hindent, rfl⟩ := mem_reached_many.mp h₁
  obtain ⟨create, rest₂, hrest₂, hcreate, rfl⟩ := mem_reached_leading.mp h₂
  obtain ⟨temporary, rest₃, hrest₃, htemporary, rfl⟩ := mem_reached_temporary.mp h₃
  obtain ⟨table, rest₄, hrest₄, htable, rfl⟩ := mem_reached_leading.mp h₄
  obtain ⟨condition, rest₅, hrest₅, hcondition, rfl⟩ : ∃ condition rest,
      rest₄ = condition ++ rest ∧ (condition = [] ∨ Phrase ["IF", "NOT", "EXISTS"] condition) ∧
      mid = (Place.start statement).past (indent ++ (create ++ (temporary ++ (table ++ condition))))
        rest := by
    rw [mem_reached_opt, mem_reached_leading] at h₅
    rcases h₅ with ⟨condition, rest, hrest, hcondition, rfl⟩ | rfl
    · exact ⟨condition, rest, hrest, .inr hcondition, by simp⟩
    · exact ⟨[], rest₄, rfl, .inl rfl, by simp⟩
  obtain ⟨opening, qualifier, name, closing, rest₆, hspelled, hrest₆, rfl⟩ :=
    mem_reached_identifier.mp h₆
  obtain ⟨space, rest₇, hrest₇, hspace, rfl⟩ := mem_reached_many.mp h₇
  obtain ⟨rest₈, hrest₈, rfl⟩ := mem_reached_lit.mp h₈
  simp only [Place.rest_start, Place.rest_past, Place.rest_marked] at *
  refine ⟨⟨indent, create, temporary, table, condition, opening, qualifier, name, closing, space,
    hindent, hcreate, htemporary, htable, hcondition, hspelled, hspace⟩, ?_, ?_⟩
  · rw [hrest₁, hrest₂, hrest₃, hrest₄, hrest₅, hrest₆, hrest₇, hrest₈]
    simp [TableHead.before, TableHead.written, Match.rest]
  · simp [Match.text]

/-! ### The permissive search -/

theorem run_lazyUpTo_of_some {body : Pattern Slot} (n : Nat) (h : next place = some found) :
    (lazyUpTo body n).run place next = some found := by
  cases n with
  | zero => exact h
  | succ n => exact run_lazyOpt_of_some h

/-- A word that the rest does not start with is passed over. -/
theorem run_lazyUpTo_word {word blanks rest : Text} {n : Nat} (hnone : next place = none)
    (h : place.rest = word ++ (blanks ++ rest)) (hne : word ≠ [])
    (hword : ∀ c ∈ word, isWordChar c = true) (hne' : blanks ≠ [])
    (hblank : ∀ c ∈ blanks, isBlank c = true) (hstop : ∀ c ∈ rest.head?, isBlank c = false)
    (hnext : (lazyUpTo (all [name, gap]) n).run (place.past (word ++ blanks) rest) next
      = some found) :
    (lazyUpTo (all [name, gap]) (n + 1)).run place next = some found := by
  have hbreak : ∀ c ∈ (blanks ++ rest).head?, isWordChar c = false :=
    forall_head?_append hne' (fun c hc => isWordChar_of_isBlank (hblank c hc)) rest
  unfold lazyUpTo
  rw [run_lazyOpt_of_none hnone, run_seq, run_all_cons]
  refine run_atLeastOne h hne hword hbreak ?_
  rw [run_all_cons]
  refine run_atLeastOne rfl hne' hblank hstop ?_
  simpa using hnext

/-- The pattern for the rest of a head, behind the words that may be passed over. -/
abbrev looseRest : Pattern Slot :=
  all [Grammar.leading ["TABLE"], Grammar.ifNotExists, Grammar.identifier .name]

theorem run_looseRest_eq_none {word : String} {text rest : Text} (h : place.rest = text ++ rest)
    (hspells : Spells word text) (hword : word.toList.all Char.isAlpha = true)
    (hdiffer : agree word "TABLE" = false) : looseRest.run place next = none := by
  rw [run_all_cons]
  exact run_eq_none (not_mem_reached_leading h hspells hword (by decide) hdiffer)

/-- The words for a temporary table are passed over. -/
theorem run_lazyUpTo_temporary {temporary rest : Text} (htemporary : IsTemporary temporary)
    (h : place.rest = temporary ++ rest) (hstop : ∀ c ∈ rest.head?, isBlank c = false)
    (hnext : looseRest.run (place.past temporary rest) next = some found) :
    (lazyUpTo (all [name, gap]) 3).run place (fun mid => looseRest.run mid next) = some found := by
  cases htemporary with
  | lasting =>
      rw [List.nil_append] at h
      rw [Place.past_nil h] at hnext
      exact run_lazyUpTo_of_some 3 hnext
  | @temporary scope word long blanks hscope hword hlong hne hblank =>
      have hchars : ∀ c ∈ word ++ long, isWordChar c = true := by
        intro c hc
        rcases List.mem_append.mp hc with hc | hc
        · exact isWordChar_of_spells hword (by decide) c hc
        · rcases hlong with rfl | hlong
          · exact absurd hc List.not_mem_nil
          · exact isWordChar_of_spells hlong (by decide) c hc
      have hfull : word ++ long ≠ [] := by
        simp [spells_ne_nil hword (by decide)]
      -- The word for a temporary table itself, with as many words left as the scope did not take.
      have htemp : ∀ (n : Nat) (place : Place Slot),
          place.rest = (word ++ long) ++ (blanks ++ rest) →
          looseRest.run (place.past ((word ++ long) ++ blanks) rest) next = some found →
          (lazyUpTo (all [name, gap]) (n + 1)).run place (fun mid => looseRest.run mid next)
            = some found := by
        intro n place hplace hnext
        refine run_lazyUpTo_word ?_ hplace hfull hchars hne hblank hstop
          (run_lazyUpTo_of_some n hnext)
        exact run_looseRest_eq_none (by rw [hplace, List.append_assoc]) hword
          (by decide) (by decide)
      have hscoped : ∀ key : String, isLetters key = true → agree key "TABLE" = false →
          Phrase [key] scope →
          (lazyUpTo (all [name, gap]) 3).run place (fun mid => looseRest.run mid next)
            = some found := by
        intro key hkey hdiffer hphrase
        obtain ⟨text, blanks', hspells, hne', hblank', rfl⟩ := phrase_singleton_iff.mp hphrase
        have hrest : place.rest = text ++ (blanks' ++ ((word ++ long) ++ (blanks ++ rest))) := by
          rw [h]
          simp
        refine run_lazyUpTo_word ?_ hrest (spells_ne_nil hspells hkey)
          (isWordChar_of_spells hspells hkey) hne' hblank' ?_ ?_
        · exact run_looseRest_eq_none hrest hspells (Bool.and_eq_true_iff.mp hkey).2 hdiffer
        · intro c hc
          rw [List.append_assoc] at hc
          exact isBlank_of_isWordChar (head?_spells hword (by decide) c hc)
        · exact htemp 1 _ rfl (by simpa using hnext)
      rcases hscope with rfl | hscope | hscope
      · exact htemp 2 place (by rw [h]; simp) (by simpa using hnext)
      · exact hscoped "GLOBAL" (by decide) (by decide) hscope
      · exact hscoped "LOCAL" (by decide) (by decide) hscope

theorem IsTemporary.head? {temporary rest : Text} (h : IsTemporary temporary)
    (hrest : ∀ c ∈ rest.head?, isBlank c = false) :
    ∀ c ∈ (temporary ++ rest).head?, isBlank c = false := by
  cases h with
  | lasting => exact hrest
  | @temporary scope word long blanks hscope hword hlong hne hblank =>
      intro c hc
      have hafter : ∀ c ∈ (word ++ (long ++ blanks ++ rest)).head?, isBlank c = false :=
        fun c hc => isBlank_of_isWordChar (head?_spells hword (by decide) c hc)
      have hsame : (scope ++ (word ++ (long ++ blanks)) ++ rest)
          = scope ++ (word ++ (long ++ blanks ++ rest)) := by simp
      rw [hsame] at hc
      rcases hscope with rfl | hscope | hscope
      · exact hafter c hc
      · exact hscope.head? (by decide) hafter c hc
      · exact hscope.head? (by decide) hafter c hc

theorem head?_bracket {space rest : Text} (hspace : ∀ c ∈ space, isBlank c = true) :
    ∀ c ∈ (space ++ '(' :: rest).head?, isNameChar c = false := by
  intro c hc
  cases space with
  | nil =>
      obtain rfl : '(' = c := by simpa using hc
      decide
  | cons d space =>
      obtain rfl : d = c := by simpa using hc
      exact isNameChar_of_isBlank (hspace d List.mem_cons_self)

/-- The name of a table in front of its list is not taken for a condition. -/
theorem not_mem_reached_condition {written space rest : Text}
    (hwritten : ∀ c ∈ written, isNameChar c = true) (hspace : ∀ c ∈ space, isBlank c = true)
    (h : place.rest = written ++ (space ++ '(' :: rest)) (mid : Place Slot) :
    ¬ mid ∈ (Grammar.leading ["IF", "NOT", "EXISTS"]).reached place := by
  intro hmid
  obtain ⟨_, rest', hrest', hphrase, -⟩ := mem_reached_leading.mp hmid
  cases hphrase with
  | @cons _ _ text blanks after hspells hne hblank htail =>
      have hafter : ∀ c ∈ (after ++ rest').head?, isWordChar c = true := by
        cases htail with
        | cons hspells' =>
            intro c hc
            rw [List.append_assoc] at hc
            exact head?_spells hspells' (by decide) c hc
      have hblanks : ∀ c ∈ (blanks ++ (after ++ rest')).head?, isNameChar c = false :=
        forall_head?_append hne (fun c hc => isNameChar_of_isBlank (hblank c hc)) _
      have heq : written ++ (space ++ '(' :: rest) = text ++ (blanks ++ (after ++ rest')) := by
        rw [← h, hrest']
        simp
      -- The first word of the condition would have to be the name, and then a bracket follows.
      obtain ⟨-, heq⟩ := append_inj_of_stop hwritten
        (fun c hc => isNameChar_of_isWordChar (isWordChar_of_spells hspells (by decide) c hc))
        (head?_bracket hspace) hblanks heq
      have hbracket : ∀ c ∈ ('(' :: rest).head?, isBlank c = false :=
        forall_head?_cons (by decide) rest
      obtain ⟨-, heq⟩ := append_inj_of_stop hspace hblank hbracket
        (fun c hc => isBlank_of_isWordChar (hafter c hc)) heq
      have hword := hafter '(' (by rw [← heq]; rfl)
      exact absurd hword (by decide)

namespace TableHead

variable (head : TableHead) (rest : Text)

theorem isNameChar_written : ∀ c ∈ head.written, isNameChar c = true := head.spelled.isNameChar

theorem head?_written : ∀ c ∈ (head.written ++ (head.space ++ '(' :: rest)).head?,
    isBlank c = false := by
  have hne : head.written ≠ [] := by simp [TableHead.written, head.spelled.nonempty]
  exact forall_head?_append hne (fun c hc => isBlank_of_isNameChar (head.isNameChar_written c hc)) _

theorem head?_condition :
    ∀ c ∈ (head.condition ++ (head.written ++ (head.space ++ '(' :: rest))).head?,
      isBlank c = false := by
  rcases head.condition_spells with hnone | hphrase
  · rw [hnone]
    exact head.head?_written rest
  · exact hphrase.head? (by decide) (head.head?_written rest)

theorem head?_table :
    ∀ c ∈ (head.table ++ (head.condition ++ (head.written ++ (head.space ++ '(' :: rest)))).head?,
      isBlank c = false :=
  head.table_spells.head? (by decide) (head.head?_condition rest)

/-- Behind the words that may be passed over the permissive pattern reads a head to its name. -/
theorem run_looseRest {place : Place Slot} (h : place.rest
    = head.table ++ (head.condition ++ (head.written ++ (head.space ++ '(' :: rest)))) :
    looseRest.run place some = some ((place.past (head.table ++ (head.condition ++ head.written))
      (head.space ++ '(' :: rest)).marked .name head.name
        (head.closing ++ (head.space ++ '(' :: rest))) := by
  have hidentifier : ∀ place : Place Slot,
      place.rest = head.written ++ (head.space ++ '(' :: rest) →
      (Grammar.identifier .name).run place some = some ((place.past head.written
        (head.space ++ '(' :: rest)).marked .name head.name
          (head.closing ++ (head.space ++ '(' :: rest))) := by
    intro place hplace
    refine run_identifier head.spelled ?_
      (endsName_of_not_isNameChar (head?_bracket head.space_blank)) rfl
    rw [hplace, TableHead.written]
    simp
  rw [run_all_cons]
  refine run_leading head.table_spells (by decide) h (head.head?_condition rest) ?_
  rw [run_all_cons]
  unfold Grammar.ifNotExists
  rcases head.condition_spells with hnone | hphrase
  · rw [hnone, List.nil_append, run_opt_of_none]
    · exact (hidentifier _ rfl).trans (by simp)
    · exact run_eq_none (not_mem_reached_condition head.isNameChar_written head.space_blank rfl)
  · refine run_opt_of_some (run_leading hphrase (by decide) rfl (head.head?_written rest) ?_)
    exact (hidentifier _ rfl).trans (by simp)

theorem run_looseTable {place : Place Slot} (h : place.rest
    = head.create ++ (head.temporary ++ (head.table ++ (head.condition ++
      (head.written ++ (head.space ++ '(' :: rest)))))) :
    Grammar.looseTable.run place some = some ((place.past (head.create ++ (head.temporary ++
      (head.table ++ (head.condition ++ head.written)))) (head.space ++ '(' :: rest)).marked .name
        head.name (head.closing ++ (head.space ++ '(' :: rest))) := by
  unfold Grammar.looseTable
  rw [run_all_cons]
  refine run_leading head.create_spells (by decide) h
    (head.temporary_spells.head? (head.head?_table rest)) ?_
  rw [run_all_cons]
  refine run_lazyUpTo_temporary head.temporary_spells rfl (head.head?_table rest) ?_
  exact (head.run_looseRest rest rfl).trans (by simp)

end TableHead

/-- No permissive match starts at a blank. -/
theorem matchAt?_looseTable_of_isBlank {c : Char} {rest : Text} (hc : isBlank c = true)
    (h : place.rest = c :: rest) : Grammar.looseTable.matchAt? place = none := by
  refine matchAt?_eq_none_iff.mpr fun mid hmid => ?_
  obtain ⟨_, hcreate, -⟩ := mem_reached_all_cons.mp hmid
  obtain ⟨front, rest', hrest', hphrase, -⟩ := mem_reached_leading.mp hcreate
  obtain ⟨text, blanks, hspells, -, -, rfl⟩ := phrase_singleton_iff.mp hphrase
  have heq : text ++ (blanks ++ rest') = c :: rest := by
    rw [← List.append_assoc, ← hrest', h]
  have hword : isWordChar c = true := head?_spells hspells (by decide) c (by rw [heq]; rfl)
  rw [isWordChar_of_isBlank hc] at hword
  exact Bool.noConfusion hword

/-- On every head the permissive search finds the same name, and it stops right behind it. -/
theorem find?_looseTable (head : TableHead) (rest : Text) :
    ∃ found, Grammar.looseTable.find? (head.before rest) = some found ∧
      found.text .name = head.name ∧ found.rest = head.space ++ '(' :: rest := by
  have hfind : Grammar.looseTable.find? (head.before rest)
      = Grammar.looseTable.findFrom? (head.indent.getLast?.or none) (0 + head.indent.length)
          (head.create ++ (head.temporary ++ (head.table ++ (head.condition ++
            (head.written ++ (head.space ++ '(' :: rest)))))) := by
    refine findFrom?_append fun near c far hsplit place _ hplace => ?_
    exact matchAt?_looseTable_of_isBlank (head.indent_blank c (by rw [hsplit]; simp)) hplace
  rw [hfind]
  exact ⟨_, findFrom?_eq_of_run (head.run_looseTable rest rfl), by simp [Match.text], rfl⟩

end Diagrams.Schema
