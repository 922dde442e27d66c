/-
Written keys, as the patterns for keys match them.

A key starts with its two words, or with the name of a constraint in front of them, and the patterns
for keys look for the words behind such a name, which they pass over.  From then on a written key
leaves the patterns no choice: each repetition ends where the next character is of another class.
-/
import Diagrams.Proofs.Schema.Names
import Diagrams.Proofs.Schema.Draft

namespace Diagrams.Schema

open Pattern

variable {place : Place Slot} {next : Continuation Slot} {found : Place Slot}

/-- Every word spells itself. -/
theorem spells_self (word : String) : Spells word word.toList :=
  List.forall₂_same.mpr fun _ _ => matchesLetter_iff.mpr (.inl rfl)

/-- Where no constraint is named, the pattern for its name covers nothing. -/
theorem reached_constraintName (hfirst : ∀ c ∈ place.rest.head?, isBlank c = false)
    (hword : ∀ mid, ¬ mid ∈ (Grammar.leading ["CONSTRAINT"]).reached place) :
    Grammar.constraintName.reached place = [place] := by
  have hspaces : (spaces : Pattern Slot).reached place = [place] :=
    Place.reach_of_stop hfirst .greedy
  have hname : (all [Grammar.leading ["CONSTRAINT"], Grammar.qualified name, gap]).reached place
      = [] := by
    refine List.eq_nil_iff_forall_not_mem.mpr fun mid hmid => ?_
    obtain ⟨_, hleading, -⟩ := mem_reached_all_cons.mp hmid
    exact hword _ hleading
  have hopt : (opt (all [Grammar.leading ["CONSTRAINT"], Grammar.qualified name,
      gap])).reached place = [place] := by
    show (all [Grammar.leading ["CONSTRAINT"], Grammar.qualified name, gap]).reached
      place ++ [place] = _
    rw [hname]
    rfl
  unfold Grammar.constraintName
  rw [reached_all_cons, hspaces, List.flatMap_singleton, reached_all_cons, hopt,
    List.flatMap_singleton]
  rfl

theorem run_constraintName (hfirst : ∀ c ∈ place.rest.head?, isBlank c = false)
    (hword : ∀ mid, ¬ mid ∈ (Grammar.leading ["CONSTRAINT"]).reached place) :
    Grammar.constraintName.run place next = next place := by
  rw [run_eq_findSome?, reached_constraintName hfirst hword]
  cases h : next place <;> simp [h]

/-- A pair of words with one space between them. -/
theorem run_phrase {first second : String} {text text' rest : Text}
    (h : place.rest = text ++ ' ' :: (text' ++ rest)) (hfirst : Spells first text)
    (hspells : Spells second text') (hsecond : isLetters second = true)
    (hnext : next (place.past (text ++ ' ' :: text') rest) = some found) :
    (Grammar.phrase [first, second]).run place next = some found := by
  show (all [keyword first, gap, keyword second]).run place next = some found
  rw [run_all_cons, run_keyword h hfirst, run_all_cons]
  refine run_atLeastOne rfl (List.cons_ne_nil ' ' []) forall_blank_space (fun c hc => ?_) ?_
  · exact isBlank_of_isWordChar (head?_spells hspells hsecond c hc)
  · rw [run_all_cons, run_keyword rfl hspells]
    simpa using hnext

theorem not_mem_reached_phrase {word first second : String} {rest : Text}
    (h : place.rest = word.toList ++ rest) (hword : word.toList.all Char.isAlpha = true)
    (hfirst : first.toList.all Char.isAlpha = true) (hdiffer : agree word first = false)
    (mid : Place Slot) : ¬ mid ∈ (Grammar.phrase [first, second]).reached place := by
  intro hmid
  obtain ⟨_, hkeyword, -⟩ := mem_reached_all_cons.mp
    (show mid ∈ (all [keyword first, gap, keyword second]).reached place from hmid)
  obtain ⟨text, rest', hrest', hspells, -⟩ := mem_reached_keyword.mp hkeyword
  have hagree := agree_of_spells hword hfirst (spells_self word) hspells (h.symm.trans hrest')
  rw [hdiffer] at hagree
  exact Bool.noConfusion hagree

namespace Written

/-- In front of a bracket there is neither the name of an index nor its method. -/
theorem run_indexName {rest : Text} (h : place.rest = '(' :: rest) :
    Grammar.indexName.run place next = next place := by
  refine run_opt_of_none (run_eq_none fun mid hmid => ?_)
  obtain ⟨_, hname, -⟩ := mem_reached_all_cons.mp hmid
  obtain ⟨front, rest', hrest', hne, hword, -⟩ := mem_reached_atLeastOne.mp hname
  obtain ⟨c, front, rfl⟩ := List.exists_cons_of_ne_nil hne
  obtain ⟨rfl, -⟩ := List.cons.inj (h.symm.trans hrest')
  exact absurd (hword '(' List.mem_cons_self) (by decide)

theorem run_indexMethod {rest : Text} (h : place.rest = '(' :: rest) :
    Grammar.indexMethod.run place next = next place := by
  refine run_opt_of_none (run_eq_none fun mid hmid => ?_)
  obtain ⟨_, hleading, -⟩ := mem_reached_all_cons.mp hmid
  obtain ⟨_, rest', hrest', hphrase, -⟩ := mem_reached_leading.mp hleading
  cases hphrase with
  | @cons _ _ text blanks after hspells hne hblank htail =>
      rw [h, List.append_assoc] at hrest'
      have hword : isWordChar '(' = true :=
        head?_spells hspells (by decide) '(' (by rw [← hrest']; rfl)
      exact absurd hword (by decide)

/-- A list in brackets is matched whole. -/
theorem run_columnList {slot : Slot} {inner rest : Text} (h : place.rest = bracketed inner ++ rest)
    (hne : inner ≠ []) (hinner : ∀ c ∈ inner, c ≠ ')')
    (hnext : next ((place.past (bracketed inner) rest).marked slot inner (')' :: rest))
      = some found) : (Grammar.columnList slot).run place next = some found := by
  have hrest : place.rest = '(' :: (inner ++ ')' :: rest) := by
    rw [h]
    simp [bracketed]
  unfold Grammar.columnList
  rw [run_all_cons, run_lit hrest, run_all_cons, run_noted]
  refine run_atLeastOne rfl hne (by simpa using hinner) (fun c hc => ?_) ?_
  · obtain rfl : ')' = c := by simpa using hc
    rfl
  · rw [Place.note_past _ rfl, run_all_cons, run_lit rfl]
    simpa [bracketed] using hnext

/-- What belongs to no name is in no list of names, but for the signs between them. -/
theorem not_mem_nameList {names : List Name} (h : NamesWellFormed names) {sign : Char}
    (hseparator : sign ∉ partSeparator) (hsign : Schema.isNameChar sign = false) :
    sign ∉ nameList names := by
  have hne : ∀ c ∈ nameList names, c ≠ sign := by
    refine Text.forall_mem_joined (fun c hc heq => hseparator (heq ▸ hc)) fun text htext => ?_
    obtain ⟨written, hwritten, rfl⟩ := List.mem_map.mp htext
    rintro c hc rfl
    exact absurd ((Name.isNameChar (h.names written hwritten) c hc).symm.trans hsign) (by decide)
  exact fun hmem => hne sign hmem rfl

theorem ne_bracket_of_nameList {names : List Name} (h : NamesWellFormed names) :
    ∀ c ∈ nameList names, c ≠ ')' :=
  fun c hc heq => not_mem_nameList h (by decide) (by decide) (heq ▸ hc)

theorem nameList_ne_nil {names : List Name} (h : NamesWellFormed names) : nameList names ≠ [] := by
  obtain ⟨written, others, rfl⟩ := List.exists_cons_of_ne_nil h.nonempty
  have hwritten := Name.ne_nil (h.names written List.mem_cons_self)
  unfold nameList
  cases others with
  | nil => simpa using hwritten
  | cons other others =>
      rw [List.map_cons, List.map_cons, Text.joined_cons_cons]
      simp [hwritten]

theorem phrase_spaced (words : List String) : Phrase words (spaced words) := by
  induction words with
  | nil => exact .nil
  | cons word words ih =>
      exact .cons (spells_self word) (List.cons_ne_nil ' ' []) forall_blank_space ih

/-- A written name is matched whole in front of a character that belongs to no name. -/
theorem run_identifier_text {slot : Slot} {written : Name} {rest : Text}
    (h : isIdentifier written.name = true) (hrest : place.rest = written.text ++ rest)
    (hstop : ∀ c ∈ rest.head?, isNameChar c = false)
    (hnext : next ((place.past written.text rest).marked slot written.name
      (written.quotes.closing ++ rest)) = some found) :
    (Grammar.identifier slot).run place next = some found := by
  refine run_identifier (Name.spelled h) ?_ (endsName_of_not_isNameChar hstop) hnext
  rw [hrest, Name.text]
  simp

theorem head?_bracketed (inner rest : Text) :
    ∀ c ∈ (bracketed inner ++ rest).head?, isNameChar c = false := by
  intro c hc
  obtain rfl : '(' = c := by simpa [bracketed] using hc
  decide

/-- A word that starts where a name is written is the name. -/
theorem Name.eq_of_word {written : Name} (h : isIdentifier written.name = true)
    {word rest after : Text} (heq : written.text ++ after = word ++ rest) (hne : word ≠ [])
    (hword : ∀ c ∈ word, isWordChar c = true) (hrest : ∀ c ∈ rest.head?, isWordChar c = false)
    (hafter : ∀ c ∈ after.head?, isWordChar c = false) : word = written.name := by
  have hspelled := Name.spelled h
  have hopening : written.quotes.opening = [] := by
    rcases hspelled.opening with hnil | ⟨c, hc, hquote⟩
    · exact hnil
    · obtain ⟨d, word, rfl⟩ := List.exists_cons_of_ne_nil hne
      rw [Name.text, hquote] at heq
      obtain ⟨rfl, -⟩ := List.cons.inj heq
      have hletter := hword c List.mem_cons_self
      rw [isWordChar_of_isOpenQuote hc] at hletter
      exact Bool.noConfusion hletter
  have hclosing : written.quotes.closing = [] := by
    cases hquotes : written.quotes with
    | none => rfl
    | backticks | doubleQuotes | brackets => simp [hquotes, Quotes.opening] at hopening
  rw [Name.text, hopening, hclosing, List.nil_append, List.append_nil] at heq
  exact (append_inj_of_stop hword (isWordChar_of_isIdentifier h) hrest hafter heq.symm).1

/-- Where a name is written, only words of its own capitals are spelled. -/
theorem Name.capitals_of_spells {written : Name} (h : isIdentifier written.name = true)
    {word : String} {text rest after : Text} (heq : written.text ++ after = text ++ rest)
    (hspells : Spells word text) (hletters : isLetters word = true)
    (hcapitals : word.toList.all Char.isUpper = true)
    (hrest : ∀ c ∈ rest.head?, isWordChar c = false)
    (hafter : ∀ c ∈ after.head?, isWordChar c = false) : written.name.capitals = word.toList := by
  have hname := Name.eq_of_word h heq (spells_ne_nil hspells hletters)
    (isWordChar_of_spells hspells hletters) hrest hafter
  have hplain : ∀ c ∈ text, c.isAlphanum = true ∨ c = '_' := by
    rw [hname]
    exact isAlphanum_of_isIdentifier h
  have hdot : '\u0130' ∉ text := fun hmem => absurd (hplain _ hmem) (by decide)
  have hkelvin : '\u212a' ∉ text := fun hmem => absurd (hplain _ hmem) (by decide)
  rw [← hname, hspells.capitals hcapitals hdot hkelvin]

/-! ### The name of a constraint -/

/-- A constraint may be named, and its name is written. -/
def ConstraintWellFormed (constraint : Option Name) : Prop :=
  ∀ name ∈ constraint, isIdentifier name.name = true

instance (constraint : Option Name) : Decidable (ConstraintWellFormed constraint) :=
  inferInstanceAs (Decidable (∀ name ∈ constraint, isIdentifier name.name = true))

/-- The name of a constraint can stand in front of any text. -/
theorem solid_constraintText (constraint : Option Name) {text : Text} (h : Solid text) :
    Solid (constraintText constraint ++ text) := by
  cases constraint with
  | none => exact h
  | some name =>
      have hword : isLetters "CONSTRAINT" = true := by decide
      have hnamed := (solid_letters hword).append (' ' :: (name.text ++ [' '])) h
      simpa only [constraintText, spaced, List.append_assoc, List.cons_append, List.nil_append]
        using hnamed

theorem uncut_constraintText {isQuote : Char → Bool} (hquotes : QuotesApart isQuote)
    {constraint : Option Name} (h : ConstraintWellFormed constraint) :
    Uncut isQuote (constraintText constraint) := by
  cases constraint with
  | none => exact .nil
  | some name =>
      exact (uncut_spaced hquotes (by decide)).append
        ((Name.uncut hquotes (h name rfl)).append (uncut_space hquotes))

theorem constraintText_some (name : Name) (rest : Text) :
    constraintText (some name) ++ rest
      = "CONSTRAINT".toList ++ ' ' :: (name.text ++ ' ' :: rest) := by
  simp only [constraintText, spaced, List.append_assoc, List.cons_append, List.nil_append]

theorem Name.head?_text {written : Name} (h : isIdentifier written.name = true) (rest : Text) :
    ∀ c ∈ (written.text ++ rest).head?, isBlank c = false :=
  (Name.solid h).head?_append rest

theorem head?_blanks {blanks rest : Text} (hne : blanks ≠ []) (h : ∀ c ∈ blanks, isBlank c = true) :
    ∀ c ∈ (blanks ++ rest).head?, isWordChar c = false :=
  forall_head?_append hne (fun c hc => isWordChar_of_isBlank (h c hc)) rest

theorem head?_letters {word : String} (h : isLetters word = true) (rest : Text) :
    ∀ c ∈ (word.toList ++ rest).head?, isBlank c = false :=
  fun c hc => isBlank_of_isWordChar (head?_spells (spells_self word) h c hc)

/-- The name of a constraint is passed over, whether it is there or not. -/
theorem run_constraintText {constraint : Option Name} {word : String} {rest : Text}
    (hconstraint : ConstraintWellFormed constraint) (hword : isLetters word = true)
    (hdiffer : agree word "CONSTRAINT" = false)
    (h : place.rest = constraintText constraint ++ (word.toList ++ rest))
    (hnext : next (place.past (constraintText constraint) (word.toList ++ rest)) = some found) :
    Grammar.constraintName.run place next = some found := by
  cases constraint with
  | none =>
      have h : place.rest = word.toList ++ rest := h
      have hnext : next (place.past [] (word.toList ++ rest)) = some found := hnext
      rw [Place.past_nil h] at hnext
      rw [run_constraintName, hnext]
      · rw [h]
        exact head?_letters hword rest
      · exact not_mem_reached_leading h (spells_self word) (Bool.and_eq_true_iff.mp hword).2
          (by decide) hdiffer
  | some name =>
      have hname : isIdentifier name.name = true := hconstraint name rfl
      rw [constraintText_some] at h
      have hwritten : ∀ c ∈ (name.text ++ ' ' :: (word.toList ++ rest)).head?, isBlank c = false :=
        Name.head?_text hname _
      have hspace : ∀ c ∈ (' ' :: (word.toList ++ rest)).head?, Schema.isNameChar c = false :=
        forall_head?_cons (by decide) _
      have hplace : place.rest = spaced ["CONSTRAINT"] ++
          (name.text ++ ' ' :: (word.toList ++ rest)) := by
        rw [h]
        simp only [spaced, List.append_assoc, List.cons_append, List.nil_append]
      unfold Grammar.constraintName
      rw [run_all_cons, run_spaces_of_stop, run_all_cons]
      · refine run_opt_of_some ?_
        rw [run_all_cons]
        refine run_leading (phrase_spaced _) (by decide) hplace hwritten ?_
        rw [run_all_cons]
        refine run_qualified_name (Name.spelled hname) ?_ (endsName_of_not_isNameChar hspace) ?_
        · simp only [Place.rest_past, Name.text, List.append_assoc, List.nil_append]
        rw [run_all_cons]
        refine run_gap_space rfl (head?_letters hword rest) ?_
        rw [run_all_nil, run_all_nil]
        simpa [constraintText, Name.text] using hnext
      · rw [h]
        exact head?_letters (by decide) _

/-- One space in front of a character that is not blank is the only gap there. -/
theorem eq_of_mem_reached_gap {mid : Place Slot} {rest : Text} (h : place.rest = ' ' :: rest)
    (hstop : ∀ c ∈ rest.head?, isBlank c = false)
    (hmid : mid ∈ (gap : Pattern Slot).reached place) :
    mid = place.past [' '] rest := by
  obtain ⟨blanks, rest', hrest', hne, hblank, rfl⟩ := mem_reached_atLeastOne.mp hmid
  obtain ⟨c, blanks, rfl⟩ := List.exists_cons_of_ne_nil hne
  obtain ⟨rfl, hbehind⟩ := List.cons.inj (h.symm.trans hrest')
  cases blanks with
  | nil =>
      obtain rfl : rest = rest' := hbehind
      rfl
  | cons d blanks =>
      have hd := hblank d (by simp)
      rw [hstop d (by rw [hbehind]; rfl)] at hd
      exact Bool.noConfusion hd

/-- The name of a constraint is left in one way only, so what follows is what was written there. -/
theorem rest_of_mem_reached_named {written : Name} {rest : Text} {mid : Place Slot}
    (hname : isIdentifier written.name = true) (hrest : ∀ c ∈ rest.head?, isBlank c = false)
    (h : place.rest = "CONSTRAINT".toList ++ ' ' :: (written.text ++ ' ' :: rest))
    (hmid : mid ∈ (all [Grammar.leading ["CONSTRAINT"], Grammar.qualified name, gap]).reached
      place) : mid.rest = rest := by
  obtain ⟨_, hleading, hmid⟩ := mem_reached_all_cons.mp hmid
  obtain ⟨_, hqualified, hgap⟩ := mem_reached_all_cons.mp hmid
  have hgap : mid ∈ (gap : Pattern Slot).reached _ := hgap
  obtain ⟨front, rest₁, hrest₁, hphrase, rfl⟩ := mem_reached_leading.mp hleading
  obtain ⟨text, blanks, hspells, hne, hblank, rfl⟩ := phrase_singleton_iff.mp hphrase
  obtain ⟨opening, qualifier, closing, rest₂, rest₃, _, hlast, hopening, hqualifier, hclosing,
    hrest₂, hrest₃, rfl⟩ := mem_reached_qualified.mp hqualified
  obtain ⟨inner, rest₄, hrest₄, hnonempty, hinner, rfl⟩ := mem_reached_atLeastOne.mp hlast
  have hspelled : Spelled opening qualifier inner closing :=
    ⟨hopening, hqualifier, hnonempty, hinner, hclosing⟩
  simp only [Place.rest_past] at hrest₂ hrest₃ hrest₄
  have hbehind : rest₁ = (opening ++ (qualifier ++ (inner ++ closing))) ++ rest₃ := by
    rw [hrest₂, hrest₄, hrest₃]
    simp
  have hstart : ∀ c ∈ rest₁.head?, isBlank c = false := by
    have hsome : opening ++ (qualifier ++ (inner ++ closing)) ≠ [] := by simp [hnonempty]
    rw [hbehind]
    exact forall_head?_append hsome hspelled.not_blank rest₃
  have hend : ∀ c ∈ rest₃.head?, Schema.isNameChar c = false := by
    obtain ⟨c, hc, hblank⟩ := Opens.atLeastOne _ _ hgap
    intro d hd
    obtain rfl : c = d := Option.mem_unique hc hd
    exact isNameChar_of_isBlank hblank
  -- The word, the blanks and the name are cut off the written text one after another.
  have hsplit : "CONSTRAINT".toList ++ ' ' :: (written.text ++ ' ' :: rest)
      = text ++ (blanks ++ rest₁) := by
    rw [← h, hrest₁, List.append_assoc]
  obtain ⟨-, hsplit⟩ := append_inj_of_stop (isWordChar_of_isLetters (by decide))
    (isWordChar_of_spells hspells (by decide)) (forall_head?_cons (by decide) _)
    (head?_blanks hne hblank) hsplit
  obtain ⟨-, hsplit⟩ := append_inj_of_stop forall_blank_space hblank
    (Name.head?_text hname _) hstart hsplit
  rw [hbehind] at hsplit
  obtain ⟨-, hsplit⟩ := append_inj_of_stop (Name.isNameChar hname) hspelled.isNameChar
    (forall_head?_cons (by decide) _) hend hsplit
  rw [eq_of_mem_reached_gap hsplit.symm hrest hgap]
  rfl

/-- Behind the name of a constraint comes the word that was written there, or the word that names
constraints if the name is not passed over. -/
theorem exists_word_of_mem_reached_constraintName {constraint : Option Name} {word : String}
    {rest : Text} {mid : Place Slot} (hconstraint : ConstraintWellFormed constraint)
    (hword : isLetters word = true) (hdiffer : agree word "CONSTRAINT" = false)
    (h : place.rest = constraintText constraint ++ (word.toList ++ rest))
    (hmid : mid ∈ Grammar.constraintName.reached place) :
    ∃ first rest', (first = "CONSTRAINT" ∨ first = word) ∧ mid.rest = first.toList ++ rest' := by
  cases constraint with
  | none =>
      have h : place.rest = word.toList ++ rest := h
      rw [reached_constraintName] at hmid
      · obtain rfl := List.mem_singleton.mp hmid
        exact ⟨word, rest, .inr rfl, h⟩
      · rw [h]
        exact head?_letters hword rest
      · exact not_mem_reached_leading h (spells_self word) (Bool.and_eq_true_iff.mp hword).2
          (by decide) hdiffer
  | some name =>
      rw [constraintText_some] at h
      obtain ⟨here, hspaces, hopt⟩ := mem_reached_all_cons.mp hmid
      have hstay : (spaces : Pattern Slot).reached place = [place] :=
        Place.reach_of_stop (by rw [h]; exact head?_letters (by decide) _) .greedy
      rw [hstay, List.mem_singleton] at hspaces
      rw [hspaces] at hopt
      rcases mem_reached_opt.mp hopt with hnamed | rfl
      · have hrest := rest_of_mem_reached_named (hconstraint name rfl) (head?_letters hword rest) h
          hnamed
        exact ⟨word, rest, .inr rfl, hrest⟩
      · exact ⟨"CONSTRAINT", _, .inl rfl, h⟩

/-- What a written foreign key refers to is read with its list. -/
theorem run_references {target : Name} {targetColumns : List Name} {rest : Text}
    (htarget : isIdentifier target.name = true) (hcolumns : NamesWellFormed targetColumns)
    (h : place.rest = spaced ["REFERENCES"] ++ (target.text ++
      (bracketed (nameList targetColumns) ++ rest)))
    (hnext : next (((place.past (spaced ["REFERENCES"] ++ (target.text ++
        bracketed (nameList targetColumns))) rest).marked .target target.name
          (target.quotes.closing ++ (bracketed (nameList targetColumns) ++ rest))).marked
            .targetColumns (nameList targetColumns) (')' :: rest)) = some found) :
    Grammar.references.run place next = some found := by
  unfold Grammar.references
  rw [run_all_cons]
  refine run_leading (phrase_spaced _) (by decide) h (Name.head?_text htarget _) ?_
  rw [run_all_cons]
  refine run_identifier_text htarget rfl (head?_bracketed (nameList targetColumns) rest) ?_
  rw [run_all_cons]
  refine run_spaces_none rfl (by decide) ?_
  rw [run_all_cons]
  refine run_opt_of_some (run_columnList rfl (nameList_ne_nil hcolumns)
    (ne_bracket_of_nameList hcolumns) ?_)
  simpa using hnext

/-- The columns of a written foreign key are read with what they refer to. -/
theorem run_foreignLists {columns targetColumns : List Name} {target : Name} (rest : Text)
    (h : (Key.foreign columns target targetColumns).WellFormed)
    (hrest : place.rest = bracketed (nameList columns) ++ ' ' :: (spaced ["REFERENCES"] ++
      (target.text ++ (bracketed (nameList targetColumns) ++ rest))))
    (hnext : next ((((place.past (bracketed (nameList columns) ++ ' ' :: (spaced ["REFERENCES"] ++
        (target.text ++ bracketed (nameList targetColumns)))) rest).marked .columns
          (nameList columns) (')' :: ' ' :: (spaced ["REFERENCES"] ++ (target.text ++
            (bracketed (nameList targetColumns) ++ rest))))).marked .target target.name
              (target.quotes.closing ++ (bracketed (nameList targetColumns) ++ rest))).marked
                .targetColumns (nameList targetColumns) (')' :: rest)) = some found) :
    (all [Grammar.columnList .columns, spaces, Grammar.references]).run place next
      = some found := by
  obtain ⟨hcolumns, htarget, htargetColumns⟩ := h
  rw [run_all_cons]
  refine run_columnList hrest (nameList_ne_nil hcolumns) (ne_bracket_of_nameList hcolumns) ?_
  rw [run_all_cons]
  have hword : ∀ c ∈ (spaced ["REFERENCES"] ++ (target.text ++
      (bracketed (nameList targetColumns) ++ rest))).head?, isBlank c = false :=
    (phrase_spaced _).head? (by decide) (Name.head?_text htarget _)
  refine run_many_greedy rfl forall_blank_space hword ?_
  rw [run_all_cons]
  refine run_references htarget htargetColumns rfl ?_
  rw [run_all_nil]
  simpa using hnext

/-! ### Whole keys -/

theorem Key.text_primary (columns : List Name) : (Key.primary columns).text = "PRIMARY".toList ++
    ' ' :: ("KEY".toList ++ ' ' :: bracketed (nameList columns)) := by
  simp only [Key.text, spaced, List.append_assoc, List.cons_append, List.nil_append]

theorem Key.text_foreign (columns targetColumns : List Name) (target : Name) :
    (Key.foreign columns target targetColumns).text = "FOREIGN".toList ++ ' ' ::
      ("KEY".toList ++ ' ' :: (bracketed (nameList columns) ++ ' ' :: (spaced ["REFERENCES"] ++
        (target.text ++ bracketed (nameList targetColumns))))) := by
  simp only [Key.text, spaced, List.append_assoc, List.cons_append, List.nil_append]

/-- Two words and a list are a primary key, whatever the list holds. -/
theorem run_primaryKeyAnywhere {first second blanks inner rest : Text}
    (hfirst : Spells "PRIMARY" first) (hsecond : Spells "KEY" second)
    (hblank : ∀ c ∈ blanks, isBlank c = true) (hne : inner ≠ []) (hinner : ∀ c ∈ inner, c ≠ ')')
    (h : place.rest = (first ++ ' ' :: (second ++ (blanks ++ bracketed inner))) ++ rest)
    (hnext : next
      ((place.past (first ++ ' ' :: (second ++ (blanks ++ bracketed inner))) rest).marked
        .columns inner (')' :: rest)) = some found) :
    Grammar.primaryKeyAnywhere.run place next = some found := by
  have htext : place.rest = first ++ ' ' :: (second ++ (blanks ++ (bracketed inner ++ rest))) := by
    rw [h]
    simp
  unfold Grammar.primaryKeyAnywhere
  rw [run_all_cons]
  refine run_phrase htext hfirst hsecond (by decide) ?_
  rw [run_all_cons]
  refine run_many_greedy rfl hblank (forall_head?_cons (by decide) _) ?_
  rw [run_all_cons, run_indexMethod rfl, run_all_cons]
  refine run_columnList rfl hne hinner ?_
  rw [run_all_nil]
  simpa using hnext

/-- A written foreign key is a foreign key wherever it stands. -/
theorem run_foreignKeyAnywhere {columns targetColumns : List Name} {target : Name} {rest : Text}
    (hkey : (Key.foreign columns target targetColumns).WellFormed)
    (h : place.rest = (Key.foreign columns target targetColumns).text ++ rest)
    (hnext : next
      ((((place.past (Key.foreign columns target targetColumns).text rest).marked .columns
        (nameList columns) (')' :: ' ' :: (spaced ["REFERENCES"] ++ (target.text ++
          (bracketed (nameList targetColumns) ++ rest))))).marked .target target.name
            (target.quotes.closing ++ (bracketed (nameList targetColumns) ++ rest))).marked
              .targetColumns (nameList targetColumns) (')' :: rest)) = some found) :
    Grammar.foreignKeyAnywhere.run place next = some found := by
  rw [Key.text_foreign] at h hnext
  have htext : place.rest = "FOREIGN".toList ++ ' ' :: ("KEY".toList ++
      (' ' :: (bracketed (nameList columns) ++ ' ' :: (spaced ["REFERENCES"] ++
        (target.text ++ (bracketed (nameList targetColumns) ++ rest)))))) := by
    rw [h]
    simp only [List.append_assoc, List.cons_append]
  unfold Grammar.foreignKeyAnywhere
  rw [run_all_cons]
  refine run_phrase htext (spells_self _) (spells_self _) (by decide) ?_
  rw [run_all_cons]
  refine run_spaces_space rfl (by decide) ?_
  refine run_foreignLists rest hkey rfl ?_
  simpa using hnext

section

variable {constraint : Option Name}

/-- A primary key is read with its list up to the first bracket that closes one. -/
theorem matchStart?_primaryKeyPart_bracketed {inner rest : Text}
    (hconstraint : ConstraintWellFormed constraint) (hne : inner ≠ [])
    (hinner : ∀ c ∈ inner, c ≠ ')') :
    ∃ found, Grammar.primaryKeyPart.matchStart?
        (constraintText constraint ++ (spaced ["PRIMARY", "KEY"] ++ (bracketed inner ++ rest)))
          = some found ∧
      found.text .columns = inner := by
  let text := constraintText constraint ++ (spaced ["PRIMARY", "KEY"] ++ (bracketed inner ++ rest))
  have htext : text = constraintText constraint ++ ("PRIMARY".toList ++ ' ' :: ("KEY".toList ++
      ' ' :: (bracketed inner ++ rest))) := by
    simp only [text, spaced, List.append_assoc, List.cons_append, List.nil_append]
  have hrun : Grammar.primaryKeyPart.run (.start text) some
      = some (((Place.start text : Place Slot).past (constraintText constraint ++
          (spaced ["PRIMARY", "KEY"] ++ bracketed inner)) rest).marked .columns inner
            (')' :: rest)) := by
    unfold Grammar.primaryKeyPart
    rw [run_all_cons]
    refine run_constraintText hconstraint (by decide) (by decide) htext ?_
    rw [run_all_cons]
    refine run_phrase rfl (spells_self _) (spells_self _) (by decide) ?_
    rw [run_all_cons]
    refine run_spaces_space rfl (by decide) ?_
    rw [run_all_cons, run_indexName rfl, run_all_cons, run_indexMethod rfl, run_all_cons]
    refine run_columnList rfl hne hinner ?_
    rw [run_all_nil, Place.past_past, Place.past_past, Place.past_past]
    simp [spaced]
  refine ⟨_, by rw [matchStart?, matchAt?, hrun]; rfl, ?_⟩
  simp [Match.text]

/-- A written primary key is read with its list of columns. -/
theorem matchStart?_primaryKeyPart {columns : List Name}
    (hconstraint : ConstraintWellFormed constraint) (h : NamesWellFormed columns) :
    ∃ found, Grammar.primaryKeyPart.matchStart?
        (constraintText constraint ++ (Key.primary columns).text) = some found ∧
      found.text .columns = nameList columns := by
  have hmatch := @matchStart?_primaryKeyPart_bracketed constraint _ [] hconstraint
    (nameList_ne_nil h) (ne_bracket_of_nameList h)
  rwa [List.append_nil] at hmatch

/-- A written foreign key is read with its lists and the table that it refers to. -/
theorem matchStart?_foreignKeyPart {columns targetColumns : List Name} {target : Name}
    (hconstraint : ConstraintWellFormed constraint)
    (h : (Key.foreign columns target targetColumns).WellFormed) :
    ∃ found, Grammar.foreignKeyPart.matchStart?
        (constraintText constraint ++ (Key.foreign columns target targetColumns).text)
        = some found ∧
      found.text .columns = nameList columns ∧ found.text .target = target.name ∧
      found.text? .targetColumns = some (nameList targetColumns) := by
  let text := constraintText constraint ++ (Key.foreign columns target targetColumns).text
  have hrun : Grammar.foreignKeyPart.run (.start text) some
      = some (((((Place.start text : Place Slot).past text []).marked .columns (nameList columns)
            (')' :: ' ' :: (spaced ["REFERENCES"] ++ (target.text ++
              bracketed (nameList targetColumns))))).marked .target target.name
                (target.quotes.closing ++ bracketed (nameList targetColumns))).marked .targetColumns
                  (nameList targetColumns) [')']) := by
    unfold Grammar.foreignKeyPart
    rw [run_all_cons]
    refine run_constraintText hconstraint (by decide) (by decide)
      (congrArg (constraintText constraint ++ ·) (Key.text_foreign columns targetColumns target)) ?_
    rw [run_all_cons]
    refine run_phrase rfl (spells_self _) (spells_self _) (by decide) ?_
    rw [run_all_cons]
    refine run_spaces_space rfl (by decide) ?_
    rw [run_all_cons, run_indexName rfl]
    refine run_foreignLists [] h ?_ ?_
    · rw [Place.rest_past, List.append_nil]
      rfl
    · simp [text, Key.text_foreign]
  refine ⟨_, by rw [matchStart?, matchAt?, hrun]; rfl, ?_, ?_, ?_⟩
  · simp [Match.text]
  · simp [Match.text]
  · simp

/-- A written foreign key is no primary key. -/
theorem matchStart?_primaryKeyPart_foreign (hconstraint : ConstraintWellFormed constraint)
    (columns targetColumns : List Name) (target : Name) :
    Grammar.primaryKeyPart.matchStart?
      (constraintText constraint ++ (Key.foreign columns target targetColumns).text) = none := by
  refine matchStart?_eq_none_iff.mpr fun mid hmid => ?_
  obtain ⟨mid', hname, hrest⟩ := mem_reached_all_cons.mp hmid
  obtain ⟨_, hphrase, -⟩ := mem_reached_all_cons.mp hrest
  obtain ⟨first, rest, hfirst, hrest⟩ := exists_word_of_mem_reached_constraintName hconstraint
    (by decide) (by decide)
    (congrArg (constraintText constraint ++ ·)
      (Key.text_foreign columns targetColumns target)) hname
  rcases hfirst with rfl | rfl
  · exact not_mem_reached_phrase hrest (by decide) (by decide) (by decide) _ hphrase
  · exact not_mem_reached_phrase hrest (by decide) (by decide) (by decide) _ hphrase

/-- Reading a written key adds what it stands for to a draft. -/
theorem readPart_key (draft : Draft) {key : Key} (hconstraint : ConstraintWellFormed constraint)
    (h : key.WellFormed) :
    readPart draft (constraintText constraint ++ key.text) = .ok { draft with
      primaryKeys := draft.primaryKeys ++ key.primaryColumns.map Name.name
      foreignKeys := draft.foreignKeys ++ key.references draft.table } := by
  have hne : constraintText constraint ++ key.text ≠ [] := by simp [key.solid.ne_nil]
  cases key with
  | primary columns =>
      obtain ⟨found, hfound, hcolumns⟩ := matchStart?_primaryKeyPart hconstraint h
      have hreading := (readPart_eq_ok_iff draft _ _).mpr ⟨hne, .primaryKey hfound⟩
      rw [hreading, Draft.addPrimaryKey, hcolumns, identifierList_nameList h]
      simp [Key.primaryColumns, Key.references]
  | foreign columns target targetColumns =>
      obtain ⟨found, hfound, hcolumns, htarget, htargetColumns⟩ :=
        matchStart?_foreignKeyPart hconstraint h
      have hnone := matchStart?_primaryKeyPart_foreign hconstraint columns targetColumns target
      have hreading := (readPart_eq_ok_iff draft _ _).mpr ⟨hne, .foreignKey hnone hfound⟩
      rw [hreading, Draft.addForeignKeys, hcolumns, htarget, htargetColumns, foreignKeys_nameList h]
      simp [Key.primaryColumns]

end

end Written

end Diagrams.Schema
