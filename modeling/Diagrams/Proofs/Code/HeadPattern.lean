/-
How the head of a declaration is matched.

The lists of supertypes and interfaces end at the first place from which the rest of the pattern
matches.  There the rest wants the brace of the body or, behind a blank, one of the words in
front of another list.  Inside of a list there is neither, for its types hold no brace and no
word of the language, and it ends with no blank (`Inside.not_mem_clause`,
`Inside.not_mem_brace`).  So each list is noted whole.
-/
import Diagrams.Proofs.Code.SourceText

namespace Diagrams.Code.Written

open Pattern

variable {place mid : Place Slot} {next : Continuation Slot} {found : Place Slot}

theorem isLetters_languageWords : ∀ word ∈ languageWords, isLetters word = true := by decide

theorem isLetters_declaringWords : ∀ word ∈ declaringWords, isLetters word = true :=
  fun word hword => isLetters_languageWords word (declaringWords_subset word hword)

/-! ### Inside of a list -/

/-- The second text is what is left of a list of types behind the first. -/
structure Inside (near far : Text) : Prop where
  nonempty : far ≠ []
  avoids : Avoids languageWords (near ++ far)
  chars : ∀ c ∈ far, isTypeChar c = true
  last : ∀ c ∈ far.getLast?, isBlank c = false

theorem inside_typeNames {types : List TypeName} {near far : Text}
    (h : ∀ type ∈ types, type.WellFormed)
    (hsplit : typeNames types = near ++ far) (hne : far ≠ []) : Inside near far := by
  have htypes : types ≠ [] := by
    rintro rfl
    exact hne (List.append_eq_nil_iff.mp hsplit.symm).2
  refine ⟨hne, hsplit ▸ avoids_typeNames h, fun c hc => ?_, fun c hc => ?_⟩
  · exact isTypeChar_typeNames h c (hsplit ▸ List.mem_append_right near hc)
  · refine (solid_typeNames h htypes).getLast? c ?_
    rw [hsplit, List.getLast?_append_of_ne_nil _ hne]
    exact hc

/-- A list of types behind a word. -/
def clauseOf (word : String) (ps : List (Pattern Slot)) : Pattern Slot :=
  all (gap :: exactly word :: gap :: ps)

namespace Inside

variable {near far after : Text}

/-- What is left of a list is not blank. -/
theorem ne_append (h : Inside near far) {blanks middle : Text}
    (hblank : ∀ c ∈ blanks, isBlank c = true) : blanks ≠ far ++ middle := by
  rintro rfl
  have hlast := h.last _ (List.getLast?_eq_some_getLast h.nonempty)
  rw [hblank _ (List.mem_append_left _ (List.getLast_mem h.nonempty))] at hlast
  exact Bool.noConfusion hlast

/-- No other list starts inside of a list. -/
theorem not_mem_clause (h : Inside near far) (hrest : place.rest = far ++ ' ' :: after)
    {word : String} (hword : word ∈ languageWords) (ps : List (Pattern Slot)) (mid : Place Slot) :
    ¬ mid ∈ (clauseOf word ps).reached place := by
  intro hmid
  obtain ⟨blanks, c, rest, hsplit, hne, hblank, hc⟩ := mem_reached_gap_word hmid
  have hletters := isWordChar_of_isLetters (isLetters_languageWords word hword)
  rw [hrest] at hsplit
  rcases List.append_eq_append_iff.mp hsplit with ⟨middle, hcover, -⟩ | ⟨behind, hfar, htail⟩
  · exact h.ne_append hblank hcover
  · -- Behind the blanks the word is a word of the list, whether the list goes on after it or not.
    obtain ⟨middle, rfl, hmiddle⟩ :
        ∃ middle, behind = word.toList ++ middle ∧ ∀ d ∈ middle.head?, isWordChar d = false := by
      rcases List.append_eq_append_iff.mp htail with
        ⟨middle, hbehind, hmiddle⟩ | ⟨middle, hcover, hspace⟩
      · refine ⟨middle, hbehind, fun d hd => ?_⟩
        cases middle with
        | nil => exact absurd hd (by simp)
        | cons e middle =>
            obtain rfl : e = d := by simpa using hd
            obtain ⟨rfl, -⟩ := List.cons.inj hmiddle
            exact isWordChar_of_isBlank hc
      · cases middle with
        | nil => exact ⟨[], by simpa using hcover.symm, by simp⟩
        | cons e middle =>
            obtain ⟨rfl, -⟩ := List.cons.inj hspace
            have hspaceChar := hletters ' ' (by simp [hcover])
            exact absurd hspaceChar (by decide)
    have havoids := h.avoids
    rw [hfar, ← List.append_assoc] at havoids
    refine havoids.not_mem hword hletters ?_ hmiddle
    exact forall_getLast?_append_of_forall hne (fun d hd => isWordChar_of_isBlank (hblank d hd)) _

/-- No body starts inside of a list. -/
theorem not_mem_brace (h : Inside near far) (hrest : place.rest = far ++ ' ' :: after)
    (mid : Place Slot) : ¬ mid ∈ (all [spaces, lit '\x7b']).reached place := by
  intro hmid
  obtain ⟨_, hspaces, hmid⟩ := mem_reached_all_cons.mp hmid
  obtain ⟨blanks, rest, hsplit, hblank, rfl⟩ := mem_reached_many.mp hspaces
  obtain ⟨rest', hbrace, -⟩ := mem_reached_lit.mp hmid
  rw [Place.rest_past] at hbrace
  rw [hrest, hbrace] at hsplit
  rcases List.append_eq_append_iff.mp hsplit with ⟨middle, hcover, -⟩ | ⟨behind, hfar, htail⟩
  · exact h.ne_append hblank hcover
  · cases behind with
    | nil =>
        rw [List.append_nil] at hfar
        exact h.ne_append hblank (hfar.symm.trans (List.append_nil far).symm)
    | cons c behind =>
        obtain ⟨rfl, -⟩ := List.cons.inj htail
        exact absurd (h.chars '\x7b' (by simp [hfar])) (by decide)

end Inside

/-- What may be missing is passed over in search of the rest. -/
theorem not_mem_opt {p : Pattern Slot} {ps : List (Pattern Slot)}
    (h : ∀ mid, ¬ mid ∈ p.reached place) (hps : ∀ mid, ¬ mid ∈ (all ps).reached place)
    (mid : Place Slot) : ¬ mid ∈ (all (opt p :: ps)).reached place := by
  intro hmid
  obtain ⟨_, hopt, hmid⟩ := mem_reached_all_cons.mp hmid
  rcases mem_reached_opt.mp hopt with hp | hsame
  · exact h _ hp
  · rw [hsame] at hmid
    exact hps mid hmid

/-- A list of types starts with its word. -/
theorem not_mem_clauseOf {word : String} {c : Char} (hword : word.toList.head? = some c)
    (hc : isBlank c = false) (hstop : (place.rest.dropWhile isBlank).head? ≠ some c)
    (ps : List (Pattern Slot)) (mid : Place Slot) : ¬ mid ∈ (clauseOf word ps).reached place := by
  intro hmid
  obtain ⟨here, hgap, hrest⟩ := mem_reached_all_cons.mp hmid
  obtain ⟨blanks, rest, hsplit, -, hblank, rfl⟩ := mem_reached_atLeastOne.mp hgap
  have hspaces : mid ∈ (all (spaces :: exactly word :: gap :: ps)).reached place :=
    mem_reached_all_cons.mpr ⟨_, mem_reached_many.mpr ⟨blanks, rest, hsplit, hblank, rfl⟩, hrest⟩
  exact (Opens.exactly hword).not_mem_spaces hc hstop mid hspaces

/-! ### A list of types -/

/-- The place behind a list of types with its word, which is noted if it is there. -/
def behindClause (place : Place Slot) (slot : Slot) (word : String) (types : List TypeName)
    (rest : Text) : Place Slot :=
  if types.isEmpty then place
  else (place.past (clause word types) rest).marked slot (typeNames types) rest

section

variable {slot other : Slot} {word : String} {types : List TypeName} {rest : Text}
    {first : Place Slot}

theorem rest_behindClause (h : place.rest = clause word types ++ rest) :
    (behindClause place slot word types rest).rest = rest := by
  unfold behindClause
  unfold clause at h
  split <;> simp_all

theorem offset_behindClause : (behindClause place slot word types rest).offset
    = place.offset + (clause word types).length := by
  unfold behindClause clause
  split <;> simp

theorem text?_behindClause_self (h : (Match.mk first place).text? slot = none) :
    ((Match.mk first (behindClause place slot word types rest)).text? slot).getD []
      = typeNames types := by
  unfold behindClause
  split
  · rename_i hempty
    obtain rfl : types = [] := by simpa using hempty
    rw [h]
    rfl
  · rw [Match.text?_marked_self]
    rfl

theorem text?_behindClause_of_ne (h : slot ≠ other) :
    (Match.mk first (behindClause place slot word types rest)).text? other
      = (Match.mk first place).text? other := by
  unfold behindClause
  split
  · rfl
  · rw [Match.text?_marked_of_ne _ _ h, Match.text?_past]

/-- A list of types is noted whole, if the rest of the pattern matches behind it and nowhere
inside. -/
theorem run_clause {ps : List (Pattern Slot)} {after : Text} (hword : isLetters word = true)
    (h : ∀ type ∈ types, type.WellFormed) (hrest : place.rest = clause word types ++ ' ' :: after)
    (hmissing : types = [] → ∀ mid,
      ¬ mid ∈ (clauseOf word [noted slot (lazyAtLeastOne Grammar.isHeadChar)]).reached place)
    (hinside : ∀ near far, Inside near far → ∀ here : Place Slot, here.rest = far ++ ' ' :: after →
      ∀ mid, ¬ mid ∈ (all ps).reached here)
    (hnext : (all ps).run (behindClause place slot word types (' ' :: after)) next = some found) :
    (all (opt (clauseOf word [noted slot (lazyAtLeastOne Grammar.isHeadChar)]) :: ps)).run
      place next = some found := by
  rw [run_all_cons]
  by_cases hempty : types = []
  · subst hempty
    rw [run_opt_of_none (run_eq_none (hmissing rfl))]
    exact hnext
  · have hcondition : types.isEmpty = false := by simpa using hempty
    have hsolid := solid_typeNames h hempty
    obtain ⟨c, list, hlist⟩ := List.exists_cons_of_ne_nil hsolid.ne_nil
    have hchars : ∀ d ∈ c :: list, Grammar.isHeadChar d = true := by
      intro d hd
      have hinner : IsInner d :=
        isInner_of_class (isTypeChar_typeNames h d (hlist ▸ hd)) (by decide)
      simp [Grammar.isHeadChar, hinner.opening, hinner.semicolon]
    obtain ⟨hc, hchars⟩ := List.forall_mem_cons.mp hchars
    have htext : place.rest = ' ' :: (word.toList ++ ' ' :: ((c :: list) ++ ' ' :: after)) := by
      simpa [clause, hcondition, spaced, hlist] using hrest
    have hfirst : ∀ d ∈ (word.toList ++ ' ' :: ((c :: list) ++ ' ' :: after)).head?,
        isBlank d = false :=
      forall_head?_append (ne_nil_of_isLetters hword)
        (fun d hd => isBlank_of_isWordChar (isWordChar_of_isLetters hword d hd)) _
    have hsecond : ∀ d ∈ ((c :: list) ++ ' ' :: after).head?, isBlank d = false := by
      intro d hd
      exact hsolid.head? d (by simpa [hlist] using hd)
    refine run_opt_of_some ?_
    unfold clauseOf
    rw [run_all_cons]
    refine run_gap_space htext hfirst ?_
    rw [run_all_cons, run_exactly rfl, run_all_cons]
    refine run_gap_space rfl hsecond ?_
    rw [run_all_cons, run_noted, lazyAtLeastOne, run_seq, run_one rfl hc]
    refine run_many_lazy rfl hchars ?_ ?_
    · intro near far hsplit hfar
      have hsplit' : typeNames types = (c :: near) ++ far := by rw [hlist, hsplit]; rfl
      rw [run_all_nil]
      exact run_eq_none (hinside _ _ (inside_typeNames h hsplit' hfar) _ rfl)
    · have hbehind : behindClause place slot word types (' ' :: after)
          = (place.past (' ' :: (word.toList ++ ' ' :: (c :: list))) (' ' :: after)).marked slot
              (c :: list) (' ' :: after) := by
        simp [behindClause, hcondition, clause, spaced, hlist]
      rw [hbehind] at hnext
      rw [run_all_nil, Place.past_past _ [c], Place.note_past _ rfl]
      simpa using hnext

end

/-! ### Modifiers -/

/-- A modifier and the blanks after it. -/
def modifierGap : Pattern Slot := all [Grammar.wordOf Grammar.typeModifiers, gap]

theorem repeats_modifiers {modifiers : List String} {rest : Text}
    (h : ∀ word ∈ modifiers, word ∈ Grammar.typeModifiers)
    (hrest : place.rest = spaced modifiers ++ rest) (hstop : ∀ c ∈ rest.head?, isBlank c = false) :
    Repeats modifierGap place (place.past (spaced modifiers) rest) := by
  induction modifiers generalizing place with
  | nil =>
      have hsame : place.past (spaced []) rest = place := Place.past_nil hrest
      rw [hsame]
      exact .done
  | cons word words ih =>
      obtain ⟨hword, hwords⟩ := List.forall_mem_cons.mp h
      have htext : place.rest = word.toList ++ ' ' :: (spaced words ++ rest) := by
        simpa [spaced] using hrest
      have hplain : ArePlain Grammar.typeModifiers := fun other hother c hc =>
        (isHeadChar_modifier hother c hc).2
      have hnext : ∀ c ∈ (spaced words ++ rest).head?, isBlank c = false := by
        cases words with
        | nil => exact hstop
        | cons other words =>
            have hother := hwords other List.mem_cons_self
            rw [spaced, List.append_assoc]
            exact forall_head?_append (typeModifiers_chars other hother).1
              (fun c hc => (isHeadChar_modifier hother c hc).2) _
      have hbehind :=
        ih hwords (Place.rest_past place (word.toList ++ [' ']) (spaced words ++ rest))
      have hwhole : spaced (word :: words) = (word.toList ++ [' ']) ++ spaced words := by
        simp [spaced]
      rw [Place.past_past, ← hwhole] at hbehind
      refine .step (fun next => run_word_gap hplain hword htext hnext) ?_ hbehind
      have hlength : place.rest.length
          = word.toList.length + (1 + (spaced words ++ rest).length) := by
        rw [htext]
        simp [Nat.add_comm 1]
      rw [Place.rest_past]
      omega

/-- The word that declares a type is no modifier. -/
theorem not_mem_modifierGap {kind : Uml.Kind} {rest : Text}
    (hrest : place.rest = kind.word.toList ++ rest) (mid : Place Slot) :
    ¬ mid ∈ modifierGap.reached place := by
  intro hmid
  have hfirst : ∀ word ∈ Grammar.typeModifiers, ∀ kind : Uml.Kind,
      word.toList ≠ [] ∧ kind.word.toList ≠ [] ∧ word.toList.head? ≠ kind.word.toList.head? := by
    intro word hword kind
    revert word
    cases kind <;> decide
  obtain ⟨_, hword, -⟩ := mem_reached_all_cons.mp hmid
  obtain ⟨word, hmem, after, hafter, -⟩ := mem_reached_wordOf.mp hword
  obtain ⟨hne, hne', hdifferent⟩ := hfirst word hmem kind
  rw [hrest] at hafter
  have hheads := congrArg List.head? hafter
  rw [List.head?_append_of_ne_nil _ hne, List.head?_append_of_ne_nil _ hne'] at hheads
  exact hdifferent hheads.symm

/-! ### The whole head -/

/-- Behind the blanks comes the word in front of a list, or what comes where the list is missing. -/
theorem head?_clause_ne {word : String} {c d : Char} {types : List TypeName} {rest : Text}
    (hword : word.toList.head? = some c) (hc : isBlank c = false) (hne : c ≠ d)
    (hrest : (rest.dropWhile isBlank).head? ≠ some d) :
    ((clause word types ++ rest).dropWhile isBlank).head? ≠ some d := by
  obtain ⟨letters, hletters⟩ := List.head?_eq_some_iff.mp hword
  have hspace : isBlank ' ' = true := by decide
  unfold clause
  split
  · exact hrest
  · simpa [spaced, hletters, hspace, hc] using hne

theorem exists_clause_append (word : String) (types : List TypeName) (after : Text) :
    ∃ rest, clause word types ++ ' ' :: after = ' ' :: rest := by
  unfold clause
  split <;> exact ⟨_, rfl⟩

/-- The end of a head: the lists of types, and the brace behind a space. -/
def headEnd (head : Head) (after : Text) : Text :=
  clause "extends" head.supertypes ++
    (clause "implements" head.interfaces ++ ' ' :: '\x7b' :: after)

/-- The place behind the end of a head. -/
def behindEnd (place : Place Slot) (head : Head) (after : Text) : Place Slot :=
  (behindClause (behindClause place .supertypes "extends" head.supertypes
    (clause "implements" head.interfaces ++ ' ' :: '\x7b' :: after)) .interfaces "implements"
      head.interfaces (' ' :: '\x7b' :: after)).past [' ', '\x7b'] after

/-- What the pattern of a head wants behind the name. -/
def endParts : List (Pattern Slot) :=
  [opt (all [spaces, lit '<', many .lazy Grammar.isHeadChar, lit '>']),
    opt (clauseOf "extends" [noted .supertypes (lazyAtLeastOne Grammar.isHeadChar)]),
    opt (clauseOf "implements" [noted .interfaces (lazyAtLeastOne Grammar.isHeadChar)]),
    opt (clauseOf "permits" [lazyAtLeastOne Grammar.isHeadChar]), spaces, lit '\x7b']

theorem run_headEnd {head : Head} {after : Text} (h : head.WellFormed)
    (hrest : place.rest = headEnd head after) :
    (all endParts).run place some = some (behindEnd place head after) := by
  have hbrace : ∀ {d : Char}, '\x7b' ≠ d →
      ((' ' :: '\x7b' :: after).dropWhile isBlank).head? ≠ some d := by
    intro d hne hhead
    exact hne (Option.some.inj hhead)
  have hinterfaces : ∀ {d : Char}, 'i' ≠ d → '\x7b' ≠ d →
      ((clause "implements" head.interfaces ++ ' ' :: '\x7b' :: after).dropWhile isBlank).head?
        ≠ some d :=
    fun hne hne' => head?_clause_ne rfl (by decide) hne (hbrace hne')
  have hangle : (place.rest.dropWhile isBlank).head? ≠ some '<' := by
    rw [hrest]
    exact head?_clause_ne rfl (by decide) (by decide) (hinterfaces (by decide) (by decide))
  obtain ⟨rest, hlist⟩ := exists_clause_append "implements" head.interfaces ('\x7b' :: after)
  rw [headEnd, hlist] at hrest
  have hnone : ∀ mid,
      ¬ mid ∈ (all [spaces, lit '<', many .lazy Grammar.isHeadChar, lit '>']).reached
      place := (Opens.lit '<').not_mem_spaces (by decide) hangle
  rw [endParts, run_all_cons, run_opt_of_none (run_eq_none hnone)]
  refine run_clause (by decide) h.supertypes hrest ?_ ?_ ?_
  · intro hempty
    refine not_mem_clauseOf (c := 'e') rfl (by decide) ?_ _
    rw [hrest, hempty, ← hlist]
    exact hinterfaces (by decide) (by decide)
  · intro near far hinside here hhere
    refine not_mem_opt (hinside.not_mem_clause hhere (by decide) _) ?_
    exact not_mem_opt (hinside.not_mem_clause hhere (by decide) _) (hinside.not_mem_brace hhere)
  · rw [← hlist] at hrest ⊢
    let here := behindClause place .supertypes "extends" head.supertypes
      (clause "implements" head.interfaces ++ ' ' :: '\x7b' :: after)
    have hhere : here.rest = clause "implements" head.interfaces ++ ' ' :: '\x7b' :: after :=
      rest_behindClause hrest
    refine run_clause (by decide) h.interfaces hhere ?_ ?_ ?_
    · intro hempty
      refine not_mem_clauseOf (c := 'i') rfl (by decide) ?_ _
      rw [hhere, hempty]
      exact hbrace (by decide)
    · intro near far hinside there hthere
      exact not_mem_opt (hinside.not_mem_clause hthere (by decide) _) (hinside.not_mem_brace hthere)
    · have hlast : (behindClause here .interfaces "implements" head.interfaces
          (' ' :: '\x7b' :: after)).rest = ' ' :: '\x7b' :: after := rest_behindClause hhere
      have hpermits : ∀ mid,
          ¬ mid ∈ (clauseOf "permits" [lazyAtLeastOne Grammar.isHeadChar]).reached
          (behindClause here .interfaces "implements" head.interfaces
            (' ' :: '\x7b' :: after)) := by
        refine not_mem_clauseOf (c := 'p') rfl (by decide) ?_ _
        rw [hlast]
        exact hbrace (by decide)
      rw [run_all_cons, run_opt_of_none (run_eq_none hpermits), run_all_cons]
      refine run_spaces_space hlast (by decide) ?_
      rw [run_all_cons, run_lit rfl, run_all_nil, Place.past_past]
      rfl

/-- The head of a declaration is matched whole, and what it says is noted. -/
theorem run_typeHead {head : Head} {after : Text} (h : head.WellFormed)
    (hrest : place.rest = head.text ++ ' ' :: '\x7b' :: after) (hnotes : place.notes = [])
    (hbefore : place.follows (fun c => Grammar.isDotted c || c == '@') = false) :
    ∃ last : Place Slot, Grammar.typeHead.run place some = some last ∧ last.rest = after ∧
      last.offset = place.offset + (head.text ++ [' ', '\x7b']).length ∧
      ∀ first, (Match.mk first last).text .keyword = head.kind.word.toList ∧
        (Match.mk first last).text .name = head.name ∧
        ((Match.mk first last).text? .supertypes).getD [] = typeNames head.supertypes ∧
        ((Match.mk first last).text? .interfaces).getD [] = typeNames head.interfaces := by
  let behindKind : Text := head.name ++ headEnd head after
  let here := place.past (spaced head.modifiers) (head.kind.word.toList ++ ' ' :: behindKind)
  let there := (here.past (head.kind.word.toList ++ [' ']) behindKind).marked .keyword
    head.kind.word.toList (' ' :: behindKind)
  let named := (there.past head.name (headEnd head after)).marked .name head.name
    (headEnd head after)
  have hstart : place.rest = spaced head.modifiers ++
      (head.kind.word.toList ++ ' ' :: behindKind) := by
    rw [hrest]
    simp [Head.text, spaced, behindKind, headEnd]
  have hkind : ∀ c ∈ (head.kind.word.toList ++ ' ' :: behindKind).head?, isBlank c = false :=
    (solid_letters (isLetters_kind head.kind)).head?_append _
  have hname : ∀ c ∈ behindKind.head?, isBlank c = false := fun c hc =>
    isBlank_of_isWordChar (h.name.head? _ c hc)
  have hend : ∀ c ∈ (headEnd head after).head?, isWordChar c = false := by
    obtain ⟨rest, hlist⟩ := exists_clause_append "implements" head.interfaces ('\x7b' :: after)
    obtain ⟨rest', hlist'⟩ := exists_clause_append "extends" head.supertypes rest
    rw [headEnd, hlist, hlist']
    exact forall_head?_cons (by decide) rest'
  have hdeclares : head.kind.word ∈ declaringWords := by cases head.kind <;> decide
  have hrun : Grammar.typeHead.run place some = some (behindEnd named head after) := by
    have hword : (all [noted .keyword (Grammar.wordOf declaringWords), gap]).run here
        (fun reached => (all (noted .name Pattern.name :: endParts)).run reached some)
          = some (behindEnd named head after) := by
      rw [run_noted_word_gap (arePlain_of_isLetters isLetters_declaringWords) hdeclares rfl hname,
        run_all_cons, run_noted]
      refine run_atLeastOne rfl h.name.ne_nil h.name.isWordChar hend ?_
      rw [Place.note_past _ rfl]
      exact run_headEnd h rfl
    unfold Grammar.typeHead
    rw [run_all_cons, run_notBehind hbefore, run_all_cons]
    exact run_star (repeats_modifiers h.modifiers hstart hkind)
      (not_mem_modifierGap (Place.rest_past ..)) hword
  have hfree : ∀ {first : Place Slot} {slot : Slot}, slot ≠ .keyword → slot ≠ .name →
      (Match.mk first named).text? slot = none := by
    intro first slot hkeyword hname
    have hplace : (Match.mk first place).text? slot = none := by simp [Match.text?, hnotes]
    rw [Match.text?_marked_of_ne _ _ hname.symm, Match.text?_past,
      Match.text?_marked_of_ne _ _ hkeyword.symm, Match.text?_past, Match.text?_past, hplace]
  refine ⟨_, hrun, rfl, ?_, fun first => ⟨?_, ?_, ?_, ?_⟩⟩
  · simp [behindEnd, offset_behindClause, named, there, here, Head.text, spaced]
    omega
  · rw [Match.text, behindEnd, Match.text?_past, text?_behindClause_of_ne (by decide),
      text?_behindClause_of_ne (by decide)]
    simp [named, there]
  · rw [Match.text, behindEnd, Match.text?_past, text?_behindClause_of_ne (by decide),
      text?_behindClause_of_ne (by decide)]
    simp [named]
  · rw [behindEnd, Match.text?_past, text?_behindClause_of_ne (by decide)]
    exact text?_behindClause_self (hfree (by decide) (by decide))
  · rw [behindEnd, Match.text?_past]
    refine text?_behindClause_self ?_
    rw [text?_behindClause_of_ne (by decide)]
    exact hfree (by decide) (by decide)

end Diagrams.Code.Written
