/-
Finding the heads of a written source.

A head starts with a word and holds one of the words that declare a type, as a word of its
own with nothing but modifiers in front.  No member and no block holds such a word, so no
head is found there, at whatever place the search arrives (`matchAt?_of_avoids`).  So the
matches in a source are those of the written heads, from the first to the last, however deep
they stand (`Items.forall₂_findAll`).
-/
import Diagrams.Proofs.Code.HeadPattern
import Diagrams.Proofs.Pattern.Search

namespace Diagrams.Code.Written

open Pattern

variable {place mid : Place Slot} {next : Continuation Slot} {found : Place Slot}

/-! ### Where no head starts -/

/-- The characters in front of the word that declares a type. -/
def isLeading (c : Char) : Bool := isWordChar c || c == '-' || isBlank c

/-- Words with blanks after them lead from one place to the other. -/
def LeadingTo (place here : Place Slot) : Prop :=
  ∃ near, place.rest = near ++ here.rest ∧ (∀ d ∈ near, isLeading d = true) ∧
    (∀ d ∈ near.getLast?, isBlank d = true) ∧ ∀ d ∈ near.head?, isWordChar d = true

theorem LeadingTo.step {here : Place Slot} (h : LeadingTo place here)
    (hmid : mid ∈ modifierGap.reached here) : LeadingTo place mid := by
  obtain ⟨near, hrest, hnear, -, hfirst⟩ := h
  obtain ⟨_, hword, hgap⟩ := mem_reached_all_cons.mp hmid
  obtain ⟨word, hmem, after, hafter, rfl⟩ := mem_reached_wordOf.mp hword
  obtain ⟨blanks, rest, hblanks, hne, hblank, rfl⟩ := mem_reached_atLeastOne.mp hgap
  rw [Place.rest_past] at hblanks
  have hletters : ∀ word ∈ Grammar.typeModifiers,
      word.toList.all (fun c => c.isAlpha || c == '-') = true ∧
        word.toList.head?.any Char.isAlpha = true := by decide
  obtain ⟨hall, hhead⟩ := hletters word hmem
  refine ⟨near ++ (word.toList ++ blanks), ?_, ?_, ?_, ?_⟩
  · rw [hrest, hafter, hblanks]
    simp
  · refine List.forall_mem_append.mpr ⟨hnear, ?_⟩
    refine List.forall_mem_append.mpr ⟨fun d hd => ?_, fun d hd => ?_⟩
    · have hchar := List.all_eq_true.mp hall d hd
      rw [Bool.or_eq_true] at hchar
      rcases hchar with halpha | hhyphen
      · simp [isLeading, isWordChar_of_isAlphanum (isAlphanum_of_isAlpha halpha)]
      · simp [isLeading, hhyphen]
    · simp [isLeading, hblank d hd]
  · rw [← List.append_assoc]
    exact forall_getLast?_append_of_forall hne hblank _
  · intro d hd
    cases near with
    | nil =>
        obtain ⟨c, hc, halpha⟩ := (Option.any_eq_true _ _).mp hhead
        obtain ⟨letters, hletters⟩ := List.head?_eq_some_iff.mp hc
        obtain rfl : c = d := by simpa [hletters] using hd
        exact isWordChar_of_isAlphanum (isAlphanum_of_isAlpha halpha)
    | cons c near => exact hfirst d hd

/-- A match starts with modifiers, and then comes a word that declares a type. -/
theorem exists_declaringWord (h : mid ∈ Grammar.typeHead.reached place) :
    place.follows (fun c => Grammar.isDotted c || c == '@') = false ∧
      ∃ here, LeadingTo place here ∧ ∃ word ∈ declaringWords, ∃ c far,
        here.rest = word.toList ++ c :: far ∧ isBlank c = true := by
  obtain ⟨_, hbehind, hrest⟩ := mem_reached_all_cons.mp h
  obtain ⟨hfollows, hsame⟩ := mem_reached_notBehind.mp hbehind
  rw [hsame] at hrest
  obtain ⟨here, hstar, hrest⟩ := mem_reached_all_cons.mp hrest
  obtain ⟨_, hnoted, hrest⟩ := mem_reached_all_cons.mp hrest
  obtain ⟨_, hword, rfl⟩ := mem_reached_noted.mp hnoted
  obtain ⟨word, hmem, after, hafter, rfl⟩ := mem_reached_wordOf.mp hword
  obtain ⟨_, hgap, -⟩ := mem_reached_all_cons.mp hrest
  obtain ⟨c, hc, hblank⟩ := Opens.atLeastOne _ _ hgap
  refine ⟨hfollows, here, ?_, word, hmem, ?_⟩
  · refine of_mem_iterated (P := LeadingTo place) (fun _ _ hhere hmid => hhere.step hmid) _ ?_ hstar
    exact ⟨[], rfl, by simp, by simp, by simp⟩
  · obtain ⟨far, rfl⟩ : ∃ far, after = c :: far := List.head?_eq_some_iff.mp hc
    exact ⟨c, far, hafter, hblank⟩

/-- A head starts with a word. -/
theorem matchAt?_of_not_word (h : ∀ c ∈ place.rest.head?, isWordChar c = false) :
    Grammar.typeHead.matchAt? place = none := by
  refine matchAt?_eq_none_iff.mpr fun mid hmid => ?_
  obtain ⟨-, here, ⟨near, hrest, -, -, hfirst⟩, word, hword, c, far, hhere, -⟩ :=
    exists_declaringWord hmid
  have hletters := isLetters_declaringWords word hword
  obtain ⟨d, letters, hd⟩ := List.exists_cons_of_ne_nil (ne_nil_of_isLetters hletters)
  cases near with
  | nil =>
      have hdword := isWordChar_of_isLetters hletters d (by simp [hd])
      rw [h d (by simp [hrest, hhere, hd])] at hdword
      exact Bool.noConfusion hdword
  | cons e near =>
      have he := hfirst e rfl
      rw [h e (by simp [hrest])] at he
      exact Bool.noConfusion he

/-- In a text without words that declare a type no head starts, if the text ends with a sign that is
in no head. -/
theorem matchAt?_of_avoids {front far rest : Text} {c : Char} {before : Option Char}
    (h : Avoids declaringWords (front ++ c :: far)) (hrest : ∀ d ∈ rest.head?, isLeading d = false)
    (hbefore : place.before = front.getLast?.or before) (hplace : place.rest = c :: (far ++ rest)) :
    Grammar.typeHead.matchAt? place = none := by
  refine matchAt?_eq_none_iff.mpr fun mid hmid => ?_
  obtain ⟨hfollows, here, ⟨near, hnear, hleading, hlast, -⟩, word, hword, d, after, hhere, hd⟩ :=
    exists_declaringWord hmid
  have hletters := isLetters_declaringWords word hword
  have hwordChar := isWordChar_of_isLetters hletters
  -- Modifiers, word and blank are in front of the sign.
  have hcovered : ∀ e ∈ near ++ (word.toList ++ [d]), isLeading e = true := by
    refine List.forall_mem_append.mpr ⟨hleading, List.forall_mem_append.mpr ⟨fun e he => ?_, ?_⟩⟩
    · simp [isLeading, hwordChar e he]
    · exact List.forall_mem_singleton.mpr (by simp [isLeading, hd])
  have hsplit : (c :: far) ++ rest = (near ++ (word.toList ++ [d])) ++ after := by
    rw [List.cons_append, ← hplace, hnear, hhere]
    simp
  have hinside : ∃ behind, c :: far = (near ++ (word.toList ++ [d])) ++ behind := by
    rcases List.append_eq_append_iff.mp hsplit with ⟨middle, hcover, htail⟩ | ⟨middle, hfront, -⟩
    · cases middle with
      | nil => exact ⟨[], by simpa using hcover.symm⟩
      | cons e middle =>
          have he := hcovered e (by simp [hcover])
          rw [hrest e (by simp [htail])] at he
          exact Bool.noConfusion he
    · exact ⟨middle, hfront⟩
  obtain ⟨behind, hbehind⟩ := hinside
  have htext : front ++ c :: far = (front ++ near) ++ (word.toList ++ d :: behind) := by
    rw [hbehind]
    simp
  rw [htext] at h
  refine h.not_mem hword hwordChar ?_ (forall_head?_cons (isWordChar_of_isBlank hd) behind)
  intro e he
  cases hempty : near.getLast? with
  | some b =>
      rw [List.getLast?_append, hempty, Option.some_or] at he
      obtain rfl : b = e := Option.some.inj he
      exact isWordChar_of_isBlank (hlast b hempty)
  | none =>
      rw [List.getLast?_append, hempty, Option.none_or] at he
      rw [Place.follows, hbefore, Option.mem_def.mp he] at hfollows
      have hfree : (Grammar.isDotted e || e == '@') = false := hfollows
      simp only [Grammar.isDotted, Bool.or_eq_false_iff] at hfree
      exact hfree.1.1

section

variable {before : Option Char} {offset : Nat} {front rest : Text}

/-- The search passes over a text without word characters. -/
theorem findAllFrom_signs (h : ∀ c ∈ front, isWordChar c = false) :
    Grammar.typeHead.findAllFrom 0 before offset (front ++ rest)
      = Grammar.typeHead.findAllFrom 0 (front.getLast?.or before) (offset + front.length) rest := by
  refine findAllFrom_append fun near c far hsplit place _ hrest => ?_
  refine matchAt?_of_not_word ?_
  rw [hrest]
  exact forall_head?_cons (h c (by simp [hsplit])) _

/-- The search passes over a text without words that declare a type, and over the sign behind it. -/
theorem findAllFrom_avoids {sign : Char} (h : Avoids declaringWords front)
    (hsign : isLeading sign = false) :
    Grammar.typeHead.findAllFrom 0 before offset (front ++ sign :: rest)
      = Grammar.typeHead.findAllFrom 0 (some sign) (offset + (front.length + 1)) rest := by
  have hword : isWordChar sign = false := by
    simp only [isLeading, Bool.or_eq_false_iff] at hsign
    exact hsign.1.1
  rw [findAllFrom_append fun near c far hsplit place hbefore hplace =>
    matchAt?_of_avoids (hsplit ▸ h) (forall_head?_cons hsign rest) hbefore hplace]
  have hskip : ∀ before offset, Grammar.typeHead.findAllFrom 0 before offset ([sign] ++ rest)
      = Grammar.typeHead.findAllFrom 0 (some sign) (offset + 1) rest :=
    fun _ _ => findAllFrom_signs (List.forall_mem_singleton.mpr hword)
  rw [← List.singleton_append, hskip, Nat.add_assoc]

end

/-! ### The heads of a source -/

/-- The match is that of the written head, and the written body follows. -/
structure IsHeadOf (found : Match Slot) (declared : Head × Items) : Prop where
  keyword : found.text .keyword = declared.1.kind.word.toList
  name : found.text .name = declared.1.name
  supertypes : (found.text? .supertypes).getD [] = typeNames declared.1.supertypes
  interfaces : (found.text? .interfaces).getD [] = typeNames declared.1.interfaces
  rest : ∃ after, found.rest = declared.2.text ++ '\x7d' :: after

/-- A head may start behind the character. -/
def MayPrecede (before : Option Char) : Prop :=
  ∀ c ∈ before, (Grammar.isDotted c || c == '@') = false

theorem MayPrecede.gap {gap : Text} {before : Option Char} (hgap : ∀ c ∈ gap, isBlank c = true)
    (h : MayPrecede before) : MayPrecede (gap.getLast?.or before) := by
  intro c hc
  rcases Option.or_eq_some_iff.mp hc with hlast | ⟨-, hbefore⟩
  · have hblank := hgap c (List.mem_of_getLast? hlast)
    have hdot : c ≠ '.' ∧ c ≠ '@' := by
      constructor <;> rintro rfl <;> exact absurd hblank (by decide)
    simp [Grammar.isDotted, isWordChar_of_isBlank hblank, hdot]
  · exact h c hbefore

theorem mayPrecede_sign {sign : Char} (h : (Grammar.isDotted sign || sign == '@') = false) :
    MayPrecede (some sign) := by
  intro c hc
  obtain rfl : sign = c := Option.some.inj hc
  exact h

theorem not_isWordChar_gap {gap : Text} (h : ∀ c ∈ gap, isBlank c = true) :
    ∀ c ∈ gap, isWordChar c = false := fun c hc => isWordChar_of_isBlank (h c hc)

/-- The search passes over the end of a method with what stands in its block. -/
theorem exists_findAllFrom_ending {method : Method} (h : method.WellFormed) (before : Option Char)
    (offset : Nat) (rest : Text) :
    ∃ sign offset', MayPrecede (some sign) ∧
      Grammar.typeHead.findAllFrom 0 before offset (method.text ++ (method.ending ++ rest))
        = Grammar.typeHead.findAllFrom 0 (some sign) offset' rest := by
  have havoids := Method.avoids h
  unfold Method.ending
  cases hblock : method.block with
  | none => exact ⟨';', _, mayPrecede_sign (by decide), findAllFrom_avoids havoids (by decide)⟩
  | some block =>
      have hspace : Avoids declaringWords (method.text ++ [' ']) :=
        havoids.append_cons (by decide) (.nil declaringWords_ne_nil)
      have htext : method.text ++ ((' ' :: '\x7b' :: (block ++ ['\x7d'])) ++ rest)
          = (method.text ++ [' ']) ++ '\x7b' :: (block ++ '\x7d' :: rest) := by simp
      have hopen := congrArg (Grammar.typeHead.findAllFrom 0 before offset) htext
      rw [findAllFrom_avoids hspace (by decide),
        findAllFrom_avoids (h.block block hblock).words (by decide)] at hopen
      exact ⟨'\x7d', _, mayPrecede_sign (by decide), hopen⟩

/-- The search finds the heads of a source and nothing else. -/
theorem Items.exists_findAllFrom {items : Items} {owner : Option Text} (h : items.WellFormed owner)
    {before : Option Char} (hbefore : MayPrecede before) (offset : Nat) (rest : Text) :
    ∃ found before' offset', List.Forall₂ IsHeadOf found items.declared ∧
      Grammar.typeHead.findAllFrom 0 before offset (items.text ++ rest)
        = found ++ Grammar.typeHead.findAllFrom 0 before' offset' rest := by
  induction h generalizing before offset rest with
  | done blank => exact ⟨[], _, _, .nil, findAllFrom_signs (not_isWordChar_gap blank)⟩
  | @field _ gap field others blank first _ ih =>
      have hsign : MayPrecede (some ';') := mayPrecede_sign (by decide)
      obtain ⟨found, before', offset', hfound, hsearch⟩ := ih hsign _ rest
      refine ⟨found, before', offset', hfound, ?_⟩
      rw [text, List.append_assoc, List.append_assoc, List.cons_append,
        findAllFrom_signs (not_isWordChar_gap blank),
        findAllFrom_avoids (Field.avoids first) (by decide)]
      exact hsearch
  | @method _ gap method others blank first _ _ ih =>
      obtain ⟨sign, offset₁, hsign, hskip⟩ :=
        exists_findAllFrom_ending first (gap.getLast?.or before)
        (offset + gap.length) (others.text ++ rest)
      obtain ⟨found, before', offset', hfound, hsearch⟩ := ih hsign offset₁ rest
      refine ⟨found, before', offset', hfound, ?_⟩
      rw [text, List.append_assoc, List.append_assoc, List.append_assoc,
        findAllFrom_signs (not_isWordChar_gap blank), hskip]
      exact hsearch
  | @nested _ gap head inside others blank first _ _ ihInside ih =>
      let place : Place Slot := ⟨gap.getLast?.or before, (head.text ++ [' ', '\x7b']) ++
        (inside.text ++ '\x7d' :: (others.text ++ rest)), offset + gap.length, []⟩
      have hfollows : place.follows (fun c => Grammar.isDotted c || c == '@') = false := by
        have hprecede := hbefore.gap blank
        show (gap.getLast?.or before).any _ = false
        cases hlast : gap.getLast?.or before with
        | none => rfl
        | some c => exact hprecede c hlast
      have hplace : place.rest = head.text ++ ' ' :: '\x7b' ::
          (inside.text ++ '\x7d' :: (others.text ++ rest)) := by
        simp [place]
      obtain ⟨last, hrun, hrest, hoffset, htexts⟩ := run_typeHead first hplace rfl hfollows
      have hopen : MayPrecede (some '\x7b') := mayPrecede_sign (by decide)
      have hclose : MayPrecede (some '\x7d') := mayPrecede_sign (by decide)
      obtain ⟨foundInside, before₁, offset₁, hfoundInside, hsearchInside⟩ := ihInside hopen
        (offset + gap.length + (head.text ++ [' ', '\x7b']).length)
          ('\x7d' :: (others.text ++ rest))
      obtain ⟨found, before', offset', hfound, hsearch⟩ := ih hclose (offset₁ + 1) rest
      obtain ⟨hkeyword, hname, hsupertypes, hinterfaces⟩ := htexts place
      refine ⟨⟨place, last⟩ :: (foundInside ++ found), before', offset', ?_, ?_⟩
      · refine .cons ⟨hkeyword, hname, hsupertypes, hinterfaces, _, hrest⟩ ?_
        exact List.rel_append hfoundInside hfound
      · have htext : (nested gap head inside others).text ++ rest
            = gap ++ ((head.text ++ [' ', '\x7b']) ++
              (inside.text ++ '\x7d' :: (others.text ++ rest))) := by
          simp [text]
        have hbrace : (head.text ++ [' ', '\x7b']).getLast?.or (gap.getLast?.or before)
            = some '\x7b' := by
          simp
        have hskip : Grammar.typeHead.findAllFrom 0 before₁ offset₁
            (['\x7d'] ++ (others.text ++ rest))
            = Grammar.typeHead.findAllFrom 0 (some '\x7d') (offset₁ + 1) (others.text ++ rest) :=
          findAllFrom_signs (List.forall_mem_singleton.mpr (by decide))
        rw [htext, findAllFrom_signs (not_isWordChar_gap blank),
          findAllFrom_of_run (by simp) hrun hoffset, hbrace, hsearchInside, List.cons_append,
          List.append_assoc foundInside, ← hsearch]
        exact congrArg (_ :: foundInside ++ ·) hskip

theorem Items.forall₂_findAll {items : Items} {owner : Option Text} (h : items.WellFormed owner) :
    List.Forall₂ IsHeadOf (Grammar.typeHead.findAll items.text) items.declared := by
  have hnone : MayPrecede none := fun c hc => absurd hc (Option.not_mem_none c)
  obtain ⟨found, before, offset, hfound, hsearch⟩ := exists_findAllFrom h hnone 0 []
  rw [List.append_nil] at hsearch
  rw [findAll, hsearch, findAllFrom, List.append_nil]
  exact hfound

end Diagrams.Code.Written
