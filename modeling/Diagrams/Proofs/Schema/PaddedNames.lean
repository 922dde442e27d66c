/-
The names that are read out of the two spellings of a text.

A name has no blanks in it, so it is the same in both spellings.  With a list of names it is
different: from an item whose first word runs into a bracket, the bracket and what follows is taken
away, but only if it stands on the last line of the item.  So a line feed that is added behind such
a bracket changes the name, and `SparesArguments` rules this out.
-/
import Diagrams.Proofs.Pattern.Spread
import Diagrams.Proofs.Schema.Names
import Diagrams.Proofs.Schema.NotedList
import Diagrams.Proofs.Schema.PaddedText
import Diagrams.Proofs.Schema.UnbrokenNames

namespace Diagrams

namespace Text

variable {front rest : Text} {c : Char}

/-- The first word of a text without blanks in front ends in front of the first blank. -/
theorem exists_head?_words (hc : isBlank c = true)
    (hfirst : ∀ d ∈ (front ++ c :: rest).head?, isBlank d = false) :
    ∃ word, front.words.head? = some word ∧ (front ++ c :: rest).words.head? = some word := by
  obtain ⟨word, more, rfl, hsolid, hmore⟩ := exists_word_split front
  have hne : word ≠ [] := by
    rintro rfl
    cases more with
    | nil => exact absurd (hc.symm.trans (hfirst c rfl)) (by decide)
    | cons d more => exact absurd ((hmore d rfl).symm.trans (hfirst d rfl)) (by decide)
  have hword := head?_words_of_word hne hsolid hmore
  refine ⟨word, hword, ?_⟩
  rw [words_append_cons hc, List.head?_append, hword]
  rfl

/-- Behind a blank a text without blanks at its end goes on. -/
theorem exists_getLast?_of_blank (hc : isBlank c = true)
    (hlast : ∀ d ∈ (front ++ c :: rest).getLast?, isBlank d = false) :
    ∃ d ∈ rest.getLast?, isBlank d = false := by
  rw [List.getLast?_append, List.getLast?_cons] at hlast
  cases hends : rest.getLast? with
  | none => exact absurd (hc.symm.trans (hlast c (by simp [hends]))) (by decide)
  | some d => exact ⟨d, rfl, hlast d (by simp [hends])⟩

end Text

namespace Schema

/-! ### The first word of an item -/

/-- A first word without a bracket stays the first word. -/
theorem head?_words_withoutArguments {word more : Text} (hne : word ≠ [])
    (hword : ∀ c ∈ word, isBlank c = false) (hbracket : '(' ∉ word)
    (hmore : ∀ c ∈ more.head?, isBlank c = true) :
    (withoutArguments (word ++ more)).words.head? = some word := by
  have hfeed : '\n' ∉ word := fun hmem => absurd (hword _ hmem) (by decide)
  obtain ⟨front, line, hsplit, -, hfront, hbare⟩ := Written.exists_lastLine (word ++ more)
  rw [hbare]
  rcases List.eq_nil_or_concat front with rfl | ⟨front, feed, rfl⟩
  · obtain rfl : word ++ more = line := hsplit
    rw [List.nil_append, List.takeWhile_append_of_pos fun c hc => by
      simpa using fun heq : c = '(' => hbracket (heq ▸ hc)]
    refine Text.head?_words_of_word hne hword fun c hc => ?_
    cases more with
    | nil => simp at hc
    | cons d more =>
        have hd := hmore d rfl
        have hkept : d ≠ '(' := by
          rintro rfl
          exact absurd hd (by decide)
        rw [List.takeWhile_cons_of_pos (by simpa using hkept)] at hc
        exact Option.some.inj hc ▸ hd
  · -- The first word ends in front of the last line.
    obtain rfl : feed = '\n' := hfront feed (by simp)
    rcases List.append_eq_append_iff.mp hsplit with ⟨between, hbetween, rfl⟩ | ⟨between, rfl, -⟩
    · rw [hbetween, List.append_assoc]
      refine Text.head?_words_of_word hne hword fun c hc => hmore c ?_
      cases between with
      | nil =>
          have hmem : '\n' ∈ word := by
            rw [← List.append_nil word, ← hbetween]
            simp
          exact absurd hmem hfeed
      | cons d between => exact hc
    · exact absurd (by simp) hfeed

/-- An item whose first word has no bracket in it has this word as its name. -/
theorem listedName_of_word {item word : Text} (hword : item.trim.words.head? = some word)
    (hbracket : '(' ∉ word) : listedName item = unquote word := by
  obtain ⟨first, more, hsplit, hfirst, hmore⟩ := Text.exists_word_split item.trim
  have hne : first ≠ [] := by
    rintro rfl
    obtain rfl : item.trim = more := hsplit
    cases htrim : item.trim with
    | nil => rw [htrim] at hword; cases hword
    | cons c rest =>
        have hsolid : isBlank c = false := Text.head?_strip c (by rw [← Text.trim, htrim]; rfl)
        rw [hmore c (by rw [htrim]; rfl)] at hsolid
        exact Bool.noConfusion hsolid
  obtain rfl : first = word := by
    rw [hsplit, Text.head?_words_of_word hne hfirst hmore] at hword
    exact Option.some.inj hword
  rw [listedName, hsplit, head?_words_withoutArguments hne hfirst hbracket hmore]
  rfl

/-! ### Items of a list that is still open -/

/-- The last item of a list that is still open. -/
def lastItem (inner : Text) : Text := (inner.splitWhere (· == ',')).getLast?.getD []

theorem lastItem_append {inner item : Text} (hinner : ∀ c ∈ inner.getLast?, c = ',')
    (hitem : ',' ∉ item) : lastItem (inner ++ item) = item := by
  have hwhole : item.splitWhere (· == ',') = [item] :=
    Text.splitWhere_of_forall fun c hc => by simpa using fun heq : c = ',' => hitem (heq ▸ hc)
  rcases List.eq_nil_or_concat inner with rfl | ⟨inner, comma, rfl⟩
  · rw [lastItem, List.nil_append, hwhole]
    rfl
  · obtain rfl : comma = ',' := hinner comma (by simp)
    rw [lastItem, List.concat_eq_append, List.append_assoc, List.singleton_append,
      Text.splitWhere_append_cons (by decide), hwhole]
    simp

/-- The text ends in a list of key columns, in an item with a bracket in its first word. -/
def EndsInArguments (front : Text) : Prop :=
  ∃ near inner, front = near ++ '(' :: inner ∧ ')' ∉ inner ∧ OpensList near ∧
    (lastItem inner).words.head?.any (·.contains '(') = true

/-- Whether the text ends in such an item can be told from its brackets one by one. -/
instance (front : Text) : Decidable (EndsInArguments front) :=
  decidable_of_iff (∃ n < front.length, front[n]? = some '(' ∧ ')' ∉ front.drop (n + 1) ∧
    listOpening.occursIn (front.take n ++ ['(']) = true ∧
    (lastItem (front.drop (n + 1))).words.head?.any (·.contains '(') = true) <| by
  constructor
  · rintro ⟨n, hn, hbracket, hclosing, hopens, hword⟩
    refine ⟨front.take n, front.drop (n + 1), ?_, hclosing, hopens, hword⟩
    obtain ⟨_, hget⟩ := List.getElem?_eq_some_iff.mp hbracket
    rw [← hget, List.cons_getElem_drop_succ, List.take_append_drop]
  · rintro ⟨near, inner, rfl, hclosing, hopens, hword⟩
    exact ⟨near.length, by simp, by simp, by simpa using hclosing,
      by simpa using (show _ = true from hopens), by simpa using hword⟩

/-- The item of a list in which a text starts goes on. -/
def itemGoesOn (rest : Text) : Bool :=
  (rest.dropStart isBlank).head?.any fun c => c != ',' && c != ')'

theorem EndsInArguments.append_left {front : Text} (h : EndsInArguments front) (near : Text) :
    EndsInArguments (near ++ front) := by
  obtain ⟨earlier, inner, rfl, hclosing, hopens, hword⟩ := h
  exact ⟨near ++ earlier, inner, (List.append_assoc ..).symm, hclosing,
    hopens.append_left near, hword⟩

theorem itemGoesOn_append {rest : Text} (h : itemGoesOn rest = true) (after : Text) :
    itemGoesOn (rest ++ after) = true := by
  unfold itemGoesOn Text.dropStart at h ⊢
  rw [List.dropWhile_append]
  split
  · rename_i hnil
    rw [List.isEmpty_iff.mp hnil] at h
    exact absurd h Bool.false_ne_true
  · rename_i hne
    cases hrest : rest.dropWhile isBlank with
    | nil => simp [hrest] at hne
    | cons c more => simpa [hrest] using h

end Schema

namespace Padded

open Schema

variable {padded near far : Padded} {c d : Char}

/-- Nothing is changed inside of an item of a list of key columns that has a bracket in its first
word. -/
def SparesArguments (padded : Padded) : Prop :=
  ∀ front item rest, padded = front ++ item :: rest → item.1 ≠ some item.2 →
    ¬ (EndsInArguments (tight front) ∧ itemGoesOn (tight rest) = true)

theorem SparesArguments.of_within (h : SparesArguments padded) (hfar : far <:+: padded) :
    SparesArguments far := by
  obtain ⟨before, after, rfl⟩ := hfar
  rintro front item rest rfl hchanged ⟨hends, hgoes⟩
  refine h (before ++ front) item (rest ++ after) (by simp) hchanged ⟨?_, ?_⟩
  · rw [tight_append]
    exact hends.append_left (tight before)
  · rw [tight_append]
    exact itemGoesOn_append hgoes (tight after)

/-! ### Where the spellings differ -/

theorem mem_tight_of_within (hfar : far <:+: padded) (hc : c ∈ tight far) : c ∈ tight padded :=
  (hfar.filterMap Prod.fst).subset hc

theorem tight_eq_wide_of_same (h : ∀ item ∈ padded, item.1 = some item.2) :
    tight padded = wide padded := by
  induction padded with
  | nil => rfl
  | cons item padded ih =>
      obtain ⟨hitem, hothers⟩ := List.forall_mem_cons.mp h
      obtain ⟨own, d⟩ := item
      obtain rfl : own = some d := hitem
      rw [tight_own, wide_cons, ih hothers]

/-- The first place where the two spellings differ. -/
theorem exists_changed (padded : Padded) : (∀ item ∈ padded, item.1 = some item.2) ∨
    ∃ same item rest, padded = same ++ item :: rest ∧ (∀ other ∈ same, other.1 = some other.2) ∧
      item.1 ≠ some item.2 := by
  induction padded with
  | nil => exact .inl (by simp)
  | cons item padded ih =>
      by_cases hitem : item.1 = some item.2
      · rcases ih with hall | ⟨same, other, rest, rfl, hsame, hchanged⟩
        · exact .inl (List.forall_mem_cons.mpr ⟨hitem, hall⟩)
        · exact .inr ⟨item :: same, other, rest, rfl,
            List.forall_mem_cons.mpr ⟨hitem, hsame⟩, hchanged⟩
      · exact .inr ⟨[], item, padded, rfl, by simp, hitem⟩

/-- They differ in blanks only. -/
theorem isBlank_of_changed (h : Sound padded) (hadds : AddsBlanks padded)
    {item : Option Char × Char} (hmem : item ∈ padded) (hchanged : item.1 ≠ some item.2) :
    isBlank item.2 = true := by
  obtain ⟨_ | c, d⟩ := item
  · exact hadds d hmem
  · rcases h.own c d hmem with rfl | ⟨-, hd⟩
    · exact absurd rfl hchanged
    · exact hd

theorem exists_trim (padded : Padded) : ∃ front rest, padded = front ++ (padded.trim ++ rest) ∧
    (∀ item ∈ front, isBlank item.2 = true) ∧ ∀ item ∈ rest, isBlank item.2 = true := by
  refine ⟨padded.takeWhile fun item => isBlank item.2, padded.trimStart.rtakeWhile fun item =>
    isBlank item.2, ?_, fun item hitem => (List.mem_takeWhile_imp hitem :), fun item hitem =>
      (List.mem_rtakeWhile_imp hitem :)⟩
  rw [trim, trimEnd, List.rdropWhile_append_rtakeWhile, trimStart, List.takeWhile_append_dropWhile]

theorem isBlank_of_mem_tight (h : Sound padded) (hwide : ∀ item ∈ padded, isBlank item.2 = true) :
    ∀ c ∈ tight padded, isBlank c = true := by
  intro c hc
  obtain ⟨item, hitem, hown⟩ := List.mem_filterMap.mp hc
  obtain ⟨own, d⟩ := item
  obtain rfl : own = some c := hown
  exact (h.isBlank_eq hitem).trans (hwide _ hitem)

/-- Behind the place where they differ an item goes on if it does not end there. -/
theorem itemGoesOn_of_solid (h : Sound padded) (hadds : AddsBlanks padded)
    (hlast : ∃ c ∈ (wide padded).getLast?, isBlank c = false)
    (hsigns : ∀ c ∈ tight padded, c ≠ ',' ∧ c ≠ ')') : itemGoesOn (tight padded) = true := by
  obtain ⟨c, hc, hsolid⟩ := hlast
  have hfull : (tight padded).dropStart isBlank ≠ [] := by
    intro hnil
    have hblank : ∀ e ∈ tight padded, isBlank e = true := by
      simpa [Text.dropStart, List.dropWhile_eq_nil_iff] using hnil
    obtain ⟨item, hitem, rfl⟩ := List.mem_map.mp (List.mem_of_mem_getLast? hc)
    obtain ⟨_ | e, d⟩ := item
    · exact absurd ((hadds d hitem).symm.trans hsolid) (by decide)
    · have hmem : e ∈ tight padded := List.mem_filterMap.mpr ⟨_, hitem, rfl⟩
      exact absurd (((hblank e hmem).symm.trans (h.isBlank_eq hitem)).trans hsolid) (by decide)
  obtain ⟨e, more, hcons⟩ := List.exists_cons_of_ne_nil hfull
  have hmem : e ∈ tight padded := (List.dropWhile_suffix _).subset (by
    show e ∈ (tight padded).dropStart isBlank
    rw [hcons]
    exact List.mem_cons_self)
  unfold itemGoesOn
  rw [hcons]
  simpa using hsigns e hmem

/-! ### Lists of names -/

/-- An item of a list of key columns has the same name in both spellings. -/
theorem listedName_padded {before stretch after : Padded} {opening inner : Text}
    (h : Sound (before ++ (stretch ++ after)))
    (hspares : SparesArguments (before ++ (stretch ++ after))) (hadds : AddsBlanks stretch)
    (hbefore : tight before = opening ++ '(' :: inner)
    (hopens : OpensList opening) (hclosing : ')' ∉ inner) (hinner : ∀ c ∈ inner.getLast?, c = ',')
    (hsigns : ∀ c ∈ tight stretch, c ≠ ',' ∧ c ≠ ')') :
    listedName (tight stretch) = listedName (wide stretch) := by
  have hstretch : Sound stretch := h.of_within ⟨before, after, by simp⟩
  have hcore : Sound stretch.trim := hstretch.of_within stretch.trim_within
  have haddsCore : AddsBlanks stretch.trim := hadds.of_within stretch.trim_within
  have hnames : ∀ {name : Text}, (tight stretch.trim).words.head? = some name → '(' ∉ name →
      listedName (tight stretch) = listedName (wide stretch) := by
    intro name hname hbracket
    rw [listedName_of_word (by rw [← tight_trim hstretch hadds]; exact hname) hbracket,
      listedName_of_word (by rw [← wide_trim, ← words_eq hcore haddsCore]; exact hname) hbracket]
  rcases exists_changed stretch.trim with hall | ⟨same, item, rest, hsplit, hsame, hchanged⟩
  · have heq : (tight stretch).trim = (wide stretch).trim := by
      rw [← tight_trim hstretch hadds, ← wide_trim, tight_eq_wide_of_same hall]
    unfold listedName
    rw [heq]
  · obtain ⟨front, behind, hwhole, hfront, -⟩ := exists_trim stretch
    have hitem : item ∈ stretch.trim := by rw [hsplit]; simp
    have hblank := isBlank_of_changed hcore haddsCore hitem hchanged
    have hwide : wide stretch.trim = wide same ++ item.2 :: wide rest := by rw [hsplit]; simp [wide]
    have hrest : rest <:+: stretch.trim := ⟨same ++ [item], [], by rw [hsplit]; simp⟩
    obtain ⟨word, hfirst, hword⟩ := Text.exists_head?_words hblank (by
      rw [← hwide, wide_trim]
      exact Text.head?_strip)
    obtain ⟨last, hlast, hsolid⟩ := Text.exists_getLast?_of_blank hblank (by
      rw [← hwide, wide_trim]
      exact Text.getLast?_strip)
    refine hnames (by rw [words_eq hcore haddsCore, hwide]; exact hword) fun hbracket => ?_
    have hpart : front ++ same <:+: stretch := ⟨[], item :: rest ++ behind, by
      conv_rhs => rw [hwhole, hsplit]
      simp⟩
    have hinside : ∀ c ∈ tight front ++ tight same, c ≠ ',' ∧ c ≠ ')' := fun c hc =>
      hsigns c (mem_tight_of_within hpart (by rwa [tight_append]))
    refine hspares (before ++ (front ++ same)) item (rest ++ (behind ++ after)) ?_ hchanged ⟨?_, ?_⟩
    · conv_lhs => rw [hwhole, hsplit]
      simp
    · refine ⟨opening, inner ++ (tight front ++ tight same), by simp [hbefore], ?_, hopens, ?_⟩
      · rw [List.mem_append]
        rintro (hmem | hmem)
        · exact hclosing hmem
        · exact (hinside _ hmem).2 rfl
      · have hfrontBlank := isBlank_of_mem_tight
          (hstretch.of_within ((List.prefix_append front same).isInfix.trans hpart)) hfront
        rw [lastItem_append hinner fun hmem => (hinside _ hmem).1 rfl,
          Text.words_append_of_blank hfrontBlank, tight_eq_wide_of_same hsame, hfirst]
        simpa using hbracket
    · rw [tight_append]
      have hrestSigns : ∀ c ∈ tight rest, c ≠ ',' ∧ c ≠ ')' := fun c hc =>
        hsigns c (mem_tight_of_within (hrest.trans stretch.trim_within) hc)
      exact itemGoesOn_append (itemGoesOn_of_solid (hcore.of_within hrest)
        (haddsCore.of_within hrest) ⟨last, hlast, hsolid⟩ hrestSigns) _

/-- A list of key columns has the same names in both spellings. -/
theorem identifierList_padded {before list after : Padded} {opening : Text}
    (h : Sound (before ++ (list ++ after))) (hspares : SparesArguments (before ++ (list ++ after)))
    (hadds : AddsBlanks list) (hbefore : tight before = opening ++ ['('])
    (hopens : OpensList opening) (hclosing : ')' ∉ tight list) :
    identifierList (tight list) = identifierList (wide list) := by
  have hlist : Sound list := h.of_within ⟨before, after, by simp⟩
  have hfillers : ∀ c, isFiller c = true → (c == ',') = false := by
    intro c hc
    rw [beq_eq_false_iff_ne]
    rintro rfl
    exact absurd hc (by decide)
  obtain ⟨stretches, hparted, htight, hwide⟩ := exists_splitWhere hlist hfillers
  have hnames : ∀ stretch ∈ stretches, listedName (tight stretch) = listedName (wide stretch) := by
    intro stretch hstretch
    obtain ⟨inner, behind, rfl, hcut⟩ := hparted.exists_of_mem hstretch
    have hsplit : before ++ (inner ++ (stretch ++ behind) ++ after)
        = (before ++ inner) ++ (stretch ++ (behind ++ after)) := by simp
    have hstart : tight (before ++ inner) = opening ++ '(' :: tight inner := by simp [hbefore]
    rw [hsplit] at h hspares
    rw [tight_append, tight_append, List.mem_append, List.mem_append, not_or, not_or] at hclosing
    have hcommas : ∀ c ∈ tight stretch, (c == ',') = false :=
      Text.eq_false_of_mem_splitWhere (htight ▸ List.mem_map_of_mem hstretch)
    have hsigns : ∀ c ∈ tight stretch, c ≠ ',' ∧ c ≠ ')' := fun c hc =>
      ⟨beq_eq_false_iff_ne.mp (hcommas c hc), fun heq => hclosing.2.1 (heq ▸ hc)⟩
    exact listedName_padded h hspares (hadds.of_within ⟨inner, behind, by simp⟩) hstart
      hopens hclosing.1 (fun c hc => beq_iff_eq.mp (hcut c hc)) hsigns
  have hlists : ((tight list).splitWhere (· == ',')).map listedName
      = ((wide list).splitWhere (· == ',')).map listedName := by
    rw [htight, hwide, List.map_map, List.map_map, List.map_inj_left]
    intro stretch hstretch
    rw [Function.comp_apply, Function.comp_apply, hnames stretch hstretch]
  unfold identifierList
  rw [hlists]

end Padded

/-! ### What two matches note -/

open Padded Schema

variable {padded : Padded} {p : Pattern Slot} {found found' : Match Slot} {slot : Slot}

theorem find?_sameNote {notes notes' : List (Slot × Stretch)}
    (h : List.Forall₂ padded.SameNote notes notes') (slot : Slot) :
    Option.Rel padded.SameNote (notes.find? (·.1 = slot)) (notes'.find? (·.1 = slot)) := by
  induction h with
  | nil => exact .none
  | @cons note note' notes notes' hnote _ ih =>
      have hslot := hnote.1
      by_cases hsame : note.1 = slot
      · rw [List.find?_cons_of_pos (by simpa using hsame),
          List.find?_cons_of_pos (by simpa [← hslot] using hsame)]
        exact .some hnote
      · rw [List.find?_cons_of_neg (by simpa using hsame),
          List.find?_cons_of_neg (by simpa [← hslot] using hsame)]
        exact ih

namespace Paired

/-- What is noted under a name on both sides, if anything is. -/
theorem noted (h : Paired p padded found found') (slot : Slot) :
    Option.Rel padded.SameNote (found.last.notes.find? (·.1 = slot))
      (found'.last.notes.find? (·.1 = slot)) := by
  obtain ⟨near, far, hpaired⟩ := h
  obtain ⟨covered, behind, -, hlast⟩ := hpaired.last
  exact find?_sameNote hlast.notes slot

/-- A word is noted on both sides alike. -/
theorem text?_eq (h : Paired p padded found found') (hpadded : Sound padded)
    (hword : Grammar.NotesWord slot p) : found.text? slot = found'.text? slot := by
  have hnoted := h.noted slot
  obtain ⟨near, far, hpaired⟩ := h
  have hletters := hword.text hpaired.fresh.2 hpaired.matched.2
  unfold Match.text Match.text? at hletters
  unfold Match.text?
  generalize found.last.notes.find? (·.1 = slot) = note,
    found'.last.notes.find? (·.1 = slot) = note'
    at hnoted hletters ⊢
  cases hnoted with
  | none => rfl
  | @some note note' hnote =>
      obtain ⟨-, front, covered, rest, hsplit, -, -, htext, htext'⟩ := hnote
      have hcovered : Sound covered := hpadded.of_within ⟨front, rest, by simp [hsplit]⟩
      have hsame := hcovered.tight_eq_wide fun c hc => by
        have hletter : isWordChar c = true := hletters c (by simpa [htext'] using hc)
        by_contra hfiller
        rw [isWordChar_of_isFiller (by simpa using hfiller)] at hletter
        exact Bool.noConfusion hletter
      simp [htext, htext', hsame]

theorem text_eq (h : Paired p padded found found') (hpadded : Sound padded)
    (hword : Grammar.NotesWord slot p) : found.text slot = found'.text slot := by
  rw [Match.text, Match.text, h.text?_eq hpadded hword]

/-- What is noted has the same words on both sides. -/
theorem words_eq (h : Paired p padded found found') (hpadded : Sound padded)
    (hadds : AddsBlanks padded) (slot : Slot) :
    (found.text slot).words = (found'.text slot).words := by
  have hnoted := h.noted slot
  unfold Match.text Match.text?
  generalize found.last.notes.find? (·.1 = slot) = note,
    found'.last.notes.find? (·.1 = slot) = note'
    at hnoted ⊢
  cases hnoted with
  | none => rfl
  | @some note note' hnote =>
      obtain ⟨-, front, covered, rest, hsplit, -, -, htext, htext'⟩ := hnote
      have hcovered : covered <:+: padded := ⟨front, rest, by simp [hsplit]⟩
      simp [htext, htext', Padded.words_eq (hpadded.of_within hcovered) (hadds.of_within hcovered)]

/-- A list of key columns is noted with the same names on both sides. -/
theorem identifierList_eq (h : Paired p padded found found') (hpadded : Sound padded)
    (hspares : SparesArguments padded) (hlists : NotesLists p) (hslot : isList slot = true) :
    identifierList (found.text slot) = identifierList (found'.text slot) := by
  have hnoted := h.noted slot
  obtain ⟨near, far, hpaired⟩ := h
  have hlisted : ∀ note ∈ found.last.notes.find? (·.1 = slot), ListedIn (tight far) note.2 := by
    intro note hnote
    have hsame : note.1 = slot := by simpa using List.find?_some hnote
    rw [← hpaired.first.rest]
    exact hlists.listedIn hpaired.fresh.1 hpaired.matched.1 (List.mem_of_find?_eq_some hnote)
      (hsame ▸ hslot)
  unfold Match.text Match.text?
  generalize found.last.notes.find? (·.1 = slot) = note,
    found'.last.notes.find? (·.1 = slot) = note'
    at hnoted hlisted ⊢
  cases hnoted with
  | none => rfl
  | @some note note' hnote =>
      obtain ⟨-, front, covered, rest, hsplit, honward, -, htext, htext'⟩ := hnote
      obtain ⟨opening, behind, hfar, hclosed, hclosing, hopens⟩ := hlisted note rfl
      -- The stretch that was noted begins right behind the bracket.
      have hfront : tight front = (tight near ++ opening) ++ ['('] := by
        refine (List.append_left_inj note.2.onward).mp ?_
        rw [honward, ← tight_append, ← hsplit, hpaired.first.split, tight_append, hfar, honward]
        simp
      have hrest : tight rest = ')' :: behind := by
        rw [honward, htext, tight_append] at hclosed
        exact List.append_cancel_left hclosed
      have hadds : AddsBlanks covered :=
        Sound.addsBlanks (hsplit ▸ hpadded) (by rw [hrest]; exact List.cons_ne_nil _ _)
      simp only [Option.map_some, Option.getD_some, htext, htext']
      exact identifierList_padded (hsplit ▸ hpadded) (hsplit ▸ hspares) hadds hfront
        (hopens.append_left (tight near)) (htext ▸ hclosing)

/-- A foreign key is noted alike on both sides. -/
theorem foreignKeys_eq (h : Paired p padded found found') (hpadded : Sound padded)
    (hspares : SparesArguments padded) (hlists : NotesLists p) (hword : Grammar.NotesWord .target p)
    (table : Text) {columns columns' : Text}
    (hcolumns : identifierList columns = identifierList columns') :
    foreignKeys table columns (found.text .target) (found.text? .targetColumns)
      = foreignKeys table columns' (found'.text .target) (found'.text? .targetColumns) := by
  have hothers : identifierList ((found.text? .targetColumns).getD [])
      = identifierList ((found'.text? .targetColumns).getD []) :=
    h.identifierList_eq hpadded hspares hlists rfl
  unfold foreignKeys
  rw [hcolumns, hothers, h.text_eq hpadded hword]

end Paired

end Diagrams
