/-
Lists of key columns that are still open where two statements part.

Most patterns of the grammar stop in front of a quote.  Those for a list of key columns do not: the
list runs on to its closing bracket, over whatever comes.  So they see nothing of what stands behind
a quote only if no such list is open there, which is what `ListsClosed` asks for.
-/
import Diagrams.Proofs.Pattern.Blanks
import Diagrams.Proofs.Pattern.Parting
import Diagrams.Schema.Grammar

namespace Diagrams.Schema

open Pattern

/-- What stands in front of a list of key columns. -/
def listLead : Pattern Slot :=
  oneOf [
    all [oneOf [Grammar.phrase ["PRIMARY", "KEY"], Grammar.phrase ["FOREIGN", "KEY"]], spaces,
      Grammar.indexName, Grammar.indexMethod],
    all [Grammar.leading ["REFERENCES"], Grammar.identifier .target, spaces]]

/-- A list of key columns that begins with the last character of a text. -/
def listOpening : Pattern Slot := all [listLead, lit '(', finish]

/-- No list of key columns is open at the end of the text. -/
def ListsClosed (text : Text) : Prop :=
  ∀ near inner, text = near ++ '(' :: inner → ')' ∉ inner →
    listOpening.occursIn (near ++ ['(']) = false

/-- Whether a list is open can be told from the brackets one by one. -/
theorem ListsClosed.of_forall_places {text : Text}
    (h : ∀ n < text.length, text[n]? = some '(' → ')' ∉ text.drop (n + 1) →
      listOpening.occursIn (text.take n ++ ['(']) = false) : ListsClosed text := by
  intro near inner htext
  have hplace := h near.length (by simp [htext]) (by simp [htext])
  rwa [htext, List.take_left, List.drop_length_add_append] at hplace

variable {fork : Fork} {place place' : Place Slot} {lead : Pattern Slot}

/-- What leads to a bracket does so from every place with the same text up to the bracket. -/
theorem exists_leads_to_bracket (hhalts : lead.halts (some '(') false = true) {mid : Place Slot}
    (hmid : mid ∈ lead.reached place) {after : Text} (hrest : mid.rest = '(' :: after) :
    ∃ covered, place.rest = covered ++ '(' :: after ∧
      ∀ start : Place Slot, start.rest = covered ++ ['('] →
        ∃ last ∈ lead.reached start, last.rest = ['('] := by
  obtain ⟨covered, hcovered, -, -⟩ := leads_of_mem_reached hmid
  rw [hrest] at hcovered
  refine ⟨covered, hcovered, fun start hstart => ?_⟩
  let cut := Fork.same covered '(' (by decide) after [] false
  have hplaces : Abreast cut place start :=
    ⟨⟨covered, List.suffix_refl _, hcovered, hstart⟩, fun h => absurd h Bool.false_ne_true,
      fun h => absurd h Bool.false_ne_true⟩
  obtain ⟨last, hlast, habreast⟩ :=
    exists_of_mem_left ((keeps_same hhalts : lead.Keeps cut) hplaces) hmid
  obtain ⟨between, -, hbetween, hlastRest⟩ := habreast.rest
  obtain rfl : between = [] := by
    have hlength := congrArg List.length (hrest.symm.trans hbetween)
    simp [Fork.same] at hlength
    exact hlength
  exact ⟨last, hlast, hlastRest⟩

/-- Where a pattern goes that reads no more than the beginning of a list of key columns. -/
def LeadsToList (lead : Pattern Slot) : Prop :=
  ∀ place mid, mid ∈ lead.reached place → mid ∈ listLead.reached place

/-- A list of key columns begins right behind the text, with a bracket. -/
def OpensList (front : Text) : Prop := listOpening.occursIn (front ++ ['(']) = true

/-- Behind the beginning of a list a list begins, whatever else stands in front. -/
theorem exists_opensList (hlead : LeadsToList lead) (hhalts : lead.halts (some '(') false = true)
    {mid : Place Slot} (hmid : mid ∈ lead.reached place) {after : Text}
    (hrest : mid.rest = '(' :: after) :
    ∃ covered, place.rest = covered ++ '(' :: after ∧ ∀ near, OpensList (near ++ covered) := by
  obtain ⟨covered, hcovered, hstart⟩ := exists_leads_to_bracket hhalts hmid hrest
  refine ⟨covered, hcovered, fun near => ?_⟩
  -- The same beginning is read in the text that ends with the bracket.
  obtain ⟨last, hlast, hlastRest⟩ :=
    hstart ⟨near.getLast?.or none, covered ++ ['('], 0 + near.length, []⟩ rfl
  have hopening : last.past ['('] [] ∈ listOpening.reached
      ⟨near.getLast?.or none, covered ++ ['('], 0 + near.length, []⟩ := by
    unfold listOpening
    simp only [mem_reached_all_cons, mem_reached_all_nil, mem_reached_lit, mem_reached_finish]
    exact ⟨last, hlead _ _ hlast, _, ⟨[], hlastRest, rfl⟩, _, ⟨rfl, rfl⟩, rfl⟩
  exact findFrom?_isSome_iff.mpr ⟨near, covered ++ ['('], List.append_assoc .., _, hopening⟩

/-- What stands further in front does not matter. -/
theorem OpensList.append_left {front : Text} (h : OpensList front) (near : Text) :
    OpensList (near ++ front) := by
  obtain ⟨earlier, far, hsplit, mid, hmid⟩ := findFrom?_isSome_iff.mp h
  unfold listOpening at hmid
  simp only [mem_reached_all_cons, mem_reached_all_nil, mem_reached_lit, mem_reached_finish] at hmid
  obtain ⟨last, hlast, _, ⟨after, hafter, rfl⟩, _, ⟨hfinish, -⟩, -⟩ := hmid
  obtain ⟨covered, hcovered, hopens⟩ :=
    exists_opensList (fun _ _ hmid => hmid) (by decide) hlast hafter
  obtain rfl : after = [] := by
    rcases Bool.or_eq_true_iff.mp hfinish with hnil | hfeed
    · simpa using hnil
    · obtain rfl : after = ['\n'] := by simpa using hfeed
      have hends := congrArg List.getLast? (hsplit.trans (congrArg (earlier ++ ·) hcovered))
      simp at hends
  have hfront : front = earlier ++ covered := by
    refine (List.append_left_inj ['(']).mp ?_
    rw [hsplit, List.append_assoc]
    exact congrArg (earlier ++ ·) hcovered
  rw [hfront, ← List.append_assoc]
  exact hopens (near ++ earlier)

/-- A list whose beginning was read is closed in front of the fork. -/
theorem closed_of_lead (hclosed : ListsClosed fork.front) (hlead : LeadsToList lead)
    (hhalts : lead.halts (some '(') false = true) {ahead inner : Text} {mid : Place Slot}
    (hahead : ahead <:+ fork.front) (hplace : place.rest = ahead ++ fork.tail)
    (hmid : mid ∈ lead.reached place) (hrest : mid.rest = '(' :: (inner ++ fork.tail)) :
    ')' ∈ inner := by
  by_contra hopen
  obtain ⟨near, hnear⟩ := hahead
  obtain ⟨covered, hcovered, hopens⟩ := exists_opensList hlead hhalts hmid hrest
  have hsplit : ahead = covered ++ '(' :: inner := by
    refine (List.append_left_inj fork.tail).mp ?_
    rw [← hplace, hcovered, List.append_assoc, List.cons_append]
  have hnone := hclosed (near ++ covered) inner (by rw [← hnear, hsplit, List.append_assoc]) hopen
  exact Bool.false_ne_true (hnone.symm.trans (hopens near))

/-! ### Lists that are closed -/

/-- Two texts that part behind a quote. -/
abbrev quoteFork (front rest rest' : Text) : Fork := .same front '\x27' (by decide) rest rest' true

variable {front rest rest' : Text}

/-- A bracketed stretch keeps abreast if it is closed in front of the fork. -/
theorem bracketed_abreast {body : Pattern Slot} (hbody : body.halts (some ')') true = true)
    (hplaces : Abreast (quoteFork front rest rest') place place')
    (hclosed : ∀ inner, place.rest = '(' :: (inner ++ '\x27' :: rest) → ')' ∈ inner) :
    List.Forall₂ (Abreast (quoteFork front rest rest'))
      ((all [lit '(', body, lit ')']).reached place)
      ((all [lit '(', body, lit ')']).reached place') := by
  have hnone : ∀ place : Place Slot, (∀ c ∈ place.rest.head?, (c == '(') = false) →
      (all [lit '(', body, lit ')']).reached place = [] := fun place hstop =>
    List.eq_nil_iff_forall_not_mem.mpr fun mid => (Opens.all (Opens.lit '(')).not_mem hstop mid
  obtain ⟨ahead, hsuffix, hrest, hrest'⟩ := hplaces.rest
  rcases ahead with _ | ⟨c, ahead⟩
  · rw [hnone place (by rw [hrest]; simp [quoteFork, Fork.same]),
      hnone place' (by rw [hrest']; simp [quoteFork, Fork.same])]
    exact .nil
  by_cases hc : c = '('
  · subst hc
    obtain ⟨inner, after, rfl⟩ := List.append_of_mem (hclosed ahead hrest)
    -- Up to the closing bracket the texts are the same, and behind it they still are.
    let closing := Fork.same ('(' :: inner) ')' (by decide) (after ++ '\x27' :: rest)
      (after ++ '\x27' :: rest') true
    have hback : ∀ {mid mid' : Place Slot}, Abreast closing mid mid' →
        Abreast (quoteFork front rest rest') mid mid' := by
      intro mid mid' hmids
      obtain ⟨between, ⟨near, hnear⟩, hmid, hmid'⟩ := hmids.rest
      refine ⟨⟨between ++ ')' :: after, .trans ⟨near, ?_⟩ hsuffix, ?_, ?_⟩,
        hmids.before, hmids.notes⟩
      · rw [← List.append_assoc, hnear]
        rfl
      · rw [hmid, List.append_assoc]
        rfl
      · rw [hmid', List.append_assoc]
        rfl
    have hstart : Abreast closing place place' :=
      ⟨⟨'(' :: inner, List.suffix_refl _, by rw [hrest]; simp [closing, quoteFork, Fork.same],
        by rw [hrest']; simp [closing, quoteFork, Fork.same]⟩, hplaces.before, hplaces.notes⟩
    have hopening : (lit '(' : Pattern Slot).Keeps closing := keeps_same (by decide)
    have hinner : body.Keeps closing := keeps_same hbody
    refine reached_seq_abreast (hopening hstart) fun _ _ _ hmids => ?_
    refine reached_seq_abreast (hinner hmids) fun _ _ _ hmids => ?_
    exact keeps_same (by decide) (hback hmids)
  · rw [hnone place (by rw [hrest]; simpa using hc), hnone place' (by rw [hrest']; simpa using hc)]
    exact .nil

theorem columnList_abreast (hplaces : Abreast (quoteFork front rest rest') place place')
    (hclosed : ∀ inner, place.rest = '(' :: (inner ++ '\x27' :: rest) → ')' ∈ inner) (slot : Slot) :
    List.Forall₂ (Abreast (quoteFork front rest rest')) ((Grammar.columnList slot).reached place)
      ((Grammar.columnList slot).reached place') := by
  have hnames : (atLeastOne (· != ')') : Pattern Slot).halts (some ')') true = true := by decide
  exact bracketed_abreast hnames hplaces hclosed

/-- A list that may be missing keeps abreast if it is closed in front of the fork. -/
theorem opt_columnList_abreast (hplaces : Abreast (quoteFork front rest rest') place place')
    (hclosed : ∀ inner, place.rest = '(' :: (inner ++ '\x27' :: rest) → ')' ∈ inner) (slot : Slot) :
    List.Forall₂ (Abreast (quoteFork front rest rest'))
      ((opt (Grammar.columnList slot)).reached place)
      ((opt (Grammar.columnList slot)).reached place') :=
  List.rel_append (columnList_abreast hplaces hclosed slot) (.cons hplaces .nil)

/-- A list behind what stands in front of one keeps abreast if no list is open at the fork. -/
theorem keeps_append_list (hclosed : ListsClosed front) {ps : List (Pattern Slot)}
    {list : Pattern Slot} (hlead : LeadsToList (all ps))
    (hhalts : (all ps).halts (some '(') false = true)
    (hquote : (all ps).halts (some '\x27') true = true)
    (hlist : ∀ {place place' : Place Slot}, Abreast (quoteFork front rest rest') place place' →
      (∀ inner, place.rest = '(' :: (inner ++ '\x27' :: rest) → ')' ∈ inner) →
      List.Forall₂ (Abreast (quoteFork front rest rest')) (list.reached place)
      (list.reached place')) :
    (all (ps ++ [list])).Keeps (quoteFork front rest rest') := by
  intro place place' hplaces
  rw [reached_all_append, reached_all_append]
  refine List.rel_flatMap (forall₂_mem (keeps_same hquote hplaces)) ?_
  rintro mid mid' ⟨⟨hmid, -⟩, hmids⟩
  obtain ⟨ahead, hsuffix, hrest, -⟩ := hplaces.rest
  exact hlist hmids fun inner hinner =>
    closed_of_lead hclosed hlead hhalts hsuffix hrest hmid hinner

namespace Grammar

/-! ### What leads to the lists of the grammar -/

theorem leadsToList_references :
    LeadsToList (all [leading ["REFERENCES"], identifier .target, spaces]) := fun _ _ hmid =>
  mem_reached_oneOf_cons.mpr (.inr (mem_reached_oneOf_cons.mpr (.inl hmid)))

/-- The words of a key, the name of an index and its method, each of which may be missing. -/
theorem mem_listLead {place key blanks named mid : Place Slot}
    (hkey : key ∈ (phrase ["PRIMARY", "KEY"]).reached place ∨
      key ∈ (phrase ["FOREIGN", "KEY"]).reached place)
    (hblanks : blanks ∈ (spaces : Pattern Slot).reached key)
    (hnamed : named ∈ indexName.reached blanks) (hmid : mid ∈ indexMethod.reached named) :
    mid ∈ listLead.reached place := by
  refine mem_reached_oneOf_cons.mpr (.inl ?_)
  simp only [mem_reached_all_cons, mem_reached_all_nil, mem_reached_oneOf_cons]
  refine ⟨key, ?_, blanks, hblanks, named, hnamed, mid, hmid, rfl⟩
  exact hkey.imp_right .inl

theorem self_mem_indexName (place : Place Slot) : place ∈ indexName.reached place :=
  mem_reached_opt.mpr (.inr rfl)

theorem self_mem_indexMethod (place : Place Slot) : place ∈ indexMethod.reached place :=
  mem_reached_opt.mpr (.inr rfl)

theorem leadsToList_primaryKeyPart :
    LeadsToList (all [phrase ["PRIMARY", "KEY"], spaces, indexName, indexMethod]) := by
  intro place mid hmid
  simp only [mem_reached_all_cons, mem_reached_all_nil] at hmid
  obtain ⟨_, hkey, _, hblanks, _, hnamed, _, hmethod, rfl⟩ := hmid
  exact mem_listLead (.inl hkey) hblanks hnamed hmethod

theorem leadsToList_foreignKeyPart :
    LeadsToList (all [phrase ["FOREIGN", "KEY"], spaces, indexName]) := by
  intro place mid hmid
  simp only [mem_reached_all_cons, mem_reached_all_nil] at hmid
  obtain ⟨_, hkey, _, hblanks, _, hnamed, rfl⟩ := hmid
  exact mem_listLead (.inr hkey) hblanks hnamed (self_mem_indexMethod _)

theorem leadsToList_primaryKeyAnywhere :
    LeadsToList (all [phrase ["PRIMARY", "KEY"], spaces, indexMethod]) := by
  intro place mid hmid
  simp only [mem_reached_all_cons, mem_reached_all_nil] at hmid
  obtain ⟨_, hkey, _, hblanks, _, hmethod, rfl⟩ := hmid
  exact mem_listLead (.inl hkey) hblanks (self_mem_indexName _) hmethod

theorem leadsToList_foreignKeyAnywhere : LeadsToList (all [phrase ["FOREIGN", "KEY"], spaces]) := by
  intro place mid hmid
  simp only [mem_reached_all_cons, mem_reached_all_nil] at hmid
  obtain ⟨_, hkey, _, hblanks, rfl⟩ := hmid
  exact mem_listLead (.inr hkey) hblanks (self_mem_indexName _) (self_mem_indexMethod _)

/-! ### Patterns with lists -/

theorem keeps_references (hclosed : ListsClosed front) :
    references.Keeps (quoteFork front rest rest') := by
  have hlist : (all ([leading ["REFERENCES"], identifier .target, spaces] ++
      [opt (columnList .targetColumns)])).Keeps (quoteFork front rest rest') :=
    keeps_append_list hclosed leadsToList_references (by decide) (by decide)
      fun hplaces hinner => opt_columnList_abreast hplaces hinner .targetColumns
  exact hlist

theorem keeps_inlineReferences (hclosed : ListsClosed front) :
    inlineReferences.Keeps (quoteFork front rest rest') :=
  .seq (keeps_same (by decide)) (keeps_references hclosed)

/-- What the list of a key refers to. -/
theorem keeps_target (hclosed : ListsClosed front) :
    (all [spaces, references]).Keeps (quoteFork front rest rest') :=
  .seq (keeps_same (by decide)) (keeps_references hclosed)

/-- The list of a key behind what leads to it. -/
theorem keeps_append_columns (hclosed : ListsClosed front) {ps : List (Pattern Slot)}
    (hlead : LeadsToList (all ps)) (hhalts : (all ps).halts (some '(') false = true)
    (hquote : (all ps).halts (some '\x27') true = true) :
    (all (ps ++ [columnList .columns])).Keeps (quoteFork front rest rest') :=
  keeps_append_list hclosed hlead hhalts hquote
    fun hplaces hinner => columnList_abreast hplaces hinner .columns

theorem keeps_primaryKeyPart (hclosed : ListsClosed front) :
    primaryKeyPart.Keeps (quoteFork front rest rest') := by
  have hlist : (all ([phrase ["PRIMARY", "KEY"], spaces, indexName, indexMethod] ++
      [columnList .columns])).Keeps (quoteFork front rest rest') :=
    keeps_append_columns hclosed leadsToList_primaryKeyPart (by decide) (by decide)
  exact .seq (keeps_same (by decide)) hlist

theorem keeps_foreignKeyPart (hclosed : ListsClosed front) :
    foreignKeyPart.Keeps (quoteFork front rest rest') := by
  have hlist : (all ([phrase ["FOREIGN", "KEY"], spaces, indexName] ++
      [columnList .columns])).Keeps (quoteFork front rest rest') :=
    keeps_append_columns hclosed leadsToList_foreignKeyPart (by decide) (by decide)
  exact .seq (keeps_same (by decide)) (hlist.append (keeps_target hclosed))

theorem keeps_primaryKeyAnywhere (hclosed : ListsClosed front) :
    primaryKeyAnywhere.Keeps (quoteFork front rest rest') := by
  have hlist : (all ([phrase ["PRIMARY", "KEY"], spaces, indexMethod] ++
      [columnList .columns])).Keeps (quoteFork front rest rest') :=
    keeps_append_columns hclosed leadsToList_primaryKeyAnywhere (by decide) (by decide)
  exact hlist

theorem keeps_foreignKeyAnywhere (hclosed : ListsClosed front) :
    foreignKeyAnywhere.Keeps (quoteFork front rest rest') := by
  have hlist : (all ([phrase ["FOREIGN", "KEY"], spaces] ++
      [columnList .columns])).Keeps (quoteFork front rest rest') :=
    keeps_append_columns hclosed leadsToList_foreignKeyAnywhere (by decide) (by decide)
  exact hlist.append (keeps_target hclosed)

/-! ### Patterns without lists -/

/-- The test behind the bracket of an index may look at the quote. -/
theorem keeps_otherConstraint : otherConstraint.Keeps (quoteFork front rest rest') := by
  have hlook : (notAhead (all [spaces, one fun c => isDecimalDigit c || c == '\x27']) :
      Pattern Slot).Keeps (quoteFork front rest rest') :=
    .notAhead_one rfl (keeps_same (by decide)) _
  refine .seq (keeps_same (by decide)) (.alt (keeps_same (by decide)) ?_)
  refine .seq (keeps_same (by decide)) (.seq (keeps_same (by decide)) ?_)
  exact .seq (keeps_same (by decide))
    (.seq (keeps_same (by decide)) (.seq (keeps_same (by decide)) hlook))

/-! ### Columns -/

/-- The words of a type. -/
def typeWords : List (Pattern Slot) :=
  [one fun c => isLatinLetter c || c == '_', many .greedy isWordChar,
    opt (all [gap, oneOf [keyword "PRECISION", keyword "VARYING"]])]

/-- The arguments of a type. -/
def typeArguments : Pattern Slot := opt (all [spaces, lit '(', many .greedy (· != ')'), lit ')'])

/-- The mark of an array behind a type. -/
def typeMark : Pattern Slot := opt (all [spaces, lit '[', spaces, lit ']'])

/-- A column up to the end of its type. -/
def columnHead : Pattern Slot :=
  all [identifier .name, gap, noted .type (all (typeWords ++ [typeArguments, typeMark]))]

end Grammar

/-- A column up to the bracket that opens the arguments of its type, at the end of a text. -/
def typeOpening : Pattern Slot :=
  all [Grammar.identifier .name, gap, all Grammar.typeWords, spaces, lit '(', finish]

/-- The type of a column with which the text starts has no open bracket at the end of the text. -/
def TypeClosed (text : Text) : Prop :=
  ∀ near inner, text = near ++ '(' :: inner → ')' ∉ inner →
    typeOpening.matchStart? (near ++ ['(']) = none

theorem TypeClosed.of_forall_places {text : Text}
    (h : ∀ n < text.length, text[n]? = some '(' → ')' ∉ text.drop (n + 1) →
      (typeOpening.matchStart? (text.take n ++ ['('])).isNone) : TypeClosed text := by
  intro near inner htext hopen
  have hplace := h near.length (by simp [htext]) (by simp [htext])
  rw [htext, List.take_left, List.drop_length_add_append] at hplace
  exact Option.isNone_iff_eq_none.mp (hplace hopen)

namespace Grammar

/-- Up to the end of its type a column is the same on both sides if its type is closed. -/
theorem columnHead_abreast (hclosed : TypeClosed front) :
    List.Forall₂ (Abreast (quoteFork front rest rest'))
      (columnHead.reached (.start (front ++ '\x27' :: rest)))
      (columnHead.reached (.start (front ++ '\x27' :: rest'))) := by
  have hstart : Abreast (quoteFork front rest rest') _ _ :=
    @Abreast.start Slot _ front (List.suffix_refl _) none 0 0
  refine reached_seq_abreast (keeps_same (by decide) hstart) fun named hnamed _ hmids => ?_
  refine reached_seq_abreast (keeps_same (by decide) hmids) fun here hhere _ hmids => ?_
  refine reached_noted_abreast hmids ?_ .type
  have hwords : (all typeWords).Keeps (quoteFork front rest rest') := keeps_same (by decide)
  have hmark : typeMark.Keeps (quoteFork front rest rest') := keeps_same (by decide)
  rw [reached_all_append, reached_all_append]
  refine List.rel_flatMap (forall₂_mem (hwords hmids)) ?_
  rintro words words' ⟨⟨hwords, -⟩, hmids⟩
  refine reached_seq_abreast (List.rel_append ?_ (.cons hmids .nil)) fun _ _ _ hmids => hmark hmids
  refine reached_seq_abreast (keeps_same (by decide) hmids) fun mid hmid _ hmids => ?_
  refine bracketed_abreast (by decide) hmids fun inner hinner => ?_
  by_contra hopen
  have hlead : mid ∈ (all [identifier .name, gap, all typeWords, spaces]).reached
      (.start (front ++ '\x27' :: rest)) := by
    simp only [mem_reached_all_cons, mem_reached_all_nil]
    exact ⟨named, hnamed, here, hhere, words, hwords, mid, hmid, rfl⟩
  obtain ⟨covered, hcovered, hbracket⟩ := exists_leads_to_bracket (by decide) hlead hinner
  have hsplit : front = covered ++ '(' :: inner := by
    refine (List.append_left_inj ('\x27' :: rest)).mp ?_
    rw [List.append_assoc, List.cons_append, ← hcovered]
    rfl
  have hnone := hclosed covered inner hsplit hopen
  obtain ⟨last, hlast, hlastRest⟩ := hbracket (.start (covered ++ ['('])) rfl
  refine matchStart?_eq_none_iff.mp hnone (last.past ['('] []) ?_
  simp only [mem_reached_all_cons, mem_reached_all_nil] at hlast
  obtain ⟨_, hname, _, hgap, _, htype, _, hspaces, rfl⟩ := hlast
  unfold typeOpening
  simp only [mem_reached_all_cons, mem_reached_all_nil, mem_reached_lit, mem_reached_finish]
  exact ⟨_, hname, _, hgap, _, htype, _, hspaces, _, ⟨[], hlastRest, rfl⟩, _, ⟨rfl, rfl⟩, rfl⟩

/-- The end of a pattern that notes all that follows as options. -/
def optionsToEnd : List (Pattern Slot) := [noted .options (many .greedy fun _ => true), finish]

/-- The end of the text, with all that a place has in front of it noted as options. -/
def endWithOptions (place : Place Slot) : Place Slot :=
  .note .options place (place.past place.rest [])

theorem findSome?_reached_optionsToEnd (place : Place Slot) :
    ((all optionsToEnd).reached place).findSome? some = some (endWithOptions place) := by
  rw [← run_eq_findSome?, optionsToEnd, run_all_cons, run_noted]
  refine run_many_greedy (List.append_nil place.rest).symm (by simp) (by simp) ?_
  exact run_finish_of_nil rfl

/-- The match of a column up to the end of its type, with all that follows as its options. -/
def withOptions (head : Match Slot) : Match Slot :=
  ⟨head.first, .note .options head.last (head.last.past head.rest [])⟩

theorem text_withOptions (head : Match Slot) : (withOptions head).text .options = head.rest := by
  simp [withOptions, Match.text, Match.text?, Place.note, Match.rest, Stretch.text]

theorem text_withOptions_of_ne (head : Match Slot) {slot : Slot} (h : slot ≠ .options) :
    (withOptions head).text slot = head.text slot := by
  simp [withOptions, Match.text, Match.text?, Place.note, h.symm]

/-- Where all that follows is noted as options, a match is what leads up to them. -/
theorem matchStart?_withOptions (head : List (Pattern Slot)) (text : Text) :
    (all (head ++ optionsToEnd)).matchStart? text
      = ((all head).matchStart? text).map withOptions := by
  have hrun : (all (head ++ optionsToEnd)).run (.start text) some
      = ((all head).run (.start text) some).map endWithOptions := by
    rw [run_eq_findSome?, run_eq_findSome?, reached_all_append, findSome?_flatMap]
    simp only [findSome?_reached_optionsToEnd]
    cases (all head).reached (.start text) <;> rfl
  unfold matchStart? matchAt?
  rw [hrun, Option.map_map, Option.map_map]
  rfl

/-- A column is what leads to the end of its type; its options are all that follows. -/
theorem matchStart?_column (part : Text) :
    column.matchStart? part = (columnHead.matchStart? part).map withOptions :=
  matchStart?_withOptions [identifier .name, gap,
    noted .type (all (typeWords ++ [typeArguments, typeMark]))] part

end Grammar

end Diagrams.Schema
