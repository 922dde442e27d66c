/-
What a literal says.

The options of a column are searched for words as they stand, and so is a whole statement for
its keys, without regard to quotes.  So a literal that has such a word in it is read as if
the word stood outside: `Inert` texts have none.  Two statements that differ in an inert
literal are read alike, step by step.
-/
import Diagrams.Proofs.Schema.Congruence
import Diagrams.Proofs.Schema.LiteralScan
import Diagrams.Proofs.Schema.OpenList

namespace Diagrams.Schema

open Pattern

/-- The words that are looked for behind the type of a column or anywhere in a statement. -/
def tellingPhrases : List (Pattern Slot) :=
  [Grammar.phrase ["NOT", "NULL"], Grammar.phrase ["PRIMARY", "KEY"],
    Grammar.phrase ["FOREIGN", "KEY"], Grammar.leading ["REFERENCES"]]

/-- A text without marks of comments and without words that are looked for. -/
structure Inert (text : Text) : Prop where
  block : ¬ ['/', '*'] <:+: text
  line : ¬ ['-', '-'] <:+: text
  phrases : ∀ phrase ∈ tellingPhrases, phrase.occursIn text = false

variable {front ahead text text' rest : Text} {p : Pattern Slot}

/-! ### Searches -/

/-- A pattern begins with words that are looked for, where it matches at all. -/
def Tells (p : Pattern Slot) : Prop :=
  ∀ place mid, mid ∈ p.reached place → ∃ phrase ∈ tellingPhrases, ∃ mid',
    mid' ∈ phrase.reached place

namespace Tells

theorem of_mem (h : p ∈ tellingPhrases) : Tells p := fun _ mid hmid => ⟨p, h, mid, hmid⟩

theorem all (h : Tells p) (ps : List (Pattern Slot)) : Tells (Pattern.all (p :: ps)) := by
  intro place mid hmid
  obtain ⟨mid', hmid', -⟩ := mem_reached_all_cons.mp hmid
  exact h place mid' hmid'

theorem wordEdge (h : Tells p) (ps : List (Pattern Slot)) :
    Tells (Pattern.all (.wordEdge :: p :: ps)) := by
  intro place mid hmid
  obtain ⟨_, hedge, hmid⟩ := mem_reached_all_cons.mp hmid
  rw [(mem_reached_wordEdge.mp hedge).2] at hmid
  exact h.all ps place mid hmid

theorem notNull : Tells Grammar.notNull := (of_mem (by simp [tellingPhrases])).wordEdge _

theorem inlinePrimaryKey : Tells Grammar.inlinePrimaryKey :=
  (of_mem (by simp [tellingPhrases])).wordEdge _

theorem inlineReferences : Tells Grammar.inlineReferences :=
  ((of_mem (by simp [tellingPhrases])).all _).wordEdge []

theorem primaryKeyAnywhere : Tells Grammar.primaryKeyAnywhere :=
  (of_mem (by simp [tellingPhrases])).all _

theorem foreignKeyAnywhere : Tells Grammar.foreignKeyAnywhere :=
  (of_mem (by simp [tellingPhrases])).all _

end Tells

/-- In an inert literal no words that are looked for begin. -/
theorem Inert.not_mem (h : Inert text) {phrase : Pattern Slot} (hphrase : phrase ∈ tellingPhrases)
    (hahead : ahead <:+ text) {place : Place Slot} (hrest : place.rest = ahead ++ '\x27' :: rest)
    (mid : Place Slot) : ¬ mid ∈ phrase.reached place := by
  intro hmid
  obtain ⟨near, hnear⟩ := hahead
  have hhalts : phrase.halts (some '\x27') false = true :=
    List.all_eq_true.mp (show tellingPhrases.all (halts (some '\x27') false) = true by decide)
      phrase hphrase
  let start : Place Slot := ⟨near.getLast?.or none, ahead, 0 + near.length, []⟩
  have hplaces : Abreast (.cut ahead '\x27' (by decide) rest) place start :=
    ⟨⟨ahead, List.suffix_refl _, hrest, (List.append_nil _).symm⟩,
      fun h => absurd h Bool.false_ne_true, fun h => absurd h Bool.false_ne_true⟩
  obtain ⟨mid', hmid', -⟩ := exists_of_mem_left (keeps_of_halts hhalts hplaces) hmid
  have hfound : phrase.occursIn text = true :=
    findFrom?_isSome_iff.mpr ⟨near, ahead, hnear.symm, mid', hmid'⟩
  rw [h.phrases phrase hphrase] at hfound
  exact Bool.false_ne_true hfound

theorem getLast?_literal (text : Text) : (literal text).getLast? = some '\x27' := by
  rw [literal, ← List.cons_append, List.getLast?_concat]

/-- No search finds anything in an inert literal. -/
theorem Inert.skips (h : Inert text) (hp : Tells p) (rest : Text) :
    p.Skips (literal text) rest := by
  intro near c far hsplit place hplace
  refine matchAt?_eq_none_iff.mpr fun mid hmid => ?_
  obtain ⟨phrase, hphrase, mid', hmid'⟩ := hp place mid hmid
  cases near with
  | nil =>
      obtain ⟨rfl, rfl⟩ := List.cons.inj hsplit
      exact h.not_mem hphrase List.nil_suffix hplace mid' hmid'
  | cons d near =>
      rcases append_eq_append_cons (List.cons.inj hsplit).2 with
        ⟨between, htext, rfl⟩ | ⟨between, -, hend⟩
      · have hrest : place.rest = (c :: between) ++ '\x27' :: rest := by
          rw [hplace]
          simp
        exact h.not_mem hphrase ⟨near, htext.symm⟩ hrest mid' hmid'
      · have hquote : c = '\x27' ∧ far = [] := by
          rcases between with _ | ⟨e, between⟩
          · simpa using hend.symm
          · simp at hend
        obtain ⟨rfl, rfl⟩ := hquote
        exact h.not_mem hphrase List.nil_suffix hplace mid' hmid'

/-- The first match is the same whatever stands in an inert literal. -/
theorem find?_literal (hx : Inert text) (hy : Inert text')
    (hkeeps : p.Keeps (quoteFork front (text ++ '\x27' :: rest) (text' ++ '\x27' :: rest)))
    (hhalts : p.halts none true = true) (hp : Tells p) (hahead : ahead <:+ front) :
    Option.Rel Alike (p.find? (ahead ++ (literal text ++ rest)))
      (p.find? (ahead ++ (literal text' ++ rest))) := by
  have hlast : (literal text).getLast? = (literal text').getLast? := by
    rw [getLast?_literal, getLast?_literal]
  have hfound := find?_parted hhalts hkeeps rfl hahead (literal_append text rest).symm
    (literal_append text' rest).symm (hx.skips hp rest) (hy.skips hp rest) hlast
  rw [literal_append, literal_append]
  exact hfound

/-- All matches are the same whatever stands in an inert literal. -/
theorem findAll_literal (hx : Inert text) (hy : Inert text')
    (hkeeps : p.Keeps (quoteFork front (text ++ '\x27' :: rest) (text' ++ '\x27' :: rest)))
    (hhalts : p.halts none true = true) (hp : Tells p) (hahead : ahead <:+ front) :
    List.Forall₂ Alike (p.findAll (ahead ++ (literal text ++ rest)))
      (p.findAll (ahead ++ (literal text' ++ rest))) := by
  have hlast : (literal text).getLast? = (literal text').getLast? := by
    rw [getLast?_literal, getLast?_literal]
  have hfound := findAll_parted hhalts hkeeps rfl hahead (literal_append text rest).symm
    (literal_append text' rest).symm (hx.skips hp rest) (hy.skips hp rest) hlast
  rw [literal_append, literal_append]
  exact hfound

/-! ### The options of a column -/

/-- Two options that say the same. -/
structure OptionsAlike (options options' : Text) : Prop where
  notNull : Grammar.notNull.occursIn options = Grammar.notNull.occursIn options'
  primaryKey : Grammar.inlinePrimaryKey.occursIn options
    = Grammar.inlinePrimaryKey.occursIn options'
  references : Option.Rel Alike (Grammar.inlineReferences.find? options)
    (Grammar.inlineReferences.find? options')

theorem optionsAlike_literal (hclosed : ListsClosed front) (hahead : ahead <:+ front)
    (hx : Inert text) (hy : Inert text') (rest : Text) :
    OptionsAlike (ahead ++ (literal text ++ rest)) (ahead ++ (literal text' ++ rest)) where
  notNull := isSome_eq_of_rel (find?_literal hx hy (keeps_same (by decide)) (by decide)
    .notNull hahead)
  primaryKey := isSome_eq_of_rel
    (find?_literal hx hy (keeps_same (by decide)) (by decide) .inlinePrimaryKey hahead)
  references := find?_literal hx hy (Grammar.keeps_inlineReferences hclosed) (by decide)
    .inlineReferences hahead

theorem OptionsAlike.addColumn_eq {options options' : Text} (h : OptionsAlike options options')
    (draft : Draft) {found found' : Match Slot} (hname : found.text .name = found'.text .name)
    (htype : found.text .type = found'.text .type) :
    draft.addColumn found options = draft.addColumn found' options' :=
  addColumn_congr draft hname (by rw [htype]) h.notNull h.primaryKey
    (rel_imp h.references fun _ _ => refersAlike_of_alike)

/-! ### The parts of a list -/

/-- What a pattern reads at the start of a part does not depend on the literal. -/
theorem matchStart?_literal (text text' rest : Text)
    (hkeeps : p.Keeps (quoteFork front (text ++ '\x27' :: rest) (text' ++ '\x27' :: rest)))
    (hahead : ahead <:+ front) :
    Option.Rel (Twins ahead (literal text ++ rest) (literal text' ++ rest))
      (p.matchStart? (ahead ++ (literal text ++ rest)))
      (p.matchStart? (ahead ++ (literal text' ++ rest))) := by
  have hmatch := hkeeps.matchAt? rfl hahead none 0 0
  rw [literal_append, literal_append]
  exact hmatch

/-- A column is the same on both sides of a literal in its options. -/
theorem column_literal (htype : TypeClosed ahead) (text text' rest : Text) :
    Option.Rel (fun found found' => found.text .name = found'.text .name ∧
        found.text .type = found'.text .type ∧ ∃ options, options <:+ ahead ∧
          found.text .options = options ++ (literal text ++ rest) ∧
          found'.text .options = options ++ (literal text' ++ rest))
      (Grammar.column.matchStart? (ahead ++ (literal text ++ rest)))
      (Grammar.column.matchStart? (ahead ++ (literal text' ++ rest))) := by
  have hheads : Option.Rel (Twins ahead ('\x27' :: (text ++ '\x27' :: rest))
      ('\x27' :: (text' ++ '\x27' :: rest)))
      (Grammar.columnHead.matchStart? (ahead ++ '\x27' :: (text ++ '\x27' :: rest)))
      (Grammar.columnHead.matchStart? (ahead ++ '\x27' :: (text' ++ '\x27' :: rest))) :=
    matchAt?_abreast rfl (Abreast.start (List.suffix_refl ahead) none 0 0) rfl
      (Grammar.columnHead_abreast htype)
  rw [Grammar.matchStart?_column, Grammar.matchStart?_column, literal_append, literal_append]
  generalize Grammar.columnHead.matchStart? (ahead ++ '\x27' :: (text ++ '\x27' :: rest)) = head,
    Grammar.columnHead.matchStart? (ahead ++ '\x27' :: (text' ++ '\x27' :: rest))
      = head' at hheads ⊢
  cases hheads with
  | none => exact .none
  | @some head head' htwins =>
      obtain ⟨covered, options, hsplit, hrest, hrest', -, -⟩ := htwins.covered
      refine .some ⟨?_, ?_, options, ⟨covered, hsplit.symm⟩, ?_, ?_⟩
      · rw [Grammar.text_withOptions_of_ne _ (by decide),
          Grammar.text_withOptions_of_ne _ (by decide)]
        exact htwins.alike.text .name
      · rw [Grammar.text_withOptions_of_ne _ (by decide),
          Grammar.text_withOptions_of_ne _ (by decide)]
        exact htwins.alike.text .type
      · rw [Grammar.text_withOptions, hrest]
      · rw [Grammar.text_withOptions, hrest']

/-- A part is read strictly into the same draft, whatever stands in an inert literal. -/
theorem readPart_literal (hclosed : ListsClosed front) (hahead : ahead <:+ front)
    (htype : TypeClosed ahead) (hx : Inert text) (hy : Inert text') (draft : Draft) (rest : Text) :
    (readPart draft (ahead ++ (literal text ++ rest))).toOption
      = (readPart draft (ahead ++ (literal text' ++ rest))).toOption := by
  have hfull : ∀ text : Text, (ahead ++ (literal text ++ rest)).isEmpty = false := fun text => by
    simp [literal]
  have hprimary := matchStart?_literal text text' rest
    (Grammar.keeps_primaryKeyPart hclosed) hahead
  have hforeign := matchStart?_literal text text' rest
    (Grammar.keeps_foreignKeyPart hclosed) hahead
  have hother := isSome_eq_of_rel (matchStart?_literal text text' rest
    Grammar.keeps_otherConstraint hahead)
  have hcolumn := column_literal htype text text' rest
  unfold readPart
  rw [hfull, hfull, hother]
  generalize Grammar.primaryKeyPart.matchStart? (ahead ++ (literal text ++ rest)) = primary,
    Grammar.primaryKeyPart.matchStart? (ahead ++ (literal text' ++ rest)) = primary' at hprimary ⊢
  cases hprimary with
  | some htwins => simp [Draft.addPrimaryKey, htwins.alike.text .columns]
  | none =>
  generalize Grammar.foreignKeyPart.matchStart? (ahead ++ (literal text ++ rest)) = foreign,
    Grammar.foreignKeyPart.matchStart? (ahead ++ (literal text' ++ rest)) = foreign' at hforeign ⊢
  cases hforeign with
  | some htwins =>
      simp [htwins.alike.text .columns,
        addForeignKeys_congr draft (refersAlike_of_alike htwins.alike) rfl]
  | none =>
  cases (Grammar.otherConstraint.matchStart? (ahead ++ (literal text' ++ rest))).isSome with
  | true => rfl
  | false =>
  generalize Grammar.column.matchStart? (ahead ++ (literal text ++ rest)) = column,
    Grammar.column.matchStart? (ahead ++ (literal text' ++ rest)) = column' at hcolumn ⊢
  cases hcolumn with
  | none => rfl
  | @some found found' hsame =>
      obtain ⟨hname, htypes, options, hsuffix, hoptions, hoptions'⟩ := hsame
      have halike := optionsAlike_literal hclosed (hsuffix.trans hahead) hx hy rest
      simp only [hname, hoptions, hoptions', halike.addColumn_eq draft hname htypes]
      cases isConstraintWord (found'.text .name) <;> rfl

/-- The first word of a part is a constraint word on both sides of a literal, or on none. -/
theorem isConstraintWord_literal (hahead : ∀ c ∈ ahead.head?, isBlank c = false)
    (rest rest' : Text) :
    isConstraintWord ((Text.words (ahead ++ '\x27' :: rest)).head?.getD [])
      = isConstraintWord ((Text.words (ahead ++ '\x27' :: rest')).head?.getD []) := by
  obtain ⟨word, more, rfl, hword, hmore⟩ := Text.exists_word_split ahead
  cases more with
  | nil =>
      -- The quote belongs to the first word, and no constraint word has one in it.
      have hquote : ∀ rest : Text,
          isConstraintWord ((Text.words (word ++ [] ++ '\x27' :: rest)).head?.getD []) = false := by
        intro rest
        obtain ⟨word', more', rfl, hword', hmore'⟩ := Text.exists_word_split rest
        have hsolid : ∀ c ∈ word ++ '\x27' :: word', isBlank c = false :=
          List.forall_mem_append.mpr ⟨hword, List.forall_mem_cons.mpr ⟨by decide, hword'⟩⟩
        have hfirst := Text.head?_words_of_word (by simp) hsolid hmore'
        rw [List.append_nil, ← List.cons_append, ← List.append_assoc, hfirst, Option.getD_some]
        by_contra hconstraint
        have hletter := isWordChar_of_isConstraintWord (Bool.eq_true_of_not_eq_false hconstraint)
          '\x27' (by simp)
        exact absurd hletter (by decide)
      rw [hquote, hquote]
  | cons blank more =>
      have hne : word ≠ [] := by
        rintro rfl
        have hsolid := hahead blank rfl
        rw [hmore blank rfl] at hsolid
        exact Bool.noConfusion hsolid
      have hfirst : ∀ rest : Text, (Text.words (word ++ blank :: more ++ rest)).head?
          = some word := by
        intro rest
        rw [List.append_assoc]
        exact Text.head?_words_of_word hne hword hmore
      rw [hfirst, hfirst]

/-- A part is read permissively into the same draft, whatever stands in an inert literal. -/
theorem salvagePart_literal (hclosed : ListsClosed front) (hahead : ahead <:+ front)
    (hfirst : ∀ c ∈ ahead.head?, isBlank c = false) (hx : Inert text) (hy : Inert text')
    (draft : Draft) (unreadable unreadable' : List Text) (rest : Text) :
    (salvagePart (draft, unreadable) (ahead ++ (literal text ++ rest))).1
      = (salvagePart (draft, unreadable') (ahead ++ (literal text' ++ rest))).1 := by
  have hword := isConstraintWord_literal hfirst (text ++ '\x27' :: rest) (text' ++ '\x27' :: rest)
  have hother := isSome_eq_of_rel (matchStart?_literal text text' rest
    Grammar.keeps_otherConstraint hahead)
  have hcolumn := matchStart?_literal text text' rest
    (keeps_same (by decide) : Grammar.looseColumn.Keeps _) hahead
  rw [← literal_append, ← literal_append] at hword
  simp only [salvagePart]
  rw [hword, hother]
  generalize Grammar.looseColumn.matchStart? (ahead ++ (literal text ++ rest)) = column,
    Grammar.looseColumn.matchStart? (ahead ++ (literal text' ++ rest)) = column' at hcolumn ⊢
  cases isConstraintWord ((Text.words (ahead ++ (literal text' ++ rest))).head?.getD []) ||
      (Grammar.otherConstraint.matchStart? (ahead ++ (literal text' ++ rest))).isSome with
  | true => rfl
  | false =>
      cases hcolumn with
      | none => rfl
      | @some found found' htwins =>
          obtain ⟨covered, options, hsplit, hrest, hrest', -, -⟩ := htwins.covered
          have hsuffix : options <:+ front := .trans ⟨covered, hsplit.symm⟩ hahead
          have halike := optionsAlike_literal hclosed hsuffix hx hy rest
          rw [← hrest, ← hrest'] at halike
          exact halike.addColumn_eq draft (htwins.alike.text .name) (htwins.alike.text .type)

/-- A part is read alike, whatever stands in an inert literal. -/
theorem partAlike_literal (hclosed : ListsClosed front) (hahead : ahead <:+ front)
    (htype : TypeClosed ahead) (hfirst : ∀ c ∈ ahead.head?, isBlank c = false) (hx : Inert text)
    (hy : Inert text') (rest : Text) :
    PartAlike (ahead ++ (literal text ++ rest)) (ahead ++ (literal text' ++ rest)) :=
  ⟨fun draft => readPart_literal hclosed hahead htype hx hy draft rest,
    fun draft unreadable unreadable' =>
      salvagePart_literal hclosed hahead hfirst hx hy draft unreadable unreadable' rest⟩

/-- Two lists that differ in one part. -/
theorem forall₂_partAlike {part part' : Text} (h : PartAlike part part')
    (before after : List Text) :
    List.Forall₂ PartAlike (before ++ part :: after) (before ++ part' :: after) :=
  List.rel_append (forall₂_partAlike_refl before) (.cons h (forall₂_partAlike_refl after))

end Diagrams.Schema
