/-
The change to a table that is read out of the two spellings of a statement.

All that stands behind the name of the table are the changes, and the name ends at a gap.  So it
does make a difference whether there is a blank at the end of the statement: with one the last word
may be the name and there are no changes, and without it the word may be the changes and the name
another one.  But such changes add no keys, and the statement declares no table either, so nothing
comes of it.  If there is a list in the changes, the spellings agree in the name and in the keys.
-/
import Diagrams.Proofs.Schema.PaddedTable
import Diagrams.Proofs.Schema.Skipped

namespace Diagrams

open Padded Pattern Schema

namespace Schema

/-! ### Statements without their comments -/

namespace Progress

/-- Read one statement from which the comments have been removed. -/
def readBare (progress : Progress) (bare : Text) : Progress :=
  match Grammar.alterTable.matchStart? bare with
  | some change => progress.changeTable (change.text .name) (change.text .options)
  | none => progress.defineTable bare

namespace SameTables

variable {progress other : Progress} {bare bare' table changes changes' : Text}

theorem symm (h : SameTables progress other) : SameTables other progress :=
  ⟨h.diagram.symm, h.pending.symm⟩

theorem trans {third : Progress} (h : SameTables progress other) (h' : SameTables other third) :
    SameTables progress third := ⟨h.diagram.trans h'.diagram, h.pending.trans h'.pending⟩

/-- Changes that add the same keys have the same effect. -/
theorem changeTable (h : SameTables progress other)
    (hprimary : addedPrimaryKeys changes = addedPrimaryKeys changes')
    (hforeign : ∀ name, addedForeignKeys name changes = addedForeignKeys name changes') :
    SameTables (progress.changeTable table changes) (other.changeTable table changes') := by
  unfold addedPrimaryKeys at hprimary
  unfold addedForeignKeys at hforeign
  unfold Progress.changeTable
  rw [h.diagram]
  cases other.diagram.lookup? table with
  | none => exact ⟨h.diagram, h.pending⟩
  | some node =>
      simp only [hprimary, hforeign, h.pending]
      exact ⟨rfl, rfl⟩

/-- A change that adds no keys has no effect. -/
theorem changeTable_of_no_keys (progress : Progress) (table : Text)
    (hprimary : addedPrimaryKeys changes = [])
    (hforeign : ∀ name, addedForeignKeys name changes = []) :
    SameTables progress (progress.changeTable table changes) := by
  unfold addedPrimaryKeys at hprimary
  unfold addedForeignKeys at hforeign
  unfold Progress.changeTable
  cases progress.diagram.lookup? table with
  | none => exact ⟨rfl, rfl⟩
  | some node =>
      simp only [hprimary, hforeign]
      refine ⟨?_, (List.append_nil _).symm⟩
      show progress.diagram = { progress.diagram with pool := progress.diagram.pool.modify node id }
      rw [List.modify_id]

theorem addTable (h : SameTables progress other) (definition : Definition) :
    SameTables (progress.addTable definition) (other.addTable definition) := by
  refine ⟨?_, ?_⟩
  · rw [diagram_addTable, diagram_addTable, h.diagram]
  · rw [pending_addTable, pending_addTable, h.pending]

/-- What reading a table definition comes down to. -/
theorem defineTable_eq (progress : Progress) (bare : Text) : SameTables (progress.defineTable bare)
    ((definition? bare).elim progress progress.addTable) := by
  unfold Progress.defineTable definition?
  cases readTable bare with
  | ok definition => exact ⟨rfl, rfl⟩
  | error error =>
      dsimp only
      cases salvageTable bare with
      | none => exact ⟨rfl, rfl⟩
      | some salvage =>
          refine addTable ⟨?_, ?_⟩ salvage.definition
          · rw [diagram_foldl_report]
            rfl
          · rw [pending_foldl_report]
            rfl

/-- Definitions that declare the same table have the same effect. -/
theorem defineTable (h : SameTables progress other)
    (hdefinition : definition? bare = definition? bare') :
    SameTables (progress.defineTable bare) (other.defineTable bare') := by
  refine ((defineTable_eq progress bare).trans ?_).trans (defineTable_eq other bare').symm
  rw [hdefinition]
  cases definition? bare' with
  | none => exact h
  | some definition => exact h.addTable definition

theorem defineTable_of_none (progress : Progress) (h : definition? bare = none) :
    SameTables progress (progress.defineTable bare) := by
  have heffect := defineTable_eq progress bare
  rw [h] at heffect
  exact heffect.symm

end SameTables

/-! ### Statements that are read alike -/

/-- Two statements without comments that have the same effect. -/
def ReadAlike (bare bare' : Text) : Prop :=
  ∀ progress other, SameTables progress other →
    SameTables (progress.readBare bare) (other.readBare bare')

/-- A statement without comments that has no effect. -/
def Traceless (bare : Text) : Prop := ∀ progress, SameTables progress (readBare progress bare)

variable {bare bare' : Text}

theorem ReadAlike.symm (h : ReadAlike bare bare') : ReadAlike bare' bare :=
  fun progress other hsame => (h other progress hsame.symm).symm

theorem ReadAlike.trans {third : Text} (h : ReadAlike bare bare') (h' : ReadAlike bare' third) :
    ReadAlike bare third :=
  fun progress other hsame => (h progress progress ⟨rfl, rfl⟩).trans (h' progress other hsame)

theorem Traceless.readAlike (h : Traceless bare) (h' : Traceless bare') : ReadAlike bare bare' :=
  fun progress other hsame => ((h progress).symm.trans hsame).trans (h' other)

/-- Statements that change no table are read alike if they declare the same table. -/
theorem readAlike_of_definition (hchange : Grammar.alterTable.matchStart? bare = none)
    (hchange' : Grammar.alterTable.matchStart? bare' = none)
    (h : definition? bare = definition? bare') :
    ReadAlike bare bare' := by
  intro progress other hsame
  unfold readBare
  rw [hchange, hchange']
  exact hsame.defineTable h

end Progress

/-! ### Changes without a list -/

/-- A pattern with a part that opens with a bracket needs one. -/
theorem bracket_of_opens {p : Pattern Slot} (h : Opens (· == '(') p) {ps qs : List (Pattern Slot)}
    {place mid : Place Slot} (hmid : mid ∈ (all (ps ++ p :: qs)).reached place) :
    '(' ∈ place.rest := by
  rw [reached_all_append] at hmid
  obtain ⟨here, hhere, hbehind⟩ := List.mem_flatMap.mp hmid
  obtain ⟨_, hopening, -⟩ := mem_reached_all_cons.mp hbehind
  obtain ⟨c, hc, hbracket⟩ := h here _ hopening
  obtain rfl : c = '(' := by simpa using hbracket
  obtain ⟨covered, hcovered, -⟩ := leads_of_mem_reached hhere
  rw [hcovered]
  exact List.mem_append_right covered (List.mem_of_mem_head? hc)

theorem opens_columnList (slot : Slot) : Opens (· == '(') (Grammar.columnList slot) :=
  Opens.all (Opens.lit '(')

/-- Without a bracket no keys are added. -/
theorem addedKeys_of_no_bracket {changes : Text} (h : '(' ∉ changes) :
    addedPrimaryKeys changes = [] ∧ ∀ name, addedForeignKeys name changes = [] := by
  have hnone : ∀ {key : Pattern Slot}, (∀ place mid, mid ∈ key.reached place → '(' ∈ place.rest) →
      (seq Grammar.addConstraint key).findAll changes = [] := by
    intro key hkey
    refine findAll_eq_nil fun near c far hsplit place _ hrest =>
      matchAt?_eq_none_iff.mpr fun mid hmid => ?_
    obtain ⟨here, hhere, hmid⟩ := mem_reached_seq.mp hmid
    obtain ⟨covered, hcovered, -⟩ := leads_of_mem_reached hhere
    refine h ?_
    rw [hsplit, ← hrest, hcovered]
    simp [hkey here mid hmid]
  have hprimary : Grammar.addPrimaryKey.findAll changes = [] := hnone fun place mid hmid =>
    @bracket_of_opens _ (opens_columnList .columns)
      [Grammar.phrase ["PRIMARY", "KEY"], spaces, Grammar.indexMethod] [] _ _ hmid
  have hforeign : Grammar.addForeignKey.findAll changes = [] := hnone fun place mid hmid =>
    @bracket_of_opens _ (opens_columnList .columns)
      [Grammar.phrase ["FOREIGN", "KEY"], spaces] [spaces, Grammar.references] _ _ hmid
  unfold addedPrimaryKeys addedForeignKeys
  rw [hprimary, hforeign]
  exact ⟨rfl, fun _ => rfl⟩

/-! ### The head of a change -/

namespace Grammar

/-- A change to a table up to the changes. -/
def changeHead : List (Pattern Slot) :=
  [spaces, leading ["ALTER", "TABLE"], opt (leading ["ONLY"]), identifier .name] ++ [gap]

/-- A change to a table up to the first character of the changes. -/
def changeStart : Pattern Slot := all (changeHead ++ [noted .options (one fun c => !isFiller c)])

theorem matchStart?_alterTable (text : Text) :
    alterTable.matchStart? text = ((all changeHead).matchStart? text).map withOptions :=
  matchStart?_withOptions changeHead text

theorem prospect?_changeStart : changeStart.prospect? = some ⟨.dry, true⟩ := by
  have hfirst : (one fun c => !isFiller c : Pattern Slot).spread ⟨.sure, true⟩
      = some ⟨.shut, false⟩ :=
    spread_one (rejectsFillers_of_forall fun c hc => by rw [hc]; rfl)
  have honly : (leading ["ONLY"]).spread ⟨.shut, false⟩ = some ⟨.shut, false⟩ :=
    spread_leading (by decide)
  simp (disch := decide) [prospect?, changeStart, changeHead, hfirst, spread_opt honly,
    spread_leading, Outlook.either]

theorem notesWord_changeStart : NotesWord .name changeStart := by
  simp (disch := decide) [changeStart, changeHead, notesOnly_all, NotesOnly.of_mayNote,
    notesWord_identifier]

/-- The changes begin behind all blanks. -/
theorem isBlank_of_changeHead {text : Text} {head : Match Slot}
    (h : (all changeHead).matchStart? text = some head) :
    ∀ c ∈ head.rest.head?, isBlank c = false := by
  obtain ⟨last, hlast, rfl⟩ := Option.map_eq_some_iff.mp h
  rw [changeHead, run_eq_findSome?, reached_all_append, findSome?_flatMap] at hlast
  obtain ⟨mid, -, hmid⟩ := List.exists_of_findSome?_eq_some hlast
  rw [← run_eq_findSome?] at hmid
  obtain ⟨front, rest, hrest, hne, hfront, -⟩ := mem_reached_atLeastOne.mp (mem_reached_of_run hmid)
  have hsplit : mid.rest = mid.rest.takeWhile isBlank ++ mid.rest.dropWhile isBlank :=
    List.takeWhile_append_dropWhile.symm
  have hfull : mid.rest.takeWhile isBlank ≠ [] := by
    rw [hrest, List.takeWhile_append_of_pos hfront]
    exact List.append_ne_nil_of_left_ne_nil hne _
  have hgreedy := @run_atLeastOne _ mid some _ isBlank _ _ hsplit hfull
    (fun c hc => List.mem_takeWhile_imp hc) (Text.head?_dropStart mid.rest) rfl
  obtain rfl := Option.some.inj (hmid.symm.trans hgreedy)
  exact Text.head?_dropStart mid.rest

/-- The name of a table that is changed has no brackets in it. -/
theorem exists_covered_of_changeHead {text : Text} {head : Match Slot}
    (h : (all changeHead).matchStart? text = some head) :
    ∃ covered, text = covered ++ head.rest ∧ '(' ∉ covered := by
  obtain ⟨-, hlast⟩ := mem_reached_of_matchStart? h
  have hhalts : (all changeHead).halts (some '(') true = true := by decide
  obtain ⟨covered, hcovered, -, hfree⟩ := (coversOnly_of_halts hhalts).covers hlast
  exact ⟨covered, hcovered, fun hmem => by simpa using hfree '(' hmem⟩

/-- If there is a list in the changes, they can be told by their first character. -/
theorem matchStart?_changeStart {text : Text} (hbracket : '(' ∈ text)
    (hend : ∀ front rest, text = front ++ ';' :: rest → rest = []) :
    Option.Rel (fun head found => head.text .name = found.text .name ∧
        ∃ length, found.last.notes.find? (·.1 = .options) = some (.options, ⟨head.rest, length⟩))
      ((all changeHead).matchStart? text) (changeStart.matchStart? text) := by
  have hrun : changeStart.run (.start text) some
      = ((all changeHead).reached (.start text)).findSome? fun mid =>
      (noted .options (one fun c => !isFiller c)).run mid some := by
    rw [changeStart, run_eq_findSome?, reached_all_append, findSome?_flatMap]
    simp only [← run_eq_findSome?]
    rfl
  have hhead : (all changeHead).matchStart? text
      = ((all changeHead).reached (.start text)).head?.map fun last => ⟨.start text, last⟩ := by
    rw [matchStart?, matchAt?, run_eq_findSome?]
    cases (all changeHead).reached (.start text) <;> rfl
  have hstart : changeStart.matchStart? text
      = (changeStart.run (.start text) some).map fun last => ⟨.start text, last⟩ := rfl
  rw [hstart, hrun]
  cases hreached : (all changeHead).reached (.start text) with
  | nil =>
      rw [hhead, hreached]
      exact .none
  | cons last others =>
      rw [hreached] at hhead
      obtain ⟨covered, htext, hfree⟩ := exists_covered_of_changeHead hhead
      have hopening : '(' ∈ last.rest := by
        rw [htext] at hbracket
        exact (List.mem_append.mp hbracket).resolve_left hfree
      obtain ⟨c, rest, hrest⟩ := List.exists_cons_of_ne_nil (List.ne_nil_of_mem hopening)
      have hkept : isFiller c = false := by
        refine Bool.or_eq_false_iff.mpr
          ⟨isBlank_of_changeHead hhead c (by simp [Match.rest, hrest]), ?_⟩
        rw [beq_eq_false_iff_ne]
        rintro rfl
        have hnil := hend covered rest (by rw [htext, Match.rest, hrest])
        rw [hrest, hnil] at hopening
        exact absurd hopening (by decide)
      have hfound : (noted .options (one fun c => !isFiller c)).run last some
          = some (.note .options last (last.past [c] rest)) := by
        rw [run_noted]
        exact run_one hrest (by rw [hkept]; rfl)
      rw [hhead, List.findSome?_cons, hfound]
      exact .some ⟨by simp [Match.text, Match.text?, Place.note], _, rfl⟩

/-- Where the changes begin with something, there are changes. -/
theorem alterTable_of_changeStart {text : Text} (h : (changeStart.matchStart? text).isSome = true) :
    (alterTable.matchStart? text).isSome = true := by
  obtain ⟨last, hlast⟩ := matchStart?_isSome_iff.mp h
  rw [changeStart, reached_all_append] at hlast
  obtain ⟨mid, hmid, -⟩ := List.mem_flatMap.mp hlast
  rw [matchStart?_alterTable, Option.isSome_map]
  exact matchStart?_isSome_iff.mpr ⟨mid, hmid⟩

/-- Where the changes begin with nothing, at most a semicolon is left. -/
theorem length_words_of_changeHead {text : Text}
    (hend : ∀ front rest, text = front ++ ';' :: rest → rest = [])
    (hstart : (changeStart.matchStart? text).isSome ≠ true) {head : Match Slot}
    (h : (all changeHead).matchStart? text = some head) : head.rest.words.length ≤ 1 := by
  obtain ⟨covered, hcovered, -⟩ := exists_covered_of_changeHead h
  have hblank := isBlank_of_changeHead h
  cases hrest : head.rest with
  | nil => exact Nat.zero_le 1
  | cons c rest =>
      have hfiller : isFiller c = true := by
        by_contra hsolid
        refine hstart (matchStart?_isSome_iff.mpr
          ⟨.note .options head.last (head.last.past [c] rest), ?_⟩)
        rw [changeStart, reached_all_append]
        refine List.mem_flatMap.mpr ⟨head.last, (mem_reached_of_matchStart? h).2,
          mem_reached_noted.mpr ⟨_, ?_, rfl⟩⟩
        exact mem_reached_one.mpr ⟨c, rest, hrest, by simpa using hsolid, rfl⟩
      obtain rfl : c = ';' := by
        rw [isFiller, hblank c (by rw [hrest]; rfl)] at hfiller
        simpa using hfiller
      obtain rfl := hend covered rest (by rw [hcovered, hrest])
      decide

end Grammar

/-- A statement without a bracket that changes a table or declares none has no effect. -/
theorem Progress.traceless_of_no_bracket {bare : Text} (hbracket : '(' ∉ bare)
    (h : definition? bare = none ∨ (Grammar.alterTable.matchStart? bare).isSome = true) :
    Progress.Traceless bare := by
  intro progress
  unfold readBare
  rw [Grammar.matchStart?_alterTable] at h ⊢
  cases hhead : (all Grammar.changeHead).matchStart? bare with
  | none =>
      rw [hhead] at h
      exact SameTables.defineTable_of_none progress (h.resolve_right Bool.false_ne_true)
  | some head =>
      obtain ⟨covered, hcovered, -⟩ := Grammar.exists_covered_of_changeHead hhead
      have hrest : '(' ∉ head.rest :=
        fun hmem => hbracket (hcovered ▸ List.mem_append_right covered hmem)
      obtain ⟨hprimary, hforeign⟩ := addedKeys_of_no_bracket hrest
      simp only [Option.map_some, Grammar.text_withOptions]
      exact SameTables.changeTable_of_no_keys progress _ hprimary hforeign

/-! ### A statement that ends with a name -/

/-- A stretch of words that are not long is passed over. -/
def ShortWords (place place' : Place Slot) : Prop :=
  ∃ words : List Text, place.rest.words = words ++ place'.rest.words ∧
    ∀ word ∈ words, word.length ≤ 5

namespace ShortWords

variable {place place' : Place Slot}

theorem refl (place : Place Slot) : ShortWords place place := ⟨[], rfl, by simp⟩

theorem trans {place'' : Place Slot} (h : ShortWords place place')
    (h' : ShortWords place' place'') :
    ShortWords place place'' := by
  obtain ⟨words, hwords, hshort⟩ := h
  obtain ⟨words', hwords', hshort'⟩ := h'
  exact ⟨words ++ words', by rw [hwords, hwords', List.append_assoc],
    List.forall_mem_append.mpr ⟨hshort, hshort'⟩⟩

theorem of_phrase {words : List String} {text : Text} (h : Phrase words text)
    (hletters : words.all isLetters = true) (hshort : ∀ word ∈ words, word.toList.length ≤ 5)
    {rest : Text} (hrest : place.rest = text ++ rest) :
    ShortWords place (place.past text rest) := by
  induction h generalizing place with
  | nil => exact ⟨[], by simp [hrest], by simp⟩
  | @cons word words text gap after hspells hne hblank _ ih =>
      obtain ⟨hword, hothers⟩ := Bool.and_eq_true_iff.mp hletters
      obtain ⟨hlength, hlengths⟩ := List.forall_mem_cons.mp hshort
      obtain ⟨b, gap, rfl⟩ := List.exists_cons_of_ne_nil hne
      obtain ⟨hb, hgap⟩ := List.forall_mem_cons.mp hblank
      have hsolid : ∀ c ∈ text, isBlank c = false := fun c hc =>
        isBlank_of_isWordChar (isWordChar_of_spells hspells hword c hc)
      have hfirst : place.rest.words = [text] ++ (after ++ rest).words := by
        have hgaps : place.rest = text ++ b :: (gap ++ (after ++ rest)) := by simp [hrest]
        rw [hgaps, Text.words_append_cons hb, Text.words_append_of_blank hgap,
          Text.words_of_forall (spells_ne_nil hspells hword) hsolid]
      obtain ⟨words, hwords, hshorter⟩ := @ih ⟨none, after ++ rest, 0, []⟩ hothers hlengths rfl
      refine ⟨text :: words, ?_, List.forall_mem_cons.mpr ⟨?_, hshorter⟩⟩
      · rw [hfirst, hwords]
        rfl
      · exact hspells.length_eq.trans_le hlength

theorem leading {words : List String} (hletters : words.all isLetters = true)
    (hshort : ∀ word ∈ words, word.toList.length ≤ 5)
    (h : place' ∈ (Grammar.leading words).reached place) :
    ShortWords place place' := by
  obtain ⟨front, rest, hrest, hphrase, rfl⟩ := mem_reached_leading.mp h
  exact of_phrase hphrase hletters hshort hrest

end ShortWords

/-- A pattern that is shut begins with something that is no filler. -/
theorem exists_head?_of_shut {p : Pattern Slot} {loose : Bool}
    (hp : p.prospect? = some ⟨.shut, loose⟩) {place mid : Place Slot} (h : mid ∈ p.reached place) :
    ∃ c ∈ place.rest.head?, isFiller c = false := by
  by_contra hnone
  refine matchAt?_eq_none_iff.mp (matchAt?_eq_none_of_shut hp rfl fun c hc => ?_) mid h
  by_contra hsolid
  exact hnone ⟨c, hc, by simpa using hsolid⟩

theorem coversOnly_identifier : (Grammar.identifier .name).CoversOnly fun c => !isBlank c := by
  have hsolid : ∀ {accepts : Char → Bool}, rejectsFillers accepts = true →
      ∀ c, accepts c = true → (!isBlank c) = true := by
    intro accepts hrejects c hc
    simp [isBlank_eq_false_of_rejectsFillers hrejects hc]
  have hopening : Grammar.openQuote.CoversOnly fun c => !isBlank c :=
    ⟨hsolid (by decide +kernel), trivial⟩
  have hclosing : Grammar.closeQuote.CoversOnly fun c => !isBlank c :=
    ⟨hsolid (by decide +kernel), trivial⟩
  have hname : (name : Pattern Slot).CoversOnly fun c => !isBlank c :=
    ⟨hsolid rejectsFillers_isWordChar, hsolid rejectsFillers_isWordChar⟩
  exact ⟨hopening, ⟨⟨hname, hclosing, hsolid (by decide +kernel), hopening⟩, trivial⟩,
    hname, hclosing⟩

/-- Where the changes begin, the name of the table is the last word in front of them. -/
theorem exists_words_changeHead {text : Text} {head : Match Slot}
    (h : (all Grammar.changeHead).matchStart? text = some head) :
    ∃ firsts name, text.words = firsts ++ name :: head.rest.words ∧ ∀ word ∈ firsts,
      word.length ≤ 5 := by
  obtain ⟨-, hhead⟩ := mem_reached_of_matchStart? h
  obtain ⟨_, hspaces, hbehind⟩ := mem_reached_all_cons.mp hhead
  obtain ⟨blanks, after, hafter, hblanks, rfl⟩ := mem_reached_many.mp hspaces
  obtain ⟨table, halter, hrest⟩ := mem_reached_all_cons.mp hbehind
  obtain ⟨here, honly, hlast⟩ := mem_reached_all_cons.mp hrest
  obtain ⟨mid, hname, hgap⟩ := mem_reached_all_cons.mp hlast
  obtain ⟨gap, rest, hrest, hne, hgap, hend⟩ := mem_reached_atLeastOne.mp hgap
  obtain ⟨b, gap, rfl⟩ := List.exists_cons_of_ne_nil hne
  obtain ⟨hb, hgap⟩ := List.forall_mem_cons.mp hgap
  have htext : text.words = after.words := by
    rw [show text = blanks ++ after from hafter, Text.words_append_of_blank hblanks]
  have htable : ShortWords _ table := .leading (by decide) (by decide) halter
  have hhere : ShortWords table here := by
    rcases mem_reached_opt.mp honly with honly | rfl
    · exact .leading (by decide) (by decide) honly
    · exact .refl _
  obtain ⟨firsts, hfirsts, hshort⟩ := htable.trans hhere
  obtain ⟨name, hcovered, -, hsolid⟩ := coversOnly_identifier.covers hname
  have hfull : name ≠ [] := by
    rintro rfl
    obtain ⟨c, hc, hkept⟩ := exists_head?_of_shut (Grammar.spread_identifier .name) hname
    obtain rfl : b = c := by simpa [hcovered, hrest] using hc
    rw [isFiller_of_isBlank hb] at hkept
    exact Bool.noConfusion hkept
  have hwords : here.rest.words = name :: rest.words := by
    rw [hcovered, hrest, List.cons_append, Text.words_append_cons hb,
      Text.words_append_of_blank hgap,
      Text.words_of_forall hfull fun c hc => by simpa using hsolid c hc]
    rfl
  refine ⟨firsts, name, ?_, hshort⟩
  rw [htext, Match.rest, hend, Place.rest_past, ← hwords, ← hfirsts]
  rfl

/-- The start of a table definition takes three words, and the first of them is long. -/
theorem exists_words_looseTable {text : Text} {header : Match Slot}
    (h : Grammar.looseTable.find? text = some header) :
    ∃ firsts first others, text.words = firsts ++ first :: others ∧ 6 ≤ first.length ∧
      2 ≤ others.length := by
  obtain ⟨near, far, rfl, mid, hmid⟩ := findFrom?_isSome_iff.mp (Option.isSome_of_eq_some h)
  obtain ⟨here, hcreate, hbehind⟩ := mem_reached_all_cons.mp hmid
  obtain ⟨table, hskipped, hrest⟩ := mem_reached_all_cons.mp hbehind
  obtain ⟨last, htable, hlast⟩ := mem_reached_all_cons.mp hrest
  obtain ⟨named, hcondition, hname⟩ := mem_reached_all_cons.mp hlast
  obtain ⟨_, rest, hfar, hphrase, rfl⟩ := mem_reached_leading.mp hcreate
  obtain ⟨word, gap, hspells, hne, hgap, rfl⟩ := phrase_singleton_iff.mp hphrase
  obtain ⟨_, rest', htableRest, hphrase', rfl⟩ := mem_reached_leading.mp htable
  obtain ⟨word', gap', hspells', hne', hgap', rfl⟩ := phrase_singleton_iff.mp hphrase'
  obtain ⟨skipped, hskipped, -⟩ := leads_of_mem_reached hskipped
  obtain ⟨condition, hcondition, -⟩ := leads_of_mem_reached hcondition
  obtain ⟨c, hc, hsolid⟩ := exists_head?_of_shut (Grammar.spread_identifier .name) hname
  obtain ⟨b, gap, rfl⟩ := List.exists_cons_of_ne_nil hne
  obtain ⟨b', gap', rfl⟩ := List.exists_cons_of_ne_nil hne'
  have hb : isBlank b = true := hgap b List.mem_cons_self
  have hb' : isBlank b' = true := hgap' b' List.mem_cons_self
  have hsplit : far = word ++ b ::
      (gap ++ (skipped ++ word') ++ b' :: (gap' ++ (condition ++ named.rest))) := by
    rw [Place.rest_past] at hskipped hcondition
    rw [show far = _ from hfar, hskipped, htableRest, hcondition]
    simp
  obtain ⟨firsts, first, hfirsts, hlength⟩ :=
    Text.exists_words_append near (spells_ne_nil hspells (by decide))
    fun c hc => isBlank_of_isWordChar (isWordChar_of_spells hspells (by decide) c hc)
  have hsecond : Text.words (gap ++ (skipped ++ word')) ≠ [] := by
    obtain ⟨letter, word', rfl⟩ := List.exists_cons_of_ne_nil (spells_ne_nil hspells' (by decide))
    refine Text.words_ne_nil_of_mem (isBlank_of_isWordChar
      (isWordChar_of_spells hspells' (by decide) letter List.mem_cons_self)) (by simp)
  have hthird : Text.words (gap' ++ (condition ++ named.rest)) ≠ [] :=
    Text.words_ne_nil_of_mem (Bool.or_eq_false_iff.mp hsolid).1
      (List.mem_append_right _ (List.mem_append_right _ (List.mem_of_mem_head? hc)))
  refine ⟨firsts, first, Text.words (gap ++ (skipped ++ word')) ++
    Text.words (gap' ++ (condition ++ named.rest)), ?_, ?_, ?_⟩
  · rw [hsplit, ← List.append_assoc, Text.words_append_cons hb, Text.words_append_cons hb', hfirsts]
    simp
  · have hletters : word.length = 6 := hspells.length_eq
    omega
  · have hpositive := List.length_pos_of_ne_nil hsecond
    have hpositive' := List.length_pos_of_ne_nil hthird
    rw [List.length_append]
    omega

/-- A statement that ends with the name of a table that it would change declares none. -/
theorem definition?_of_changeHead {text : Text} (hbracket : '(' ∉ text) {head : Match Slot}
    (h : (all Grammar.changeHead).matchStart? text = some head)
    (hends : head.rest.words.length ≤ 1) :
    definition? text = none := by
  have hstrict : Grammar.createTable.matchStart? text = none := by
    by_contra hfound
    obtain ⟨header, hheader⟩ := Option.ne_none_iff_exists'.mp hfound
    obtain ⟨table, htable, -⟩ := exists_tableHead_of_createTable hheader
    exact hbracket (by simp [htable, TableHead.before])
  have hpermissive : Grammar.looseTable.find? text = none := by
    by_contra hfound
    obtain ⟨header, hheader⟩ := Option.ne_none_iff_exists'.mp hfound
    obtain ⟨firsts, name, hwords, hshort⟩ := exists_words_changeHead h
    obtain ⟨firsts', first, others, hwords', hlong, hothers⟩ := exists_words_looseTable hheader
    rw [hwords] at hwords'
    rcases List.append_eq_append_iff.mp hwords' with ⟨between, rfl, hsame⟩ | ⟨between, rfl, hsame⟩
    · have hcount := congrArg List.length hsame
      simp only [List.length_cons, List.length_append] at hcount
      omega
    · cases between with
      | nil =>
          have hcount := congrArg List.length hsame
          simp only [List.nil_append, List.length_cons] at hcount
          omega
      | cons word between =>
          obtain ⟨rfl, -⟩ := List.cons.inj hsame
          have hlength := hshort first (by simp)
          omega
  unfold definition? readTable salvageTable
  rw [hstrict, hpermissive]
  rfl

end Schema

/-! ### Statements -/

open Progress

/-- Both spellings have the same signs. -/
theorem Padded.mem_wide_iff {padded : Padded} (h : Sound padded) {sign : Char}
    (hsign : isFiller sign = false) :
    sign ∈ wide padded ↔ sign ∈ tight padded := by
  rcases exists_first h hsign with ⟨htight, hwide⟩ | ⟨front, behind, rfl, -, -⟩
  · exact ⟨fun hmem => absurd rfl (hwide sign hmem), fun hmem => absurd rfl (htight sign hmem)⟩
  · simp

variable {statement : Padded}

/-- A semicolon ends the statement. -/
theorem Padded.Statement.rest_semicolon (h : Padded.Statement statement) (front rest : Text)
    (hsplit : wide statement = front ++ ';' :: rest) : rest = [] := by
  obtain ⟨before, after, rfl, rfl, hafter⟩ := List.map_eq_append_iff.mp hsplit
  obtain ⟨item, behind, rfl, hitem, rfl⟩ := List.map_eq_cons_iff.mp hafter
  obtain ⟨_ | c, d⟩ := item
  · rcases h.added before d behind rfl with ⟨hblank, -⟩ | ⟨-, rfl⟩
    · obtain rfl : d = ';' := hitem
      exact absurd hblank (by decide)
    · rfl
  · obtain rfl : d = ';' := hitem
    rcases h.own c ';' (by simp) with rfl | ⟨-, hblank⟩
    · exact absurd (by simp) h.body
    · exact absurd hblank (by decide)

theorem flatMap_eq_of_forall₂ {α β : Type} {f : α → List β} {items items' : List α}
    (h : List.Forall₂ (fun item item' => f item = f item') items items') :
    items.flatMap f = items'.flatMap f := by
  induction h with
  | nil => rfl
  | cons hitem _ ih => rw [List.flatMap_cons, List.flatMap_cons, hitem, ih]

/-- The same keys are added in both spellings of the changes. -/
theorem addedKeys_padded {changes : Padded} (h : Spaced changes) :
    addedPrimaryKeys (tight changes) = addedPrimaryKeys (wide changes) ∧
      ∀ name, addedForeignKeys name (tight changes) = addedForeignKeys name (wide changes) := by
  refine ⟨flatMap_eq_of_forall₂ ?_, fun name => flatMap_eq_of_forall₂ ?_⟩
  · exact (findAll_paired h.toSound Grammar.prospect?_addPrimaryKey rfl).imp fun _ _ =>
      h.columns_eq .addPrimaryKey
  · refine (findAll_paired h.toSound Grammar.prospect?_addForeignKey rfl).imp fun _ _ hpaired => ?_
    exact h.refersAlike .addForeignKey Grammar.notesWord_addForeignKey hpaired name _ _
      (h.columns_eq .addForeignKey hpaired)

/-- A statement with a list in it is read alike in both spellings. -/
theorem readBare_of_bracket (h : Padded.Statement statement) (hbracket : '(' ∈ tight statement) :
    ReadAlike (tight statement) (wide statement) := by
  have hstart := matchStart?_of_loose h.toSound Grammar.prospect?_changeStart rfl
  have hhead := Grammar.matchStart?_changeStart hbracket fun front rest hsplit =>
    absurd (by rw [hsplit]; simp) h.body
  have hhead' := Grammar.matchStart?_changeStart ((mem_wide_iff h.toSound (by decide)).mpr hbracket)
    h.rest_semicolon
  have hchange := Grammar.matchStart?_alterTable (tight statement)
  have hchange' := Grammar.matchStart?_alterTable (wide statement)
  generalize Grammar.changeStart.matchStart? (tight statement) = start,
    Grammar.changeStart.matchStart? (wide statement) = start' at hstart hhead hhead'
  generalize (all Grammar.changeHead).matchStart? (tight statement) = head at hhead hchange
  generalize (all Grammar.changeHead).matchStart? (wide statement) = head' at hhead' hchange'
  cases hstart with
  | none =>
      cases hhead
      cases hhead'
      exact readAlike_of_definition hchange hchange' (definition?_padded h)
  | @some found found' hpaired =>
      cases hhead with
      | @some head _ hfound =>
      cases hhead' with
      | @some head' _ hfound' =>
      obtain ⟨hname, length, hnote⟩ := hfound
      obtain ⟨hname', length', hnote'⟩ := hfound'
      have hsame := Paired.text_eq ⟨_, _, hpaired⟩ h.toSound Grammar.notesWord_changeStart
      have hnoted := Paired.noted ⟨_, _, hpaired⟩ .options
      rw [hnote, hnote'] at hnoted
      cases hnoted with
      | some hnoted =>
          obtain ⟨-, front, covered, rest, hsplit, honward, honward', -⟩ := hnoted
          have hchanges : Spaced (covered ++ rest) :=
            h.toSpaced.of_within ⟨front, [], by simp [hsplit]⟩
          obtain ⟨hprimary, hforeign⟩ := addedKeys_padded hchanges
          intro progress other hprogress
          unfold readBare
          rw [hchange, hchange']
          simp only [Option.map_some, Grammar.text_withOptions,
            Grammar.text_withOptions_of_ne _ (by decide : Slot.name ≠ .options)]
          rw [hname, hsame, ← hname', show head.rest = _ from honward,
            show head'.rest = _ from honward']
          exact hprogress.changeTable hprimary hforeign

/-- A statement without a list is read alike in both spellings. -/
theorem readBare_of_no_bracket (h : Padded.Statement statement) (hbracket : '(' ∉ tight statement) :
    ReadAlike (tight statement) (wide statement) := by
  have hbracket' : '(' ∉ wide statement :=
    fun hmem => hbracket ((mem_wide_iff h.toSound (by decide)).mp hmem)
  have hstart := isSome_eq_of_rel (matchStart?_of_loose h.toSound Grammar.prospect?_changeStart rfl)
  have hdefinition := definition?_padded h
  by_cases hchanged : (Grammar.changeStart.matchStart? (tight statement)).isSome = true
  · -- Changes without a list add no keys.
    exact (traceless_of_no_bracket hbracket
      (.inr (Grammar.alterTable_of_changeStart hchanged))).readAlike
      (traceless_of_no_bracket hbracket'
        (.inr (Grammar.alterTable_of_changeStart (hstart ▸ hchanged))))
  · by_cases hnone : definition? (tight statement) = none
    · exact (traceless_of_no_bracket hbracket (.inl hnone)).readAlike
        (traceless_of_no_bracket hbracket' (.inl (hdefinition ▸ hnone)))
    · have hunchanged : ∀ {text : Text}, '(' ∉ text →
          (∀ front rest, text = front ++ ';' :: rest → rest = []) →
          (Grammar.changeStart.matchStart? text).isSome ≠ true → definition? text ≠ none →
          Grammar.alterTable.matchStart? text = none := by
        intro text hfree hend hstart hdeclared
        rw [Grammar.matchStart?_alterTable, Option.map_eq_none_iff]
        by_contra hhead
        obtain ⟨head, hhead⟩ := Option.ne_none_iff_exists'.mp hhead
        exact hdeclared (definition?_of_changeHead hfree hhead
          (Grammar.length_words_of_changeHead hend hstart hhead))
      refine readAlike_of_definition (hunchanged hbracket ?_ hchanged hnone)
        (hunchanged hbracket' h.rest_semicolon (hstart ▸ hchanged) (hdefinition ▸ hnone))
        hdefinition
      exact fun front rest hsplit => absurd (by rw [hsplit]; simp) h.body

/-- **A statement is read alike in both spellings.** -/
theorem readBare_padded (h : Padded.Statement statement) :
    ReadAlike (tight statement) (wide statement) := by
  by_cases hbracket : '(' ∈ tight statement
  · exact readBare_of_bracket h hbracket
  · exact readBare_of_no_bracket h hbracket

end Diagrams
