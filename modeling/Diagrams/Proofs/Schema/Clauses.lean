/-
The clauses of a written column, as the searches in its options see them.

Each search there wants a word at a word edge: the first word of a mark, or the word for a
reference.  The other clauses do not hold that word with a blank behind it, whatever the names
in them say, so they are passed over; and where the wanted clause stands, the pattern matches
it.  So a mark is found just where it is written, and of the references the first one is
found, with what it refers to.
-/
import Diagrams.Proofs.Schema.WordSearch

namespace Diagrams.Schema.Written

open Pattern

variable {place : Place Slot}

/-! ### Word edges -/

/-- A word starts at a word edge if a space stands in front of it. -/
theorem atWordEdge_front {word rest : Text} (h : place.rest = word ++ rest) (hne : word ≠ [])
    (hword : ∀ c ∈ word, isWordChar c = true) (hbefore : place.before = some ' ') :
    place.atWordEdge = true := by
  obtain ⟨c, word, rfl⟩ := List.exists_cons_of_ne_nil hne
  have hc := hword c List.mem_cons_self
  have hfirst : place.rest.head? = some c := by rw [h]; rfl
  have hspace : isWordChar ' ' = false := by decide
  simp [Place.atWordEdge, Place.follows, hbefore, hspace, Place.precedes, hfirst, hc]

/-- A word ends at a word edge if no letter stands behind it. -/
theorem atWordEdge_behind {front word rest : Text} (hne : word ≠ [])
    (hword : ∀ c ∈ word, isWordChar c = true) (hrest : ∀ c ∈ rest.head?, isWordChar c = false) :
    (place.past (front ++ word) rest).atWordEdge = true := by
  obtain ⟨near, c, rfl⟩ := (List.eq_nil_or_concat' word).resolve_left hne
  have hc := hword c (by simp)
  have hbefore : (place.past (front ++ (near ++ [c])) rest).follows isWordChar = true := by
    simp [Place.follows, hc]
  have hbehind : (place.past (front ++ (near ++ [c])) rest).precedes isWordChar = false := by
    cases rest with
    | nil => rfl
    | cons d rest => exact hrest d rfl
  rw [Place.atWordEdge, hbefore, hbehind]
  rfl

/-! ### Other clauses -/

/-- Clauses go on with a space. -/
theorem Clause.head?_clauses (clauses : List Clause) :
    ∀ c ∈ (clauses.flatMap Clause.text).head?, c = ' ' := by
  intro c hc
  cases clauses with
  | nil => simp at hc
  | cons clause clauses => simpa [Clause.text, eq_comm] using hc

theorem Clause.not_word_head?_clauses (clauses : List Clause) :
    ∀ c ∈ (clauses.flatMap Clause.text).head?, isWordChar c = false := by
  intro c hc
  rw [Clause.head?_clauses clauses c hc]
  decide

/-- A clause is passed over by a search for a word that its own words do not end with. -/
theorem skips_clause {word : String} {p : Pattern Slot} (hp : BeginsWith word p) {clause : Clause}
    (h : clause.WellFormed) {rest : Text}
    (hword : ∀ text ∈ clause.word.toList.tails, ¬ Spells word text)
    (hsecond : ∀ mark : Mark, ∀ text ∈ mark.words.2.toList.tails, ¬ Spells word text)
    (hrest : ∀ c ∈ rest.head?, isWordChar c = false) : p.Skips clause.text rest := by
  have hletters : p.Skips clause.word.toList ((' ' :: clause.behind) ++ rest) :=
    hp.skips_of_tails (isWordChar_of_isLetters clause.isLetters_word)
      (forall_head?_cons (by decide) _) hword
  have hbehind : p.Skips clause.behind rest := by
    cases clause with
    | mark mark =>
        exact hp.skips_of_tails (isWordChar_of_isLetters mark.isLetters_words.2) hrest
          (hsecond mark)
    | reference target column =>
        refine (hp.skips_name h.1 (fun c hc => ?_)).append
          (hp.skips_bracketed (List.forall_mem_singleton.mpr h.2))
        obtain rfl : '(' = c := by simpa [bracketed] using hc
        decide
  exact hp.skips_space.append (hletters.append (hp.skips_space.append hbehind))

/-! ### Marks -/

/-- The pattern for a mark. -/
abbrev markPattern (mark : Mark) : Pattern Slot :=
  all [wordEdge, Grammar.phrase [mark.words.1, mark.words.2], wordEdge]

theorem beginsWith_markPattern (mark : Mark) : BeginsWith mark.words.1 (markPattern mark) :=
  (BeginsWith.phrase mark.isLetters_words.1).edge

theorem run_markPattern {mark : Mark} {rest : Text} (hbefore : place.before = some ' ')
    (hplace : place.rest = mark.words.1.toList ++ ' ' :: (mark.words.2.toList ++ rest))
    (hrest : ∀ c ∈ rest.head?, isWordChar c = false) :
    (markPattern mark).run place some
      = some (place.past (mark.words.1.toList ++ ' ' :: mark.words.2.toList) rest) := by
  obtain ⟨hfirst, hsecond⟩ := mark.isLetters_words
  have hfront : place.atWordEdge = true := atWordEdge_front hplace
    (spells_ne_nil (spells_self _) hfirst) (isWordChar_of_isLetters hfirst) hbefore
  have hbehind := @atWordEdge_behind place (mark.words.1.toList ++ [' ']) _ _
    (spells_ne_nil (spells_self mark.words.2) hsecond) (isWordChar_of_isLetters hsecond) hrest
  rw [run_all_cons, run_wordEdge hfront, run_all_cons]
  refine run_phrase hplace (spells_self _) (spells_self _) hsecond ?_
  rw [run_all_cons, run_wordEdge (by simpa using hbehind), run_all_nil]

/-- Clauses that are another mark, or none, do not hold the words of a mark. -/
theorem not_spells_of_isMark {mark : Mark} {clause : Clause} (h : clause.isMark mark = false) :
    ∀ text ∈ clause.word.toList.tails, ¬ Spells mark.words.1 text := by
  cases clause with
  | mark other => revert h; cases mark <;> cases other <;> decide
  | reference target column =>
      cases mark <;> (show ∀ text ∈ "REFERENCES".toList.tails, _) <;> decide

/-- **A mark is found just where it is written.** -/
theorem isSome_findFrom?_mark {clauses : List Clause} (h : ∀ clause ∈ clauses, clause.WellFormed)
    (mark : Mark) (before : Option Char) (offset : Nat) :
    ((markPattern mark).findFrom? before offset (clauses.flatMap Clause.text)).isSome
      = clauses.any (·.isMark mark) := by
  have hp := beginsWith_markPattern mark
  induction clauses generalizing before offset with
  | nil =>
      rw [List.flatMap_nil, hp.findFrom?_nil]
      rfl
  | cons clause clauses ih =>
      obtain ⟨hclause, hothers⟩ := List.forall_mem_cons.mp h
      have hrest := Clause.not_word_head?_clauses clauses
      rw [List.flatMap_cons, List.any_cons]
      cases hmark : clause.isMark mark with
      | true =>
          obtain rfl : clause = .mark mark := by
            cases clause with
            | mark other => rw [eq_of_beq (show (mark == other) = true from hmark)]
            | reference target column => exact Bool.noConfusion hmark
          rw [Clause.text, List.cons_append, hp.findFrom?_space,
            findFrom?_eq_of_run (run_markPattern rfl (List.append_assoc _ _ _) hrest)]
          rfl
      | false =>
          have hskips := skips_clause hp hclause (not_spells_of_isMark hmark)
            (by cases mark <;> intro other <;> cases other <;> decide) hrest
          rw [hskips.findFrom?, ih hothers, Bool.false_or]

/-! ### References -/

theorem beginsWith_inlineReferences : BeginsWith "REFERENCES" Grammar.inlineReferences :=
  (BeginsWith.leading (by decide) : BeginsWith "REFERENCES" (all [Grammar.references])).edge

theorem run_inlineReferences {target column : Name} {rest : Text}
    (h : (Clause.reference target column).WellFormed) (hbefore : place.before = some ' ')
    (hplace : place.rest
      = spaced ["REFERENCES"] ++ (target.text ++ (bracketed (nameList [column]) ++ rest))) :
    ∃ last, Grammar.inlineReferences.run place some = some last ∧
      (Match.mk place last).text .target = target.name ∧
      (Match.mk place last).text? .targetColumns = some (nameList [column]) := by
  have hword : place.rest = "REFERENCES".toList ++
      ' ' :: (target.text ++ (bracketed (nameList [column]) ++ rest)) := by
    rw [hplace]
    simp only [spaced, List.append_assoc, List.cons_append, List.nil_append]
  have hedge : place.atWordEdge = true :=
    atWordEdge_front hword (by decide) (isWordChar_of_isLetters (by decide)) hbefore
  have hreferences : Grammar.references.run place some = some _ :=
    run_references h.1 (.singleton h.2) hplace rfl
  have hrun : Grammar.inlineReferences.run place some = Grammar.references.run place some := by
    unfold Grammar.inlineReferences
    rw [run_all_cons, run_wordEdge hedge]
    rfl
  exact ⟨_, hrun.trans hreferences, by simp [Match.text], by simp⟩

/-- Marks are no references. -/
theorem not_spells_of_reference? {clause : Clause} (h : clause.reference? = none) :
    ∀ text ∈ clause.word.toList.tails, ¬ Spells "REFERENCES" text := by
  cases clause with
  | mark mark => cases mark <;> decide
  | reference target column => exact absurd h (by simp [Clause.reference?])

/-- **The first reference is found, with the table and the column that it refers to.** -/
theorem map_findFrom?_references {clauses : List Clause}
    (h : ∀ clause ∈ clauses, clause.WellFormed) (before : Option Char) (offset : Nat) :
    (Grammar.inlineReferences.findFrom? before offset (clauses.flatMap Clause.text)).map
        (fun found => (found.text .target, found.text? .targetColumns))
      = (clauses.findSome? Clause.reference?).map
          fun reference => (reference.1.name, some (nameList [reference.2])) := by
  have hp := beginsWith_inlineReferences
  induction clauses generalizing before offset with
  | nil =>
      rw [List.flatMap_nil, hp.findFrom?_nil]
      rfl
  | cons clause clauses ih =>
      obtain ⟨hclause, hothers⟩ := List.forall_mem_cons.mp h
      rw [List.flatMap_cons, List.findSome?_cons]
      cases hreference : clause.reference? with
      | none =>
          have hskips := skips_clause hp hclause (not_spells_of_reference? hreference)
            (by intro other; cases other <;> decide) (Clause.not_word_head?_clauses clauses)
          rw [hskips.findFrom?, ih hothers]
      | some reference =>
          obtain ⟨target, column, rfl⟩ : ∃ target column, clause = .reference target column := by
            cases clause with
            | mark mark => exact absurd hreference (by simp [Clause.reference?])
            | reference target column => exact ⟨target, column, rfl⟩
          obtain rfl : (target, column) = reference := Option.some.inj hreference
          have htext : (Clause.reference target column).text ++ clauses.flatMap Clause.text
              = ' ' :: (spaced ["REFERENCES"] ++ (target.text ++ (bracketed (nameList [column]) ++
                  clauses.flatMap Clause.text))) := by
            simp only [Clause.text, Clause.word, Clause.behind, spaced, List.append_assoc,
              List.cons_append, List.nil_append]
          obtain ⟨last, hrun, htarget, hcolumns⟩ :=
            @run_inlineReferences ⟨some ' ', _, offset + 1, []⟩ target column
              (clauses.flatMap Clause.text) hclause rfl rfl
          rw [htext, hp.findFrom?_space, findFrom?_eq_of_run hrun]
          exact congrArg some (Prod.ext htarget hcolumns)

/-! ### What a column says with its clauses -/

variable {column : LinkedColumn}

theorem occursIn_clauses (h : column.WellFormed) (mark : Mark) :
    (markPattern mark).occursIn (column.clauses.flatMap Clause.text) = column.isMarked mark :=
  isSome_findFrom?_mark h.clauses mark none 0

theorem map_find?_clauses (h : column.WellFormed) :
    (Grammar.inlineReferences.find? (column.clauses.flatMap Clause.text)).map
        (fun found => (found.text .target, found.text? .targetColumns))
      = column.reference?.map fun reference => (reference.1.name, some (nameList [reference.2])) :=
  map_findFrom?_references h.clauses none 0

end Diagrams.Schema.Written
