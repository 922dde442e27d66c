/-
The patterns of the grammar do not count blanks.

Words, names and signs are shut in front of blanks, and where the grammar has blanks, one of these
or the end of the pattern comes next.  So for all patterns but those that take a whole rest of the
text it can be read off what is known at their start.
-/
import Diagrams.Proofs.Pattern.Spread
import Diagrams.Proofs.Schema.BlindGrammar
import Diagrams.Proofs.Schema.OpenList

namespace Diagrams

/-! ### The parts of patterns -/

theorem rejectsFillers_of_forall {accepts : Char → Bool}
    (h : ∀ c, isFiller c = true → accepts c = false) :
    rejectsFillers accepts = true := by
  have hblanks : (blanks.all fun code => isFiller (Char.ofNat code)) = true := rfl
  refine Bool.and_eq_true_iff.mpr
    ⟨by rw [h ';' rfl]; rfl, List.all_eq_true.mpr fun code hcode => ?_⟩
  rw [h _ (List.all_eq_true.mp hblanks code hcode)]
  rfl

theorem rejectsFillers_isWordChar : rejectsFillers isWordChar = true :=
  rejectsFillers_of_forall fun _ => isWordChar_of_isFiller

theorem rejectsFillers_matchesLetter {letter : Char} (h : letter.isAlpha = true) :
    rejectsFillers (matchesLetter letter) = true := by
  refine rejectsFillers_of_forall fun c hc => ?_
  by_contra hmatches
  have hletter := isWordChar_of_isLatinLetter
    (isLatinLetter_of_matchesLetter h (by simpa using hmatches))
  rw [isWordChar_of_isFiller hc] at hletter
  exact Bool.noConfusion hletter

theorem rejectsFillers_isBlank : rejectsFillers isBlank = false := rfl

theorem acceptsBlanks_isBlank : acceptsBlanks isBlank = true := rfl

theorem rejectsFillers_inner : rejectsFillers (· != ')') = false := rfl

theorem acceptsBlanks_inner : acceptsBlanks (· != ')') = true := rfl

namespace Pattern

variable {σ : Type} {accepts : Char → Bool} {prospect : Prospect} {outlook : Outlook} {loose : Bool}

@[simp] theorem spread_empty : (empty : Pattern σ).spread prospect = some prospect := rfl

@[simp] theorem spread_seq (p q : Pattern σ) :
    (seq p q).spread prospect = (q.spread prospect).bind p.spread := rfl

@[simp] theorem spread_noted (slot : σ) (p : Pattern σ) :
    (noted slot p).spread prospect = p.spread prospect := rfl

@[simp] theorem spread_wordEdge :
    (wordEdge : Pattern σ).spread prospect = some ⟨prospect.outlook.doubted, false⟩ := rfl

@[simp] theorem spread_all_nil : (all [] : Pattern σ).spread prospect = some prospect :=
  spread_empty

@[simp] theorem spread_all_cons (p : Pattern σ) (ps : List (Pattern σ)) :
    (all (p :: ps)).spread prospect = ((all ps).spread prospect).bind p.spread := by
  cases ps <;> rfl

theorem spread_alt {p q : Pattern σ} {here there : Prospect} (hp : p.spread prospect = some here)
    (hq : q.spread prospect = some there) :
    (alt p q).spread prospect = some ⟨here.outlook.either there.outlook,
      here.loose && there.loose⟩ := by
  rw [spread, hp, hq]

theorem spread_one (h : rejectsFillers accepts = true) :
    (one accepts : Pattern σ).spread prospect = some ⟨.shut, false⟩ :=
  if_pos h

theorem spread_many (h : rejectsFillers accepts = true) :
    (many .greedy accepts : Pattern σ).spread prospect = some ⟨prospect.outlook, false⟩ :=
  if_pos h

/-- A blank in front of a dry outlook. -/
theorem spread_one_of_dry (h : rejectsFillers accepts = false)
    (hblanks : acceptsBlanks accepts = true) :
    (one accepts : Pattern σ).spread ⟨.dry, true⟩ = some ⟨.dry, false⟩ := by
  show (if rejectsFillers accepts then _ else if acceptsBlanks accepts && true &&
    Outlook.isDry .dry then _ else _) = _
  rw [h, hblanks]
  rfl

theorem spread_many_shut (h : rejectsFillers accepts = false)
    (hblanks : acceptsBlanks accepts = true) :
    (many .greedy accepts : Pattern σ).spread ⟨.shut, loose⟩ = some ⟨.dry, true⟩ := by
  show (if rejectsFillers accepts then _ else if acceptsBlanks accepts then _ else _) = _
  rw [h, hblanks]
  rfl

theorem spread_many_sure (h : rejectsFillers accepts = false)
    (hblanks : acceptsBlanks accepts = true) :
    (many .greedy accepts : Pattern σ).spread ⟨.sure, loose⟩ = some ⟨.sure, true⟩ := by
  show (if rejectsFillers accepts then _ else if acceptsBlanks accepts then _ else _) = _
  rw [h, hblanks]
  rfl

@[simp] theorem spread_name : (name : Pattern σ).spread prospect = some ⟨.shut, false⟩ := by
  rw [name, atLeastOne, spread_seq, spread_many rejectsFillers_isWordChar, Option.bind_some,
    spread_one rejectsFillers_isWordChar]

@[simp] theorem spread_spaces_shut :
    (spaces : Pattern σ).spread ⟨.shut, loose⟩ = some ⟨.dry, true⟩ :=
  spread_many_shut rejectsFillers_isBlank acceptsBlanks_isBlank

@[simp] theorem spread_spaces_sure :
    (spaces : Pattern σ).spread ⟨.sure, loose⟩ = some ⟨.sure, true⟩ :=
  spread_many_sure rejectsFillers_isBlank acceptsBlanks_isBlank

@[simp] theorem spread_gap : (gap : Pattern σ).spread ⟨.shut, loose⟩ = some ⟨.dry, false⟩ := by
  show ((many .greedy isBlank : Pattern σ).spread ⟨.shut, loose⟩).bind (one isBlank).spread = _
  rw [spread_many_shut rejectsFillers_isBlank acceptsBlanks_isBlank, Option.bind_some,
    spread_one_of_dry rejectsFillers_isBlank acceptsBlanks_isBlank]

theorem spread_keyword {word : String} (h : isLetters word = true) :
    (keyword word : Pattern σ).spread prospect = some ⟨.shut, false⟩ := by
  obtain ⟨hne, halpha⟩ := Bool.and_eq_true_iff.mp h
  unfold keyword
  generalize word.toList = letters at hne halpha
  induction letters with
  | nil => exact absurd hne Bool.false_ne_true
  | cons letter letters ih =>
      obtain ⟨hletter, hothers⟩ := Bool.and_eq_true_iff.mp halpha
      have hrest : ∃ mid,
          (all (letters.map fun c => one (matchesLetter c)) : Pattern σ).spread prospect
          = some mid := by
        cases letters with
        | nil => exact ⟨prospect, rfl⟩
        | cons other others => exact ⟨_, ih rfl hothers⟩
      obtain ⟨mid, hmid⟩ := hrest
      rw [List.map_cons, spread_all_cons, hmid, Option.bind_some,
        spread_one (rejectsFillers_matchesLetter hletter)]

theorem spread_opt {p : Pattern σ} {here : Prospect} (hp : p.spread prospect = some here) :
    (opt p).spread prospect
      = some ⟨here.outlook.either prospect.outlook, here.loose && prospect.loose⟩ :=
  spread_alt hp rfl

/-- Choices that are all shut. -/
theorem spread_oneOf {ps : List (Pattern σ)} (hne : ps ≠ [])
    (h : ∀ p ∈ ps, p.spread prospect = some ⟨.shut, false⟩) :
    (oneOf ps).spread prospect = some ⟨.shut, false⟩ := by
  induction ps with
  | nil => exact absurd rfl hne
  | cons p ps ih =>
      obtain ⟨hp, hothers⟩ := List.forall_mem_cons.mp h
      cases ps with
      | nil => exact hp
      | cons q qs => exact spread_alt hp (ih (List.cons_ne_nil q qs) hothers)

end Pattern

namespace Schema.Grammar

open Pattern

variable {prospect : Prospect} {loose : Bool}

/-- Whether all words are words of letters, and there is one. -/
def areWords (words : List String) : Bool := !words.isEmpty && words.all isLetters

theorem spread_leading {words : List String} (h : areWords words = true) :
    (leading words).spread ⟨.shut, loose⟩ = some ⟨.shut, false⟩ := by
  obtain ⟨hne, hwords⟩ := Bool.and_eq_true_iff.mp h
  clear h
  unfold leading
  induction words with
  | nil => exact absurd hne Bool.false_ne_true
  | cons word words ih =>
      obtain ⟨hword, hothers⟩ := Bool.and_eq_true_iff.mp hwords
      have hrest : ∃ loose',
          (all (words.map fun word => seq (keyword word) gap) : Pattern Slot).spread
          ⟨.shut, loose⟩ = some ⟨.shut, loose'⟩ := by
        cases words with
        | nil => exact ⟨loose, rfl⟩
        | cons other others => exact ⟨false, ih rfl hothers⟩
      obtain ⟨loose', hrest⟩ := hrest
      rw [List.map_cons, spread_all_cons, hrest, Option.bind_some, spread_seq, spread_gap,
        Option.bind_some, spread_keyword hword]

theorem spread_phrase {first second : String} (hfirst : isLetters first = true)
    (hsecond : isLetters second = true) :
    (phrase [first, second]).spread prospect = some ⟨.shut, false⟩ := by
  show (all [keyword first, gap, keyword second]).spread prospect = _
  simp -implicitDefEqProofs [spread_keyword hfirst, spread_keyword hsecond]

theorem spread_lit {c : Char} (h : isFiller c = false) :
    (lit c : Pattern Slot).spread prospect = some ⟨.shut, false⟩ := by
  refine spread_one (rejectsFillers_of_forall fun d hd => ?_)
  rw [beq_eq_false_iff_ne]
  rintro rfl
  rw [h] at hd
  exact Bool.noConfusion hd

@[simp] theorem spread_openQuote :
    openQuote.spread prospect = some ⟨Outlook.shut.either prospect.outlook, false⟩ :=
  spread_opt (spread_one (rfl))

@[simp] theorem spread_closeQuote :
    closeQuote.spread prospect = some ⟨Outlook.shut.either prospect.outlook, false⟩ :=
  spread_opt (spread_one (rfl))

theorem spread_qualified {last : Pattern Slot}
    (hlast : ∀ prospect, last.spread prospect = some ⟨.shut, false⟩) :
    (qualified last).spread prospect = some ⟨.shut, false⟩ := by
  have hschema : (all [name, closeQuote, lit '.', openQuote]).spread ⟨.shut, false⟩
      = some ⟨.shut, false⟩ := by
    simp -implicitDefEqProofs (disch := decide) [spread_lit]
  simp -implicitDefEqProofs [qualified, hlast, spread_opt hschema, Outlook.either]

@[simp] theorem spread_identifier (slot : Slot) :
    (identifier slot).spread prospect = some ⟨.shut, false⟩ :=
  spread_qualified fun _ => spread_name

/-- Whatever stands between brackets, the bracket that closes them comes behind. -/
@[simp] theorem spread_inner :
    (many .greedy (· != ')') : Pattern Slot).spread ⟨.shut, loose⟩ = some ⟨.dry, true⟩ :=
  spread_many_shut rejectsFillers_inner acceptsBlanks_inner

@[simp] theorem spread_columnList (slot : Slot) :
    (columnList slot).spread prospect = some ⟨.shut, false⟩ := by
  have hfirst : (one (· != ')') : Pattern Slot).spread ⟨.dry, true⟩ = some ⟨.dry, false⟩ :=
    spread_one_of_dry rejectsFillers_inner acceptsBlanks_inner
  simp -implicitDefEqProofs (disch := decide) [columnList, atLeastOne, spread_lit, hfirst]

@[simp] theorem spread_ifNotExists :
    ifNotExists.spread ⟨.shut, loose⟩ = some ⟨.shut, false⟩ :=
  spread_opt (spread_leading (by decide))

@[simp] theorem spread_indexMethod :
    indexMethod.spread ⟨.shut, loose⟩ = some ⟨.shut, false⟩ := by
  have hmethod : (all [leading ["USING"], name, spaces]).spread ⟨.shut, loose⟩
      = some ⟨.shut, false⟩ := by
    simp -implicitDefEqProofs (disch := decide) [spread_leading]
  exact spread_opt hmethod

@[simp] theorem spread_indexName :
    indexName.spread ⟨.shut, loose⟩ = some ⟨.shut, false⟩ := by
  have hname : (all [name, spaces] : Pattern Slot).spread ⟨.shut, loose⟩
      = some ⟨.shut, false⟩ := by simp
  exact spread_opt hname

@[simp] theorem spread_references :
    references.spread ⟨.sure, loose⟩ = some ⟨.shut, false⟩ := by
  simp -implicitDefEqProofs (disch := decide)
    [references, spread_opt (spread_columnList _), spread_leading, Outlook.either]

@[simp] theorem spread_constraintName :
    constraintName.spread ⟨.shut, loose⟩ = some ⟨.dry, true⟩ := by
  have hconstraint : (all [leading ["CONSTRAINT"], qualified name, gap]).spread ⟨.shut, loose⟩
      = some ⟨.shut, false⟩ := by
    simp -implicitDefEqProofs (disch := decide)
      [spread_leading, spread_qualified fun _ => spread_name]
  simp -implicitDefEqProofs [constraintName, spread_opt hconstraint, Outlook.either]

@[simp] theorem spread_addConstraint :
    addConstraint.spread ⟨.shut, loose⟩ = some ⟨.shut, false⟩ := by
  have hconstraint : (all [leading ["CONSTRAINT"], openQuote, name, closeQuote, gap]).spread
      ⟨.shut, loose⟩ = some ⟨.shut, false⟩ := by
    simp -implicitDefEqProofs (disch := decide) [spread_leading, Outlook.either]
  simp -implicitDefEqProofs (disch := decide)
    [addConstraint, spread_opt hconstraint, spread_leading, Outlook.either]

/-! ### Statements -/

theorem prospect?_createTable : createTable.prospect? = some ⟨.dry, true⟩ := by
  have hscope : (oneOf [leading ["GLOBAL"], leading ["LOCAL"]]).spread ⟨.shut, false⟩
      = some ⟨.shut, false⟩ :=
    spread_oneOf (by simp) (by simp -implicitDefEqProofs (disch := decide) [spread_leading])
  have htemporary : (all [opt (oneOf [leading ["GLOBAL"], leading ["LOCAL"]]), keyword "TEMP",
      opt (keyword "ORARY"), gap]).spread ⟨.shut, false⟩ = some ⟨.shut, false⟩ := by
    simp -implicitDefEqProofs (disch := decide)
      [spread_opt hscope, spread_opt (spread_keyword _), spread_keyword, Outlook.either]
  simp -implicitDefEqProofs (disch := decide)
    [prospect?, createTable, spread_lit, spread_leading, spread_opt htemporary, Outlook.either]

theorem prospect?_looseTable : looseTable.prospect? = some ⟨.shut, false⟩ := by
  have hwords : ∀ n, (lazyUpTo (all [name, gap] : Pattern Slot) n).spread ⟨.shut, false⟩
      = some ⟨.shut, false⟩ := by
    intro n
    induction n with
    | zero => rfl
    | succ n ih =>
        have hword : (seq (all [name, gap]) (lazyUpTo (all [name, gap]) n) : Pattern Slot).spread
            ⟨.shut, false⟩ = some ⟨.shut, false⟩ := by
          simp -implicitDefEqProofs [ih]
        exact spread_alt spread_empty hword
  simp -implicitDefEqProofs (disch := decide) [prospect?, looseTable, spread_leading, hwords]

/-! ### Parts of a table definition -/

theorem prospect?_primaryKeyPart : primaryKeyPart.prospect? = some ⟨.dry, true⟩ := by
  simp -implicitDefEqProofs (disch := decide) [prospect?, primaryKeyPart, spread_phrase]

theorem prospect?_foreignKeyPart : foreignKeyPart.prospect? = some ⟨.dry, true⟩ := by
  simp -implicitDefEqProofs (disch := decide) [prospect?, foreignKeyPart, spread_phrase]

theorem prospect?_otherConstraint : otherConstraint.prospect? = some ⟨.dry, true⟩ := by
  have hindex : ∀ {prospect},
      (oneOf [keyword "KEY", keyword "INDEX"] : Pattern Slot).spread prospect
      = some ⟨.shut, false⟩ := spread_oneOf (by simp)
        (by simp -implicitDefEqProofs (disch := decide) [spread_keyword])
  have hscope : (oneOf [leading ["FULLTEXT"], leading ["SPATIAL"]]).spread ⟨.shut, false⟩
      = some ⟨.shut, false⟩ := spread_oneOf (by simp)
        (by simp -implicitDefEqProofs (disch := decide) [spread_leading])
  have hunique : (all [gap, oneOf [keyword "KEY", keyword "INDEX"]] : Pattern Slot).spread
      ⟨.dry, true⟩ = some ⟨.dry, false⟩ := by
    simp -implicitDefEqProofs [hindex]
  have hkinds : (oneOf [all [keyword "UNIQUE",
      opt (all [gap, oneOf [keyword "KEY", keyword "INDEX"]])],
        all [opt (oneOf [leading ["FULLTEXT"], leading ["SPATIAL"]]),
          oneOf [keyword "KEY", keyword "INDEX"]]]).spread
        ⟨.dry, true⟩ = some ⟨.shut, false⟩ :=
    spread_oneOf (by simp) (by
      simp -implicitDefEqProofs (disch := decide)
        [spread_keyword, spread_opt hunique, spread_opt hscope, hindex, Outlook.either])
  have hname : (all [openQuote, name, closeQuote, spaces]).spread ⟨.shut, false⟩
      = some ⟨.shut, false⟩ := by
    simp -implicitDefEqProofs [Outlook.either]
  have hdigit : rejectsFillers (fun c => isDecimalDigit c || c == '\x27') = true := rfl
  have hlook : (notAhead (all [spaces, one fun c =>
      isDecimalDigit c || c == '\x27']) : Pattern Slot).spread
      ⟨.sure, true⟩ = some ⟨.free, false⟩ := by
    rw [spread, spread_all_cons, spread_all_cons, spread_all_nil, Option.bind_some,
      spread_one hdigit, Option.bind_some, spread_spaces_shut]
    rfl
  have hlist : (all [
      oneOf [all [keyword "UNIQUE", opt (all [gap, oneOf [keyword "KEY", keyword "INDEX"]])],
        all [opt (oneOf [leading ["FULLTEXT"], leading ["SPATIAL"]]),
          oneOf [keyword "KEY", keyword "INDEX"]]],
      spaces, opt (all [openQuote, name, closeQuote, spaces]), indexMethod, lit '(',
      notAhead (all [spaces, one fun c => isDecimalDigit c || c == '\x27'])]).spread ⟨.sure, true⟩
        = some ⟨.shut, false⟩ := by
    simp -implicitDefEqProofs (disch := decide)
      [hlook, hkinds, spread_opt hname, spread_lit, Outlook.either]
  have hwords : ∀ {prospect},
      (oneOf [keyword "CHECK", keyword "EXCLUDE"] : Pattern Slot).spread prospect
      = some ⟨.shut, false⟩ := spread_oneOf (by simp)
        (by simp -implicitDefEqProofs (disch := decide) [spread_keyword])
  have hcheck : (all [oneOf [keyword "CHECK", keyword "EXCLUDE"], wordEdge] : Pattern Slot).spread
      ⟨.sure, true⟩ = some ⟨.shut, false⟩ := by
    simp -implicitDefEqProofs [hwords]
  have hchoice := spread_oneOf (List.cons_ne_nil _ _)
    (List.forall_mem_cons.mpr ⟨hcheck, List.forall_mem_singleton.mpr hlist⟩)
  simp -implicitDefEqProofs [prospect?, otherConstraint, hchoice]

theorem spread_typeStart :
    (one fun c => isLatinLetter c || c == '_' : Pattern Slot).spread prospect
      = some ⟨.shut, false⟩ :=
  spread_one (rfl)

theorem prospect?_columnHead : columnHead.prospect? = some ⟨.shut, false⟩ := by
  have hmark : (all [spaces, lit '[', spaces, lit ']'] : Pattern Slot).spread ⟨.sure, true⟩
      = some ⟨.dry, true⟩ := by
    simp -implicitDefEqProofs (disch := decide) [spread_lit]
  have harguments : (all [spaces, lit '(', many .greedy (· != ')'), lit ')'] : Pattern Slot).spread
      ⟨.sure, true⟩ = some ⟨.dry, true⟩ := by
    simp -implicitDefEqProofs (disch := decide) [spread_lit]
  have hindex : ∀ {prospect},
      (oneOf [keyword "PRECISION", keyword "VARYING"] : Pattern Slot).spread prospect
      = some ⟨.shut, false⟩ := spread_oneOf (by simp)
        (by simp -implicitDefEqProofs (disch := decide) [spread_keyword])
  have hsecond : (all [gap, oneOf [keyword "PRECISION", keyword "VARYING"]] : Pattern Slot).spread
      ⟨.sure, true⟩ = some ⟨.dry, false⟩ := by
    simp -implicitDefEqProofs [hindex]
  simp -implicitDefEqProofs [prospect?, columnHead, typeWords, typeArguments, typeMark,
    spread_opt hmark, spread_opt harguments, spread_opt hsecond, spread_typeStart,
    spread_many rejectsFillers_isWordChar, Outlook.either]

theorem prospect?_looseColumn : looseColumn.prospect? = some ⟨.shut, false⟩ := by
  have hdigits : ∀ {prospect}, (atLeastOne isDecimalDigit : Pattern Slot).spread prospect
      = some ⟨.shut, false⟩ := by
    have hdigit : rejectsFillers isDecimalDigit = true := rfl
    simp -implicitDefEqProofs [atLeastOne, spread_one hdigit, spread_many hdigit]
  have hclosing : (opt (lit ')') : Pattern Slot).spread ⟨.sure, true⟩ = some ⟨.sure, false⟩ :=
    spread_opt (spread_lit (by decide))
  have hscale : (all [spaces, lit ',', spaces, atLeastOne isDecimalDigit] : Pattern Slot).spread
      ⟨.sure, true⟩ = some ⟨.dry, true⟩ := by
    simp -implicitDefEqProofs (disch := decide) [spread_lit, hdigits]
  have harguments : (all [spaces, lit '(', spaces, atLeastOne isDecimalDigit,
      opt (all [spaces, lit ',', spaces, atLeastOne isDecimalDigit]), spaces,
      opt (lit ')')] : Pattern Slot).spread
        ⟨.sure, true⟩ = some ⟨.dry, true⟩ := by
    simp -implicitDefEqProofs (disch := decide)
      [spread_lit, hdigits, hclosing, spread_opt hscale, Outlook.either]
  simp -implicitDefEqProofs [prospect?, looseColumn, spread_opt harguments, spread_typeStart,
    spread_many rejectsFillers_isWordChar, Outlook.either]

/-! ### Options and keys -/

theorem prospect?_notNull : notNull.prospect? = some ⟨.shut, false⟩ := by
  simp -implicitDefEqProofs (disch := decide) [prospect?, notNull, spread_phrase, Outlook.doubted]

theorem prospect?_inlinePrimaryKey : inlinePrimaryKey.prospect? = some ⟨.shut, false⟩ := by
  simp -implicitDefEqProofs (disch := decide)
    [prospect?, inlinePrimaryKey, spread_phrase, Outlook.doubted]

theorem prospect?_inlineReferences : inlineReferences.prospect? = some ⟨.shut, false⟩ := by
  simp -implicitDefEqProofs [prospect?, inlineReferences, Outlook.doubted]

theorem prospect?_primaryKeyAnywhere : primaryKeyAnywhere.prospect? = some ⟨.shut, false⟩ := by
  simp -implicitDefEqProofs (disch := decide) [prospect?, primaryKeyAnywhere, spread_phrase]

theorem prospect?_foreignKeyAnywhere : foreignKeyAnywhere.prospect? = some ⟨.shut, false⟩ := by
  simp -implicitDefEqProofs (disch := decide) [prospect?, foreignKeyAnywhere, spread_phrase]

theorem prospect?_addPrimaryKey : addPrimaryKey.prospect? = some ⟨.shut, false⟩ := by
  simp -implicitDefEqProofs (disch := decide)
    [prospect?, addPrimaryKey, primaryKeyAnywhere, spread_phrase]

theorem prospect?_addForeignKey : addForeignKey.prospect? = some ⟨.shut, false⟩ := by
  simp -implicitDefEqProofs (disch := decide)
    [prospect?, addForeignKey, foreignKeyAnywhere, spread_phrase]

end Schema.Grammar

end Diagrams
