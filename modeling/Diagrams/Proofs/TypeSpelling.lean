/-
Spellings of types.

The type of a column and the type of a member are written in a normal spelling.  Both keep a space
where it stands between two words and drop the blanks around their punctuation; for members a space
is put back behind each comma.  So either spelling is a normal form for the texts that differ only
in blanks at their ends, next to blanks and next to punctuation (`typeSpellings_normal`).
-/
import Diagrams.Code.TypeName
import Diagrams.Proofs.Text.Respaced
import Diagrams.Schema.Identifier

namespace Diagrams

open Text

namespace Schema

/-- Behind these characters of a column type no blank is kept. -/
def dropsBlanksBehind (c : Char) : Bool := c == '(' || c == ','

/-- In front of these characters of a column type no blank is kept. -/
def dropsBlanksInFront (c : Char) : Bool := c == '(' || c == ',' || c == ')'

theorem normalizeType_eq_respaced (type : Text) :
    normalizeType type = respaced (closeBy dropsBlanksBehind dropsBlanksInFront) type := by
  have hclose : isCloseInType = closeBy dropsBlanksBehind dropsBlanksInFront := by
    funext left right
    simp only [isCloseInType, closeBy, dropsBlanksBehind, dropsBlanksInFront, Bool.or_assoc]
  rw [normalizeType, hclose]

theorem isNormalForm_normalizeType :
    IsNormalForm dropsBlanksBehind dropsBlanksInFront normalizeType := by
  rw [funext normalizeType_eq_respaced]
  exact .of_respelled respelled_respaced fun _ _ h => h.respaced_eq

/-- The only blanks are single spaces between other characters, none of them next to an opening
bracket or a comma or in front of a closing bracket. -/
def IsSparing (type : Text) : Prop :=
  ∀ front c back, type = front ++ c :: back → isBlank c = true →
    c = ' ' ∧ ∃ a ∈ front.getLast?, ∃ b ∈ back.head?,
      isBlank a = false ∧ isBlank b = false ∧ a ∉ ['(', ','] ∧ b ∉ ['(', ',', ')']

theorem isSparing_normalizeType (type : Text) : IsSparing (normalizeType type) := by
  intro front c back h hc
  rw [normalizeType_eq_respaced] at h
  obtain ⟨hspace, a, ha, b, hb, hafter, hbefore, hclose⟩ := space_of_respaced h hc
  obtain ⟨hbehind, hinFront⟩ := Bool.or_eq_false_iff.mp hclose
  refine ⟨hspace, a, ha, b, hb, hafter, hbefore, ?_, ?_⟩
  · simpa [dropsBlanksBehind] using hbehind
  · simpa [dropsBlanksInFront, and_assoc] using hinFront

end Schema

namespace Code

/-- A space behind each comma respells a type. -/
theorem respelled_commas (front type : Text) : Respelled isTypePunctuation isTypePunctuation
    (front ++ type) (front ++ type.flatMap fun c => if c = ',' then [',', ' '] else [c]) := by
  induction type generalizing front with
  | nil => exact .refl _
  | cons c type ih =>
      rw [List.flatMap_cons]
      by_cases hc : c = ','
      · subst hc
        have hspace : Respelled isTypePunctuation isTypePunctuation
            (front ++ ',' :: type) (front ++ ',' :: ' ' :: type) := .behind (by decide)
              (by decide) type
        simpa using hspace.trans (by simpa using ih (front ++ [',', ' ']))
      · simpa [hc] using ih (front ++ [c])

theorem isNormalForm_normalizeType :
    IsNormalForm isTypePunctuation isTypePunctuation normalizeType := by
  have hclose : isCloseInType = closeBy isTypePunctuation isTypePunctuation := rfl
  refine .of_respelled (fun type => ?_) fun text loose h => ?_
  · exact (respelled_respaced type).trans (respelled_commas [] _)
  · rw [normalizeType, normalizeType, hclose, h.respaced_eq]

end Code

/-- **Equal types are spelled equally.**  The spelling of a column type and that of a member type
are normal forms, and the first has no more blanks than it needs. -/
theorem typeSpellings_normal :
    IsNormalForm Schema.dropsBlanksBehind Schema.dropsBlanksInFront Schema.normalizeType ∧
      (∀ type, Schema.IsSparing (Schema.normalizeType type)) ∧
      IsNormalForm Code.isTypePunctuation Code.isTypePunctuation Code.normalizeType :=
  ⟨Schema.isNormalForm_normalizeType, Schema.isSparing_normalizeType,
    Code.isNormalForm_normalizeType⟩

example : Schema.normalizeType " DOUBLE  PRECISION\t( 10 , 2 ) ARRAY".toList
    = "DOUBLE PRECISION(10,2) ARRAY".toList := by decide

example : Code.normalizeType "Map < K,\n? extends V > [ ]".toList
    = "Map<K, ? extends V>[]".toList := by
  decide

end Diagrams
