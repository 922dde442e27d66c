/-
Removing the annotations from a body.

Annotations are removed from a body before it is cut into members.  `withoutAnnotations` says what
is left, by recursion over the text: a mark with the name and the arguments behind it makes way for
a space.  The arguments of an annotation end at the first round bracket of either kind, so only
arguments without brackets of their own are removed.

A text in which every mark finds the end of its arguments is passed on its own, whatever follows
(`withoutAnnotations_append`).
-/
import Diagrams.Code.Reading
import Diagrams.Proofs.Pattern.Blanks
import Diagrams.Proofs.Pattern.Replace
import Diagrams.Proofs.Text.Cutting

namespace Diagrams.Code

open Pattern

/-! ### One annotation -/

/-- The characters in the arguments of an annotation. -/
def isArgumentChar (c : Char) : Bool := c != '(' && c != ')'

/-- What is left of the text behind the name of an annotation when its arguments are taken off, if
it has any. -/
def afterArguments (text : Text) : Text :=
  match text.dropWhile isBlank with
  | '(' :: inner =>
    match inner.dropWhile isArgumentChar with
    | ')' :: after => after
    | _ => text
  | _ => text

/-- What is left of a text that starts with an annotation. -/
def afterAnnotation? : Text → Option Text
  | '@' :: rest =>
    if (rest.takeWhile Grammar.isDotted).isEmpty then none
    else some (afterArguments (rest.dropWhile Grammar.isDotted))
  | _ => none

section

variable {text blanks inner after : Text}

/-- Closed arguments are taken off, with the blanks in front of them. -/
theorem afterArguments_of_closed (hblanks : ∀ c ∈ blanks, isBlank c = true)
    (hinner : ∀ c ∈ inner, isArgumentChar c = true) :
    afterArguments (blanks ++ '(' :: (inner ++ ')' :: after)) = after := by
  have hopen : (blanks ++ '(' :: (inner ++ ')' :: after)).dropWhile isBlank
      = '(' :: (inner ++ ')' :: after) :=
    dropWhile_append_of_stop hblanks (forall_head?_cons (by decide) _)
  have hclose : (inner ++ ')' :: after).dropWhile isArgumentChar = ')' :: after :=
    dropWhile_append_of_stop hinner (forall_head?_cons (by decide) _)
  simp only [afterArguments, hopen, hclose]

/-- Where there are no closed arguments, nothing is taken off. -/
theorem afterArguments_eq_self
    (h : ∀ blanks inner after, (∀ c ∈ blanks, isBlank c = true) →
      (∀ c ∈ inner, isArgumentChar c = true) → text ≠ blanks ++ '(' :: (inner ++ ')' :: after)) :
    afterArguments text = text := by
  unfold afterArguments
  split
  · rename_i inner hopen
    split
    · rename_i after hclose
      have hsplit : text = text.takeWhile isBlank ++ '(' :: inner := by
        rw [← hopen, List.takeWhile_append_dropWhile]
      have hinner : inner = inner.takeWhile isArgumentChar ++ ')' :: after := by
        rw [← hclose, List.takeWhile_append_dropWhile]
      refine absurd ?_ (h (text.takeWhile isBlank) (inner.takeWhile isArgumentChar) after
        (fun c hc => List.mem_takeWhile_imp hc) fun c hc => List.mem_takeWhile_imp hc)
      rw [← hinner]
      exact hsplit
    · rfl
  · rfl

/-- The arguments are taken off where they are closed, and else nothing is. -/
theorem afterArguments_cases (text : Text) :
    (∃ blanks inner, (∀ c ∈ blanks, isBlank c = true) ∧ (∀ c ∈ inner, isArgumentChar c = true) ∧
      text = blanks ++ '(' :: (inner ++ ')' :: afterArguments text)) ∨
    (afterArguments text = text ∧ ∀ blanks inner after, (∀ c ∈ blanks, isBlank c = true) →
      (∀ c ∈ inner, isArgumentChar c = true) →
        text ≠ blanks ++ '(' :: (inner ++ ')' :: after)) := by
  by_cases h : ∃ blanks inner after, (∀ c ∈ blanks, isBlank c = true) ∧
      (∀ c ∈ inner, isArgumentChar c = true) ∧ text = blanks ++ '(' :: (inner ++ ')' :: after)
  · obtain ⟨blanks, inner, after, hblanks, hinner, rfl⟩ := h
    exact .inl ⟨blanks, inner, hblanks, hinner, by rw [afterArguments_of_closed hblanks hinner]⟩
  · have hnone : ∀ blanks inner after, (∀ c ∈ blanks, isBlank c = true) →
        (∀ c ∈ inner, isArgumentChar c = true) → text ≠ blanks ++ '(' :: (inner ++ ')' :: after) :=
      fun blanks inner after hblanks hinner htext =>
        h ⟨blanks, inner, after, hblanks, hinner, htext⟩
    exact .inr ⟨afterArguments_eq_self hnone, hnone⟩

end

theorem afterAnnotation?_eq_some_iff {text after : Text} : afterAnnotation? text = some after ↔
    ∃ name rest, text = '@' :: (name ++ rest) ∧ name ≠ [] ∧
      (∀ c ∈ name, Grammar.isDotted c = true) ∧
      (∀ c ∈ rest.head?, Grammar.isDotted c = false) ∧ after = afterArguments rest := by
  constructor
  · intro h
    unfold afterAnnotation? at h
    split at h
    · rename_i behind
      split at h
      · cases h
      · rename_i hne
        obtain rfl := Option.some.inj h
        exact ⟨behind.takeWhile Grammar.isDotted, behind.dropWhile Grammar.isDotted,
          by rw [List.takeWhile_append_dropWhile], by simpa using hne,
          fun c hc => List.mem_takeWhile_imp hc, Text.head?_dropStart behind, rfl⟩
    · cases h
  · rintro ⟨name, rest, rfl, hne, hname, hstop, rfl⟩
    rw [afterAnnotation?, takeWhile_append_of_stop hname hstop,
      dropWhile_append_of_stop hname hstop, if_neg (by simpa)]

section

variable (place : Place Slot)

/-- The mark, the name and the arguments are covered by a match. -/
theorem run_annotationMark {after : Text} (h : afterAnnotation? place.rest = some after) :
    ∃ front, place.rest = front ++ after ∧ front ≠ [] ∧
      Grammar.annotationMark.run place some = some (place.past front after) := by
  obtain ⟨name, rest, hrest, hne, hname, hstop, rfl⟩ := afterAnnotation?_eq_some_iff.mp h
  unfold Grammar.annotationMark
  rw [run_all_cons, run_lit hrest, run_all_cons]
  rcases afterArguments_cases rest with ⟨blanks, inner, hblanks, hinner, hsplit⟩ | ⟨hsame, hnone⟩
  · refine ⟨'@' :: (name ++ (blanks ++ '(' :: (inner ++ [')']))), ?_, List.cons_ne_nil _ _, ?_⟩
    · rw [hrest]
      simpa using hsplit
    · refine run_atLeastOne rfl hne hname hstop ?_
      rw [run_all_cons]
      refine run_opt_of_some ?_
      rw [run_all_cons]
      refine run_many_greedy hsplit hblanks (forall_head?_cons (by decide) _) ?_
      rw [run_all_cons, run_lit rfl, run_all_cons]
      refine run_many_greedy rfl hinner (forall_head?_cons (by decide) _) ?_
      rw [run_all_cons, run_lit rfl, run_all_nil, run_all_nil]
      simp
  · refine ⟨'@' :: name, by rw [hrest, hsame]; rfl, List.cons_ne_nil _ _, ?_⟩
    refine run_atLeastOne rfl hne hname hstop ?_
    rw [run_all_cons, run_opt_of_none, run_all_nil, hsame, Place.past_past]
    · rfl
    · refine run_eq_none fun mid hmid => ?_
      obtain ⟨_, hspaces, hmid⟩ := mem_reached_all_cons.mp hmid
      obtain ⟨blanks, rest₁, hrest₁, hblanks, rfl⟩ := mem_reached_many.mp hspaces
      obtain ⟨_, hopen, hmid⟩ := mem_reached_all_cons.mp hmid
      obtain ⟨rest₂, hrest₂, rfl⟩ := mem_reached_lit.mp hopen
      obtain ⟨_, hmany, hmid⟩ := mem_reached_all_cons.mp hmid
      obtain ⟨inner, rest₃, hrest₃, hinner, rfl⟩ := mem_reached_many.mp hmany
      obtain ⟨_, hclose, -⟩ := mem_reached_all_cons.mp hmid
      obtain ⟨rest₄, hrest₄, -⟩ := mem_reached_lit.mp hclose
      simp only [Place.rest_past] at hrest₁ hrest₂ hrest₃ hrest₄
      refine hnone blanks inner rest₄ hblanks hinner ?_
      rw [hrest₁, hrest₂, hrest₃, hrest₄]

/-- Where no annotation starts, there is no match. -/
theorem matchAt?_annotationMark (h : afterAnnotation? place.rest = none) :
    Grammar.annotationMark.matchAt? place = none := by
  refine matchAt?_eq_none_iff.mpr fun mid hmid => ?_
  obtain ⟨_, hmark, hmid⟩ := mem_reached_all_cons.mp hmid
  obtain ⟨rest, hrest, rfl⟩ := mem_reached_lit.mp hmark
  obtain ⟨_, hname, -⟩ := mem_reached_all_cons.mp hmid
  obtain ⟨c, hc, hdotted⟩ := Opens.atLeastOne _ _ hname
  obtain ⟨behind, rfl⟩ := List.head?_eq_some_iff.mp hc
  rw [hrest, afterAnnotation?, List.takeWhile_cons_of_pos hdotted] at h
  exact absurd h (by simp)

end

/-! ### All annotations -/

theorem length_afterArguments_le (text : Text) : (afterArguments text).length ≤ text.length := by
  rcases afterArguments_cases text with ⟨blanks, inner, -, -, hsplit⟩ | ⟨hsame, -⟩
  · have hlength := congrArg List.length hsplit
    simp only [List.length_append, List.length_cons] at hlength
    omega
  · rw [hsame]

theorem length_afterAnnotation?_lt {text after : Text} (h : afterAnnotation? text = some after) :
    after.length < text.length := by
  obtain ⟨name, rest, rfl, -, -, -, rfl⟩ := afterAnnotation?_eq_some_iff.mp h
  have hle := length_afterArguments_le rest
  simp only [List.length_append, List.length_cons]
  omega

/-- The text with a space in place of each annotation. -/
def withoutAnnotations : Text → Text
  | [] => []
  | c :: rest =>
    match _h : afterAnnotation? (c :: rest) with
    | some after => ' ' :: withoutAnnotations after
    | none => c :: withoutAnnotations rest
termination_by text => text.length
decreasing_by
  · exact length_afterAnnotation?_lt _h
  · exact Nat.lt_succ_self _

theorem withoutAnnotations_of_some {text after : Text} (h : afterAnnotation? text = some after) :
    withoutAnnotations text = ' ' :: withoutAnnotations after := by
  cases text with
  | nil => cases h
  | cons c rest =>
      rw [withoutAnnotations]
      split
      · rename_i other hother
        obtain rfl := Option.some.inj (hother.symm.trans h)
        rfl
      · rename_i hnone
        exact absurd (hnone.symm.trans h) (by simp)

theorem withoutAnnotations_of_none {c : Char} {rest : Text}
    (h : afterAnnotation? (c :: rest) = none) :
    withoutAnnotations (c :: rest) = c :: withoutAnnotations rest := by
  rw [withoutAnnotations]
  split
  · rename_i hsome
    exact absurd (hsome.symm.trans h) (by simp)
  · rfl

/-- Replacing the marks of annotations removes the annotations. -/
theorem replaceFrom_annotationMark (before : Option Char) (offset : Nat) (text : Text) :
    Grammar.annotationMark.replaceFrom [' '] before offset text = withoutAnnotations text := by
  fun_induction withoutAnnotations text generalizing before offset with
  | case1 => exact replaceFrom_nil
  | case2 c rest after h ih =>
      obtain ⟨front, hsplit, hne, hrun⟩ :=
        run_annotationMark ⟨before, c :: rest, offset, []⟩ h
      dsimp only at hsplit hrun
      rw [hsplit] at hrun ⊢
      rw [replaceFrom_append hne hrun rfl rfl, ih]
      rfl
  | case3 c rest h ih =>
      have hnone := matchAt?_annotationMark ⟨before, c :: rest, offset, []⟩ h
      rw [replaceFrom_cons hnone, ih]

/-! ### Texts that hold their annotations -/

/-- A text at whose end no annotation is left open: it ends like a member, and where a round bracket
is the first one behind a mark, there is a closing one behind it. -/
structure Contained (text : Text) : Prop where
  /-- Neither a name nor a blank is at the end. -/
  ending : ∀ c ∈ text.getLast?, c = ';' ∨ c = '\x7d'
  /-- The arguments of an annotation end in the text. -/
  closed : ∀ front inner, '@' :: (front ++ '(' :: inner) <:+ text → '(' ∉ front → ')' ∈ inner

section

variable {text : Text}

theorem Contained.suffix {tail : Text} (h : Contained text) (htail : tail <:+ text) :
    Contained tail where
  ending := by
    intro c hc
    obtain ⟨front, rfl⟩ := htail
    refine h.ending c ?_
    rw [List.getLast?_append_of_ne_nil]
    · exact hc
    · rintro rfl
      cases hc
  closed := fun front inner hsuffix => h.closed front inner (hsuffix.trans htail)

/-- A text that ends like a member is not all blank, nor all name. -/
theorem Contained.dropWhile_ne_nil (h : Contained text) (test : Char → Bool) (hne : text ≠ [])
    (hsemicolon : test ';' = false) (hbrace : test '\x7d' = false) : text.dropWhile test ≠ [] := by
  intro hnil
  have hlast : test (text.getLast hne) = true :=
    List.dropWhile_eq_nil_iff.mp hnil _ (List.getLast_mem hne)
  rcases h.ending _ (List.getLast?_eq_some_getLast hne) with hend | hend
  · rw [hend, hsemicolon] at hlast
    exact Bool.false_ne_true hlast
  · rw [hend, hbrace] at hlast
    exact Bool.false_ne_true hlast

theorem dropWhile_append_of_ne_nil {test : Char → Bool} (h : text.dropWhile test ≠ [])
    (rest : Text) : (text ++ rest).dropWhile test = text.dropWhile test ++ rest := by
  rw [List.dropWhile_append, if_neg (by simpa using h)]

theorem afterArguments_append (h : Contained text) (hne : text ≠ [])
    (hclosed : ∀ front inner, text = front ++ '(' :: inner → '(' ∉ front → ')' ∈ inner)
    (rest : Text) : afterArguments (text ++ rest) = afterArguments text ++ rest := by
  have hdrop := h.dropWhile_ne_nil isBlank hne (by decide) (by decide)
  obtain ⟨c, inner, hinner⟩ := List.exists_cons_of_ne_nil hdrop
  rw [afterArguments, afterArguments, dropWhile_append_of_ne_nil hdrop, hinner, List.cons_append]
  by_cases hopen : c = '('
  · subst hopen
    have hblank : '(' ∉ text.takeWhile isBlank := fun hmem =>
      absurd (List.mem_takeWhile_imp hmem) (by decide)
    have hsplit : text = text.takeWhile isBlank ++ '(' :: inner := by
      rw [← hinner, List.takeWhile_append_dropWhile]
    have hmem := hclosed _ inner hsplit hblank
    have hargs : inner.dropWhile isArgumentChar ≠ [] := fun hnil =>
      absurd (List.dropWhile_eq_nil_iff.mp hnil _ hmem) (by decide)
    obtain ⟨d, after, hafter⟩ := List.exists_cons_of_ne_nil hargs
    simp only [dropWhile_append_of_ne_nil hargs, hafter, List.cons_append]
    split
    · rename_i hcons
      obtain ⟨rfl, rfl⟩ := List.cons.inj hcons
      rfl
    · rename_i hother
      split
      · rename_i hcons
        obtain ⟨rfl, rfl⟩ := List.cons.inj hcons
        exact absurd rfl (hother _)
      · rfl
  · split
    · rename_i hcons
      exact absurd (List.cons.inj hcons).1 hopen
    · split
      · rename_i hcons
        exact absurd (List.cons.inj hcons).1 hopen
      · rfl

theorem afterAnnotation?_append (h : Contained text) (hne : text ≠ []) (rest : Text) :
    afterAnnotation? (text ++ rest) = (afterAnnotation? text).map (· ++ rest) := by
  obtain ⟨c, behind, rfl⟩ := List.exists_cons_of_ne_nil hne
  by_cases hmark : c = '@'
  · subst hmark
    have hbehind : behind ≠ [] := by
      rintro rfl
      exact absurd (h.ending '@' rfl) (by decide)
    have htail : Contained behind := h.suffix (List.suffix_cons _ _)
    have hdrop := htail.dropWhile_ne_nil Grammar.isDotted hbehind (by decide) (by decide)
    have htake : (behind ++ rest).takeWhile Grammar.isDotted
        = behind.takeWhile Grammar.isDotted := by
      rw [List.takeWhile_append, if_neg]
      intro hlength
      have hsum := congrArg List.length
        (List.takeWhile_append_dropWhile (p := Grammar.isDotted) (l := behind))
      rw [List.length_append] at hsum
      have hpos := List.length_pos_iff.mpr hdrop
      omega
    have hsuffix : behind.dropWhile Grammar.isDotted <:+ behind := List.dropWhile_suffix _
    have hclosed : ∀ front inner, behind.dropWhile Grammar.isDotted = front ++ '(' :: inner →
        '(' ∉ front → ')' ∈ inner := by
      intro front inner hsplit hfront
      refine h.closed (behind.takeWhile Grammar.isDotted ++ front) inner ?_ ?_
      · refine ⟨[], ?_⟩
        rw [List.nil_append, List.append_assoc, ← hsplit, List.takeWhile_append_dropWhile]
      · rw [List.mem_append, not_or]
        exact ⟨fun hmem => absurd (List.mem_takeWhile_imp hmem) (by decide), hfront⟩
    rw [List.cons_append, afterAnnotation?, afterAnnotation?, htake,
      dropWhile_append_of_ne_nil hdrop, afterArguments_append (htail.suffix hsuffix) hdrop hclosed]
    split <;> rfl
  · have hnone : ∀ behind, afterAnnotation? (c :: behind) = none := fun behind => by
      rw [afterAnnotation?.eq_2]
      rintro _ hcons
      exact hmark (List.cons.inj hcons).1
    rw [List.cons_append, hnone, hnone, Option.map_none]

/-- The annotations of a text that holds them are removed from it, whatever follows. -/
theorem withoutAnnotations_append (h : Contained text) (rest : Text) :
    withoutAnnotations (text ++ rest) = withoutAnnotations text ++ withoutAnnotations rest := by
  fun_induction withoutAnnotations text with
  | case1 => rfl
  | case2 c behind after hsome ih =>
      obtain ⟨front, hsplit, -, -⟩ :=
        run_annotationMark ⟨none, c :: behind, 0, []⟩ hsome
      have happend := afterAnnotation?_append h (List.cons_ne_nil c behind) rest
      rw [hsome, Option.map_some] at happend
      have hafter : Contained after := h.suffix ⟨front, hsplit.symm⟩
      rw [withoutAnnotations_of_some happend, ih hafter, List.cons_append]
  | case3 c behind hnone ih =>
      have happend := afterAnnotation?_append h (List.cons_ne_nil c behind) rest
      rw [hnone, Option.map_none, List.cons_append] at happend
      rw [List.cons_append, withoutAnnotations_of_none happend,
        ih (h.suffix (List.suffix_cons _ _)), List.cons_append]

end

end Diagrams.Code
