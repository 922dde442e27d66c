/-
Line comments in a script, and how they are removed.

A script with comments is a list of pieces: characters of its own, and comments.  Block comments are
removed first, so a line comment may hold the start of a block comment and another one its end, and
all that stands between them is lost.  Where this does not happen, what is removed of a block
comment lies in one line comment, and a line feed is left of every line comment.
-/
import Diagrams.Proofs.Schema.Script

namespace Diagrams.Schema

/-- A piece of a script with line comments. -/
inductive Piece
  /-- A character of the script itself. -/
  | own (c : Char)
  /-- A comment with this text, up to the line feed that ends it. -/
  | comment (text : Text)
  deriving DecidableEq

/-- The text of a comment. -/
def Piece.text? : Piece → Option Text
  | .own _ => none
  | .comment text => some text

/-- A script with line comments. -/
abbrev Commented := List Piece

namespace Commented

/-- The script without its comments. -/
def plain (script : Commented) : Text :=
  script.filterMap fun
    | .own c => some c
    | .comment _ => none

/-- The script as it is written. -/
def written (script : Commented) : Text :=
  script.flatMap fun
    | .own c => [c]
    | .comment text => '-' :: '-' :: (text ++ ['\n'])

/-- The script with a line feed for every comment. -/
def bare (script : Commented) : Text :=
  script.map fun
    | .own c => c
    | .comment _ => '\n'

variable {script front rest : Commented} {c : Char} {text : Text}

@[simp] theorem plain_nil : plain [] = [] := rfl

@[simp] theorem written_nil : written [] = [] := rfl

@[simp] theorem bare_nil : bare [] = [] := rfl

@[simp] theorem plain_own (c : Char) (rest : Commented) :
    plain (.own c :: rest) = c :: plain rest := rfl

@[simp] theorem written_own (c : Char) (rest : Commented) :
    written (.own c :: rest) = c :: written rest := rfl

@[simp] theorem bare_own (c : Char) (rest : Commented) :
    bare (.own c :: rest) = c :: bare rest := rfl

@[simp] theorem plain_comment (text : Text) (rest : Commented) :
    plain (.comment text :: rest) = plain rest := rfl

@[simp] theorem written_comment (text : Text) (rest : Commented) :
    written (.comment text :: rest) = '-' :: '-' :: (text ++ '\n' :: written rest) := by
  simp [written]

@[simp] theorem bare_comment (text : Text) (rest : Commented) :
    bare (.comment text :: rest) = '\n' :: bare rest := rfl

@[simp] theorem plain_append (front rest : Commented) :
    plain (front ++ rest) = plain front ++ plain rest :=
  List.filterMap_append

@[simp] theorem written_append (front rest : Commented) :
    written (front ++ rest) = written front ++ written rest :=
  List.flatMap_append

@[simp] theorem bare_append (front rest : Commented) :
    bare (front ++ rest) = bare front ++ bare rest :=
  List.map_append

@[simp] theorem plain_map_own (text : Text) : plain (text.map .own) = text := by
  induction text with
  | nil => rfl
  | cons c text ih => rw [List.map_cons, plain_own, ih]

@[simp] theorem written_map_own (text : Text) : written (text.map .own) = text := by
  induction text with
  | nil => rfl
  | cons c text ih => rw [List.map_cons, written_own, ih]

end Commented

/-! ### Marks -/

/-- A mark of two characters in two texts lies in one of them, or where they meet. -/
theorem mark_append {c d : Char} {front rest : Text} : [c, d] <:+: front ++ rest ↔
    [c, d] <:+: front ∨ [c, d] <:+: rest ∨ c ∈ front.getLast? ∧ d ∈ rest.head? := by
  constructor
  · intro h
    induction front with
    | nil => exact .inr (.inl h)
    | cons e front ih =>
        rcases List.infix_cons_iff.mp h with hprefix | hinfix
        · obtain ⟨rfl, after, hafter⟩ := List.cons_prefix_cons.mp hprefix
          cases front with
          | nil => exact .inr (.inr ⟨rfl, by simp [← (show [d] ++ after = rest from hafter)]⟩)
          | cons f front =>
              obtain ⟨rfl, -⟩ := List.cons.inj hafter
              exact .inl ⟨[], front, rfl⟩
        · rcases ih hinfix with hfront | hrest | ⟨hlast, hfirst⟩
          · exact .inl (hfront.trans (List.suffix_cons e front).isInfix)
          · exact .inr (.inl hrest)
          · refine .inr (.inr ⟨?_, hfirst⟩)
            rw [List.getLast?_cons]
            simp [Option.mem_def.mp hlast]
  · rintro (hfront | hrest | ⟨hlast, hfirst⟩)
    · exact hfront.trans (List.prefix_append front rest).isInfix
    · exact hrest.trans (List.suffix_append front rest).isInfix
    · obtain ⟨before, rfl⟩ := List.getLast?_eq_some_iff.mp hlast
      obtain ⟨after, rfl⟩ := List.head?_eq_some_iff.mp hfirst
      exact ⟨before, after, by simp⟩

theorem mark_cons_iff {c d e : Char} {text : Text} (h : c ≠ e) :
    [c, d] <:+: e :: text ↔ [c, d] <:+: text := by
  rw [List.infix_cons_iff, or_iff_right_iff_imp]
  exact fun hprefix => absurd (List.cons_prefix_cons.mp hprefix).1 h

theorem closesComment_of_mark {text : Text} (h : ['*', '/'] <:+: text) :
    closesComment text = true := by
  fun_induction closesComment text with
  | case1 rest => rfl
  | case2 c rest hnone ih =>
      rcases List.infix_cons_iff.mp h with hprefix | hinfix
      · obtain ⟨rfl, after, hafter⟩ := List.cons_prefix_cons.mp hprefix
        exact absurd hafter.symm (hnone after rfl)
      · exact ih hinfix
  | case3 => simp at h

theorem closesComment_iff {text : Text} : closesComment text = true ↔ ['*', '/'] <:+: text :=
  ⟨infix_of_closesComment, closesComment_of_mark⟩

/-! ### Block comments in one line -/

theorem dropBlockComments_cons {c : Char} {rest : Text} (h : c = '/' → rest.head? ≠ some '*') :
    dropBlockComments false (c :: rest) = c :: dropBlockComments false rest := by
  rw [dropBlockComments]
  rintro after rfl rfl
  exact h rfl rfl

theorem dropBlockComments_inside {c : Char} {rest : Text} (h : c = '*' → rest.head? ≠ some '/') :
    dropBlockComments true (c :: rest) = dropBlockComments true rest := by
  rw [dropBlockComments]
  rintro after rfl rfl
  exact h rfl rfl

theorem closesComment_cons {c : Char} {rest : Text} (h : c = '*' → rest.head? ≠ some '/') :
    closesComment (c :: rest) = closesComment rest := by
  rw [closesComment]
  rintro after rfl rfl
  exact h rfl rfl

/-- A comment that is closed in two lines is closed in one of them. -/
theorem closesComment_line {line rest : Text} {c : Char} (hc : c ≠ '*' ∧ c ≠ '/') :
    closesComment (line ++ c :: rest) = true ↔
      closesComment line = true ∨ closesComment rest = true := by
  rw [closesComment_iff, closesComment_iff, closesComment_iff]
  constructor
  · intro h
    rcases mark_append.mp h with hline | hrest | ⟨-, hfirst⟩
    · exact .inl hline
    · exact .inr ((mark_cons_iff hc.1.symm).mp hrest)
    · exact absurd (Option.some.inj hfirst) hc.2
  · rintro (hline | hrest)
    · exact hline.trans (List.prefix_append line _).isInfix
    · exact hrest.trans ⟨line ++ [c], [], by simp⟩

/-- What is removed of block comments up to the end of a line does not depend on what follows,
unless a comment is open there and closed further on. -/
theorem dropBlockComments_line {line rest : Text} {c : Char} (hc : c ≠ '*' ∧ c ≠ '/')
    {inside : Bool} (hinside : inside = true → closesComment line = true)
    (h : ['/', '*'] <:+: dropBlockComments inside line → ¬ ['*', '/'] <:+: rest) :
    dropBlockComments inside (line ++ c :: rest)
      = dropBlockComments inside line ++ c :: dropBlockComments false rest := by
  have hhead : ∀ {line : Text} {d : Char}, c ≠ d → line.head? ≠ some d →
      (line ++ c :: rest).head? ≠ some d := by
    rintro (_ | ⟨e, line⟩) d hcd hline
    · simpa using hcd
    · exact hline
  fun_induction dropBlockComments inside line with
  | case1 inside =>
      cases inside with
      | true => exact absurd (hinside rfl) Bool.false_ne_true
      | false => exact dropBlockComments_cons fun heq => absurd heq hc.2
  | case2 line ih =>
      have hline := ih (by simp) fun hmark => h (hmark.trans (List.suffix_cons _ _).isInfix)
      rw [List.cons_append, List.cons_append, dropBlockComments, hline]
      rfl
  | case3 d line hnone ih =>
      have hkeep : d = '*' → line.head? ≠ some '/' := by
        rintro rfl hline
        obtain ⟨after, rfl⟩ := List.head?_eq_some_iff.mp hline
        exact hnone after rfl rfl
      rw [List.cons_append, dropBlockComments_inside fun hd => hhead hc.2 (hkeep hd)]
      exact ih (fun _ => closesComment_cons hkeep ▸ hinside rfl) h
  | case4 line hcloses ih =>
      rw [List.cons_append, List.cons_append, dropBlockComments,
        if_pos ((closesComment_line hc).mpr (.inl hcloses))]
      exact ih (fun _ => hcloses) h
  | case5 line hcloses =>
      have hopen : ¬ ['*', '/'] <:+: rest := h ⟨[], line, rfl⟩
      have hclosed : ¬ closesComment (line ++ c :: rest) = true := by
        rw [closesComment_line hc, closesComment_iff, closesComment_iff]
        rintro (hline | hrest)
        · exact hcloses (closesComment_of_mark hline)
        · exact hopen hrest
      rw [List.cons_append, List.cons_append, dropBlockComments, if_neg hclosed,
        dropBlockComments_of_unclosed (.inr hopen)]
      rfl
  | case6 d line hnone ih =>
      have hkeep : d = '/' → line.head? ≠ some '*' := by
        rintro rfl hline
        obtain ⟨after, rfl⟩ := List.head?_eq_some_iff.mp hline
        exact hnone after rfl rfl
      have hline := ih (by simp) fun hmark => h (hmark.trans (List.suffix_cons _ _).isInfix)
      rw [List.cons_append, dropBlockComments_cons fun hd => hhead hc.1 (hkeep hd), hline]
      rfl

theorem dropLineComments_cons {c : Char} {rest : Text} (h : c = '-' → rest.head? ≠ some '-') :
    dropLineComments false (c :: rest) = c :: dropLineComments false rest := by
  rw [dropLineComments]
  rintro after rfl rfl
  exact h rfl rfl

/-- A line comment ends with its line. -/
theorem dropLineComments_line {line : Text} (h : '\n' ∉ line) (rest : Text) :
    dropLineComments true (line ++ '\n' :: rest) = '\n' :: dropLineComments false rest := by
  induction line with
  | nil => rfl
  | cons c line ih =>
      rw [List.cons_append, dropLineComments, ih fun hmem => h (List.mem_cons_of_mem c hmem)]
      rintro rfl
      exact h List.mem_cons_self

namespace Commented

/-! ### Comments that can be removed -/

/-- The marks of a script with comments mean what they should: no character of the script makes a
mark with its neighbour, and what a comment leaves open is not closed further on. -/
def Removable : Commented → Prop
  | [] => True
  | .own c :: rest => (c = '/' → (written rest).head? ≠ some '*') ∧
      (c = '-' → (written rest).head? ≠ some '-') ∧ Removable rest
  | .comment text :: rest => '\n' ∉ text ∧
      (['/', '*'] <:+: dropBlockComments false text → ¬ ['*', '/'] <:+: written rest) ∧
        Removable rest

theorem Removable.of_append {front rest : Commented} (h : Removable (front ++ rest)) :
    Removable rest := by
  induction front with
  | nil => exact h
  | cons piece front ih =>
      cases piece with
      | own c => exact ih h.2.2
      | comment text => exact ih h.2.2

/-- The end of a script may be changed if no mark comes about by it. -/
theorem Removable.change_end {script ending ending' : Commented} (h : Removable (script ++ ending))
    (hending : Removable ending')
    (hstart : ∀ c ∈ ['*', '/', '-'], (written ending').head? = some c →
      (written ending).head? = some c)
    (hclosing : ['*', '/'] <:+: written ending' → ['*', '/'] <:+: written ending) :
    Removable (script ++ ending') := by
  have hhead : ∀ (rest : Commented),
      ∀ c ∈ ['*', '/', '-'], (written (rest ++ ending')).head? = some c →
      (written (rest ++ ending)).head? = some c := by
    intro rest c hc hfirst
    rcases rest with _ | ⟨_ | _, rest⟩
    · exact hstart c hc hfirst
    · exact hfirst
    · simpa using hfirst
  have hmark : ∀ (rest : Commented), ['*', '/'] <:+: written (rest ++ ending') →
      ['*', '/'] <:+: written (rest ++ ending) := by
    intro rest
    rw [written_append, written_append, mark_append, mark_append]
    exact Or.imp id (Or.imp hclosing (And.imp id (hstart '/' (by simp))))
  induction script with
  | nil => exact hending
  | cons piece rest ih =>
      cases piece with
      | own c =>
          obtain ⟨hblock, hline, hrest⟩ := h
          exact ⟨fun hc hfirst => hblock hc (hhead rest '*' (by simp) hfirst),
            fun hc hfirst => hline hc (hhead rest '-' (by simp) hfirst), ih hrest⟩
      | comment text =>
          obtain ⟨htext, hclosed, hrest⟩ := h
          exact ⟨htext, fun hopen hclosing => hclosed hopen (hmark rest hclosing), ih hrest⟩

/-- A mark that ends a block comment stands in the script itself or in one of its comments. -/
theorem closing_written {script : Commented} (h : ['*', '/'] <:+: written script) :
    ['*', '/'] <:+: plain script ∨ ∃ text, .comment text ∈ script ∧ ['*', '/'] <:+: text := by
  induction script with
  | nil => exact .inl h
  | cons piece rest ih =>
      have hrest : ['*', '/'] <:+: written rest →
          ['*', '/'] <:+: plain (piece :: rest) ∨ ∃ text,
            .comment text ∈ piece :: rest ∧ ['*', '/'] <:+: text := by
        intro hmark
        rcases ih hmark with hplain | ⟨text, hmem, htext⟩
        · exact .inl (hplain.trans (((List.suffix_cons piece rest).filterMap _).isInfix))
        · exact .inr ⟨text, List.mem_cons_of_mem _ hmem, htext⟩
      cases piece with
      | own c =>
          rcases List.infix_cons_iff.mp h with hprefix | hinfix
          · obtain ⟨rfl, after, hafter⟩ := List.cons_prefix_cons.mp hprefix
            have hafter : '/' :: after = written rest := hafter
            rcases rest with _ | ⟨d | text, rest⟩
            · exact absurd hafter (List.cons_ne_nil _ _)
            · obtain ⟨rfl, -⟩ := List.cons.inj hafter
              exact .inl ⟨[], plain rest, rfl⟩
            · rw [written_comment] at hafter
              exact absurd (List.cons.inj hafter).1 (by decide)
          · exact hrest hinfix
      | comment text =>
          rw [written_comment, mark_cons_iff (by decide), mark_cons_iff (by decide), mark_append,
            mark_cons_iff (by decide)] at h
          rcases h with htext | hmark | ⟨-, hfirst⟩
          · exact .inr ⟨text, List.mem_cons_self, htext⟩
          · exact hrest hmark
          · exact absurd (Option.some.inj hfirst) (by decide)

theorem mem_of_mem_dropBlockComments {text : Text} {inside : Bool} {c : Char} (hc : c ≠ ' ')
    (h : c ∈ dropBlockComments inside text) : c ∈ text := by
  fun_induction dropBlockComments inside text with
  | case1 inside => exact absurd h List.not_mem_nil
  | case2 rest ih =>
      exact List.mem_cons_of_mem _ (List.mem_cons_of_mem _
        (ih ((List.mem_cons.mp h).resolve_left hc)))
  | case3 d rest _ ih => exact List.mem_cons_of_mem d (ih h)
  | case4 rest _ ih => exact List.mem_cons_of_mem _ (List.mem_cons_of_mem _ (ih h))
  | case5 rest => exact h
  | case6 d rest _ ih => exact List.mem_cons.mpr ((List.mem_cons.mp h).imp_right ih)

/-- What is left of a script without its block comments begins as the script does. -/
theorem head?_dropBlockComments_written {script : Commented} (h : Removable script) :
    (dropBlockComments false (written script)).head? = (written script).head? := by
  cases script with
  | nil => rfl
  | cons piece rest =>
      cases piece with
      | own c => rw [written_own, dropBlockComments_cons h.1, List.head?_cons, List.head?_cons]
      | comment text =>
          rw [written_comment, dropBlockComments_cons fun heq => absurd heq (by decide),
            List.head?_cons, List.head?_cons]

/-- **A line feed is left of every line comment.** -/
theorem stripComments_written {script : Commented} (h : Removable script) :
    stripComments (written script) = bare script := by
  unfold stripComments
  induction script with
  | nil => rfl
  | cons piece rest ih =>
      cases piece with
      | own c =>
          obtain ⟨hblock, hline, hrest⟩ := h
          rw [written_own, dropBlockComments_cons hblock, dropLineComments_cons, ih hrest, bare_own]
          rw [head?_dropBlockComments_written hrest]
          exact hline
      | comment text =>
          obtain ⟨htext, hclosed, hrest⟩ := h
          have hkept : '\n' ∉ dropBlockComments false text := fun hmem =>
            htext (mem_of_mem_dropBlockComments (by decide) hmem)
          rw [written_comment, dropBlockComments_cons fun heq => absurd heq (by decide),
            dropBlockComments_cons fun heq => absurd heq (by decide),
            dropBlockComments_line (by decide) (by simp) hclosed, dropLineComments,
            dropLineComments_line hkept, ih hrest, bare_comment]

end Commented

end Diagrams.Schema
