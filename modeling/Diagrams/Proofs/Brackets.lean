/-
Texts whose quotes and brackets are closed.

A scan that counts brackets comes out of such a text as it went in: outside all quotes, with as many
brackets open as before.  `Nested` says which texts these are, by the ways to build them, so the
facts about a scan go by induction on the text.  Backslashes are left out altogether, for a quote
character behind one counts differently.

The characters that a text must not show outside its brackets and quotes are a parameter: a list is
cut at its commas, but not at those inside the brackets of a part.
-/
import Diagrams.Brackets

namespace Diagrams

/-- Closed quotes, closed brackets, and none of the avoided characters outside of both. -/
inductive Nested (brackets : Brackets) (isQuote : Char → Bool) :
    (avoids : Char → Bool) → Text → Prop
  | nil {avoids : Char → Bool} : Nested brackets isQuote avoids []
  | plain {avoids : Char → Bool} {c : Char} {rest : Text} (quote : isQuote c = false)
      (opening : c ≠ brackets.opening) (closing : c ≠ brackets.closing) (slash : c ≠ '\\')
      (allowed : avoids c = false) (tail : Nested brackets isQuote avoids rest) :
      Nested brackets isQuote avoids (c :: rest)
  | quoted {avoids : Char → Bool} {quote : Char} {inner rest : Text}
      (mark : isQuote quote = true) (slash : quote ≠ '\\')
      (inside : ∀ c ∈ inner, c ≠ quote ∧ c ≠ '\\') (tail : Nested brackets isQuote avoids rest) :
      Nested brackets isQuote avoids (quote :: (inner ++ quote :: rest))
  | group {avoids : Char → Bool} {inner rest : Text}
      (inside : Nested brackets isQuote (fun _ => false) inner)
      (tail : Nested brackets isQuote avoids rest) :
      Nested brackets isQuote avoids (brackets.opening :: (inner ++ brackets.closing :: rest))

/-- Brackets that are neither quote characters nor backslashes. -/
structure Brackets.Apart (brackets : Brackets) (isQuote : Char → Bool) : Prop where
  opening : isQuote brackets.opening = false
  closing : isQuote brackets.closing = false
  slashOpening : brackets.opening ≠ '\\'
  slashClosing : brackets.closing ≠ '\\'
  distinct : brackets.closing ≠ brackets.opening

theorem Brackets.apart_round {isQuote : Char → Bool}
    (h : isQuote '(' = false ∧ isQuote ')' = false) :
    Brackets.round.Apart isQuote := ⟨h.1, h.2, by decide, by decide, by decide⟩

theorem Brackets.apart_curly : Brackets.curly.Apart Brackets.isQuote :=
  ⟨by decide, by decide, by decide, by decide, by decide⟩

variable {brackets : Brackets} {isQuote avoids : Char → Bool}

namespace Nested

theorem append {front rest : Text} (h : Nested brackets isQuote avoids front)
    (hrest : Nested brackets isQuote avoids rest) :
    Nested brackets isQuote avoids (front ++ rest) := by
  induction h with
  | nil => exact hrest
  | plain quote opening closing slash allowed _ ih =>
      exact .plain quote opening closing slash allowed (ih hrest)
  | quoted mark slash inside _ ih =>
      rw [List.cons_append, List.append_assoc, List.cons_append]
      exact .quoted mark slash inside (ih hrest)
  | group inside _ _ ih =>
      rw [List.cons_append, List.append_assoc, List.cons_append]
      exact .group inside (ih hrest)

/-- What avoids more characters also avoids fewer. -/
theorem mono {avoids' : Char → Bool} {text : Text} (h : Nested brackets isQuote avoids text)
    (hsub : ∀ c, avoids c = false → avoids' c = false) : Nested brackets isQuote avoids' text := by
  induction h with
  | nil => exact .nil
  | plain quote opening closing slash allowed _ ih =>
      exact .plain quote opening closing slash (hsub _ allowed) (ih hsub)
  | quoted mark slash inside _ ih => exact .quoted mark slash inside (ih hsub)
  | group inside _ _ ih => exact .group inside (ih hsub)

/-- A text without quotes, brackets and backslashes. -/
theorem of_forall {text : Text} (h : ∀ c ∈ text, isQuote c = false ∧ c ≠ brackets.opening ∧
    c ≠ brackets.closing ∧ c ≠ '\\' ∧ avoids c = false) : Nested brackets isQuote avoids text := by
  induction text with
  | nil => exact .nil
  | cons c text ih =>
      obtain ⟨⟨quote, opening, closing, slash, allowed⟩, htext⟩ := List.forall_mem_cons.mp h
      exact .plain quote opening closing slash allowed (ih htext)

end Nested

/-! ### One character of a scan -/

namespace Quoting

theorem step_of_plain {before : Option Char} {c : Char} (h : isQuote c = false) :
    Quoting.step isQuote ⟨before, none⟩ c = ⟨some c, none⟩ := by
  simp [step, h]

theorem step_of_quote {before : Option Char} {c : Char} (h : isQuote c = true)
    (hbefore : before ≠ some '\\') :
    Quoting.step isQuote ⟨before, none⟩ c = ⟨some c, some c⟩ := by
  simp [step, h, hbefore]

theorem step_inside {before : Option Char} {quote c : Char} (h : c ≠ quote) :
    Quoting.step isQuote ⟨before, some quote⟩ c = ⟨some c, some quote⟩ := by
  simp [step, Ne.symm h]

theorem step_of_closing {before : Option Char} {quote : Char} (h : isQuote quote = true)
    (hbefore : before ≠ some '\\') :
    Quoting.step isQuote ⟨before, some quote⟩ quote = ⟨some quote, none⟩ := by
  simp [step, h, hbefore]

end Quoting

/-! ### The bracket that closes a text -/

namespace Brackets

variable {before : Option Char} {depth : Int} {offset : Nat} {c : Char} {rest : Text}

/-- Where a bracket is closed does not depend on what stands behind. -/
theorem closingFrom_append {state : Quoting} {text : Text} {stop : Nat}
    (h : brackets.closingFrom state depth offset text = some stop) (rest : Text) :
    brackets.closingFrom state depth offset (text ++ rest) = some stop := by
  fun_induction brackets.closingFrom state depth offset text with
  | case1 => cases h
  | case2 state depth offset c text next hinside ih =>
      rw [List.cons_append, closingFrom, if_pos hinside, ih h]
  | case3 state depth offset text next houtside ih =>
      rw [List.cons_append, closingFrom, if_neg houtside, if_pos rfl, ih h]
  | case4 state depth offset text hdepth next houtside hopening =>
      rw [List.cons_append, closingFrom, if_neg houtside, if_neg hopening, if_pos rfl,
        if_pos hdepth, h]
  | case5 state depth offset text hdepth next houtside hopening ih =>
      rw [List.cons_append, closingFrom, if_neg houtside, if_neg hopening, if_pos rfl,
        if_neg hdepth, ih h]
  | case6 state depth offset c text next houtside hopening hclosing ih =>
      rw [List.cons_append, closingFrom, if_neg houtside, if_neg hopening, if_neg hclosing, ih h]

theorem closing?_append {text : Text} {stop : Nat} (h : brackets.closing? text 0 = some stop)
    (rest : Text) : brackets.closing? (text ++ rest) 0 = some stop := by
  rw [closing?, if_pos rfl, List.drop_zero] at h ⊢
  exact closingFrom_append h rest

theorem closingFrom_plain (hquote : Brackets.isQuote c = false) (hopening : c ≠ brackets.opening)
    (hclosing : c ≠ brackets.closing) :
    brackets.closingFrom ⟨before, none⟩ depth offset (c :: rest)
      = brackets.closingFrom ⟨some c, none⟩ depth (offset + 1) rest := by
  rw [closingFrom, Quoting.step_of_plain hquote]
  simp [Quoting.isOutside, hopening, hclosing]

theorem closingFrom_opening (h : brackets.Apart Brackets.isQuote) :
    brackets.closingFrom ⟨before, none⟩ depth offset (brackets.opening :: rest)
      = brackets.closingFrom ⟨some brackets.opening, none⟩ (depth + 1) (offset + 1) rest := by
  rw [closingFrom, Quoting.step_of_plain h.opening]
  simp [Quoting.isOutside]

theorem closingFrom_closing (h : brackets.Apart Brackets.isQuote) (hdepth : 1 ≤ depth) :
    brackets.closingFrom ⟨before, none⟩ (depth + 1) offset (brackets.closing :: rest)
      = brackets.closingFrom ⟨some brackets.closing, none⟩ depth (offset + 1) rest := by
  have hdeep : depth ≠ 0 := by omega
  rw [closingFrom, Quoting.step_of_plain h.closing]
  simp [Quoting.isOutside, h.distinct, hdeep]

theorem closingFrom_quoted {quote : Char} {inner : Text} (offset : Nat)
    (h : brackets.Apart Brackets.isQuote) (hquote : Brackets.isQuote quote = true)
    (hbefore : before ≠ some '\\') (hinner : ∀ c ∈ inner, c ≠ quote ∧ c ≠ '\\') :
    brackets.closingFrom ⟨before, some quote⟩ depth offset (inner ++ quote :: rest)
      = brackets.closingFrom ⟨some quote, none⟩ depth (offset + inner.length + 1) rest := by
  induction inner generalizing before offset with
  | nil =>
      have hopening : quote ≠ brackets.opening := by
        rintro rfl
        rw [h.opening] at hquote
        exact Bool.noConfusion hquote
      have hclosing : quote ≠ brackets.closing := by
        rintro rfl
        rw [h.closing] at hquote
        exact Bool.noConfusion hquote
      rw [List.nil_append, closingFrom, Quoting.step_of_closing hquote hbefore]
      simp [Quoting.isOutside, hopening, hclosing]
  | cons d inner ih =>
      obtain ⟨⟨hne, hslash⟩, hinner⟩ := List.forall_mem_cons.mp hinner
      have hnext : (some d : Option Char) ≠ some '\\' := by simpa using hslash
      rw [List.cons_append, closingFrom, Quoting.step_inside hne]
      have hrest := ih (offset + 1) hnext hinner
      rw [List.length_cons, show offset + (inner.length + 1) + 1 = offset + 1 + inner.length + 1 by
        omega, ← hrest]
      simp [Quoting.isOutside]

/-- A scan for the closing bracket comes out of a nested text as it went in. -/
theorem closingFrom_nested {text : Text} (h : brackets.Apart Brackets.isQuote)
    (htext : Nested brackets Brackets.isQuote avoids text) (hbefore : before ≠ some '\\')
    (hdepth : 1 ≤ depth) :
    ∃ last, last ≠ some '\\' ∧ ∀ offset rest,
      brackets.closingFrom ⟨before, none⟩ depth offset (text ++ rest)
        = brackets.closingFrom ⟨last, none⟩ depth (offset + text.length) rest := by
  induction htext generalizing before depth with
  | nil => exact ⟨before, hbefore, fun offset rest => rfl⟩
  | @plain _ c text quote opening closing slash _ _ ih =>
      have hc : (some c : Option Char) ≠ some '\\' := by simpa using slash
      obtain ⟨last, hlast, hscan⟩ := ih hc hdepth
      refine ⟨last, hlast, fun offset rest => ?_⟩
      rw [List.cons_append, closingFrom_plain quote opening closing, hscan, List.length_cons]
      congr 1
      omega
  | @quoted _ quote inner text mark slash inside _ ih =>
      have hq : (some quote : Option Char) ≠ some '\\' := by simpa using slash
      obtain ⟨last, hlast, hscan⟩ := ih hq hdepth
      refine ⟨last, hlast, fun offset rest => ?_⟩
      have hopen : brackets.closingFrom ⟨before, none⟩ depth offset
            (quote :: (inner ++ quote :: (text ++ rest)))
          = brackets.closingFrom ⟨some quote, some quote⟩ depth (offset + 1)
            (inner ++ quote :: (text ++ rest)) := by
        rw [closingFrom, Quoting.step_of_quote mark hbefore]
        simp [Quoting.isOutside]
      rw [List.cons_append, List.append_assoc, List.cons_append, hopen,
        closingFrom_quoted _ h mark hq inside, hscan]
      congr 1
      simp only [List.length_cons, List.length_append]
      omega
  | @group _ inner text _ _ ihInner ih =>
      have hopening : (some brackets.opening : Option Char) ≠ some '\\' := by
        simpa using h.slashOpening
      have hclosing : (some brackets.closing : Option Char) ≠ some '\\' := by
        simpa using h.slashClosing
      have hdeep : 1 ≤ depth + 1 := by omega
      obtain ⟨_, -, hinner⟩ := ihInner hopening hdeep
      obtain ⟨last, hlast, hscan⟩ := ih hclosing hdepth
      refine ⟨last, hlast, fun offset rest => ?_⟩
      rw [List.cons_append, List.append_assoc, List.cons_append, closingFrom_opening h, hinner,
        closingFrom_closing h hdepth, hscan]
      congr 1
      simp only [List.length_cons, List.length_append]
      omega

/-- The bracket that closes the one in front of a nested text stands behind it. -/
theorem closingFrom_of_nested {text : Text} (h : brackets.Apart Brackets.isQuote)
    (htext : Nested brackets Brackets.isQuote avoids text) (offset : Nat) (after : Text) :
    brackets.closingFrom ⟨before, none⟩ 0 offset
        (brackets.opening :: (text ++ brackets.closing :: after))
      = some (offset + 1 + text.length) := by
  have hopening : (some brackets.opening : Option Char) ≠ some '\\' := by simpa using h.slashOpening
  obtain ⟨last, -, hscan⟩ := closingFrom_nested h htext hopening (Int.le_refl 1)
  rw [closingFrom_opening h]
  show brackets.closingFrom _ 1 (offset + 1) _ = _
  rw [hscan, closingFrom, Quoting.step_of_plain h.closing]
  simp [Quoting.isOutside, h.distinct]

theorem closing?_of_nested {text : Text} (h : brackets.Apart Brackets.isQuote)
    (htext : Nested brackets Brackets.isQuote avoids text) (after : Text) :
    brackets.closing? (brackets.opening :: (text ++ brackets.closing :: after)) 0
      = some (1 + text.length) := by
  unfold closing?
  rw [if_pos rfl, List.drop_zero, closingFrom_of_nested h htext, Nat.zero_add]

/-- The body of a bracketed text is the nested text between its brackets. -/
theorem body?_of_nested {text : Text} (h : brackets.Apart Brackets.isQuote)
    (htext : Nested brackets Brackets.isQuote avoids text) (after : Text) :
    brackets.body? (brackets.opening :: (text ++ brackets.closing :: after))
      = some (text, after) := by
  unfold body?
  rw [closing?_of_nested h htext, Option.map_some]
  have htake : ((brackets.opening :: (text ++ brackets.closing :: after)).take
      (1 + text.length)).drop 1 = text := by
    rw [Nat.add_comm, List.take_succ_cons, List.drop_one, List.tail_cons, List.take_left]
  have hdrop : (brackets.opening :: (text ++ brackets.closing :: after)).drop (1 + text.length + 1)
      = after := by
    rw [show 1 + text.length + 1 = (text.length + 1) + 1 by omega, List.drop_succ_cons,
      ← List.drop_drop, List.drop_left]
    rfl
  rw [htake, hdrop]

/-- A bracket in front of a nested text that is all there is has no body. -/
theorem body?_of_unclosed {text : Text} (h : brackets.Apart Brackets.isQuote)
    (htext : Nested brackets Brackets.isQuote avoids text) :
    brackets.body? (brackets.opening :: text) = none := by
  have hopening : (some brackets.opening : Option Char) ≠ some '\\' := by simpa using h.slashOpening
  obtain ⟨last, -, hscan⟩ := closingFrom_nested h htext hopening (Int.le_refl 1)
  have hend := hscan 1 []
  rw [List.append_nil] at hend
  have hclosing : brackets.closing? (brackets.opening :: text) 0 = none := by
    unfold closing?
    rw [if_pos rfl, List.drop_zero, closingFrom_opening h]
    show brackets.closingFrom _ 1 1 _ = _
    rw [hend]
    rfl
  unfold body?
  rw [hclosing]
  rfl

end Brackets

end Diagrams
