/-
The list between two brackets.

A list is found by the scan that matches its brackets, and then cut by the scan for commas.  The
two keep the same books but for one thing: backticks hide brackets from the first scan, and the
second does not know them.  Where the text in backticks has nothing in it that the second scan
looks at, the two scans stay in step (`InStep.step`), with one bracket less on the books of the
second: the list is cut at the commas that the first scan passed with one bracket open, and it
ends outside quotes and brackets.
-/
import Diagrams.Proofs.Brackets.Closing
import Diagrams.Proofs.Schema.Parts

namespace Diagrams

/-- Whether the scan that starts at one place meets, at another one, a comma outside
quotes while one bracket is open. -/
def Brackets.passesComma (brackets : Brackets) (text : Text) (start place : Nat) : Bool :=
  text[place]? == some ',' &&
    (Quoting.scanned Brackets.isQuote {} (stretch text start place)).isOutside &&
    brackets.balance Brackets.isQuote {} (stretch text start place) == 1

namespace Schema

/-- Whether a scan over a list looks at the character. -/
def isListSign (c : Char) : Bool := ListScan.isQuote c || c == '(' || c == ')' || c == ','

/-- Between two places, the text that the scan for the closing bracket takes for text in backticks
has nothing in it that a scan over a list looks at. -/
def BackticksPlain (text : Text) (start stop : Nat) : Prop :=
  ∀ place < stop, start < place →
    (Quoting.scanned Brackets.isQuote {} (Brackets.stretch text start place)).quote = some '\x60' →
    text[place]?.all fun c => !isListSign c

instance (text : Text) (start stop : Nat) : Decidable (BackticksPlain text start stop) :=
  inferInstanceAs (Decidable (∀ place < stop, _ → _ → _))

/-- The scan over a list is where the scan for the closing bracket is, but for backticks and the
bracket in front of the list. -/
structure InStep (scan : ListScan) (state : Quoting) (depth : Int) : Prop where
  slash : scan.quoting.before = some '\\' ↔ state.before = some '\\'
  quote : scan.quoting.quote = if state.quote = some '\x60' then none else state.quote
  depth : scan.depth + 1 = depth

variable {scan : ListScan} {state : Quoting} {depth : Int} {c : Char}

theorem isQuote_of_ne_backtick (h : c ≠ '\x60') : Brackets.isQuote c = ListScan.isQuote c := by
  simp [Brackets.isQuote, ListScan.isQuote, h]

/-- The quotes of the two scans stay the same but for backticks. -/
theorem quote_step {before before' quote : Option Char}
    (hslash : before = some '\\' ↔ before' = some '\\')
    (hplain : (Quoting.step Brackets.isQuote ⟨before', quote⟩ c).quote = some '\x60' →
      isListSign c = false) :
    (Quoting.step ListScan.isQuote ⟨before, if quote = some '\x60' then none else quote⟩ c).quote
      = if (Quoting.step Brackets.isQuote ⟨before', quote⟩ c).quote = some '\x60' then none
        else (Quoting.step Brackets.isQuote ⟨before', quote⟩ c).quote := by
  have hbefore : (before != some '\\') = (before' != some '\\') := by
    rw [Bool.eq_iff_iff, bne_iff_ne, bne_iff_ne, ne_eq, ne_eq, hslash]
  unfold Quoting.step at hplain ⊢
  simp only [hbefore] at hplain ⊢
  cases before' != some '\\' with
  | false => simp
  | true =>
      by_cases hc : c = '\x60'
      · subst hc
        cases quote with
        | none => rfl
        | some quote =>
            by_cases hquote : quote = '\x60' <;> simp [hquote, ListScan.isQuote, Brackets.isQuote]
      · rw [isQuote_of_ne_backtick hc] at hplain ⊢
        cases hmark : ListScan.isQuote c with
        | false => simp
        | true =>
            have hlisted : isListSign c = true := by simp [isListSign, hmark]
            cases quote with
            | none => simp [hc]
            | some quote =>
                by_cases hquote : quote = '\x60'
                · subst hquote
                  rw [hmark] at hplain
                  simp [hlisted, Ne.symm hc] at hplain
                · by_cases hsame : quote = c <;> simp [hquote, hsame, hc]

theorem InStep.step (h : InStep scan state depth)
    (hplain : (state.step Brackets.isQuote c).quote = some '\x60' → isListSign c = false) :
    InStep (scan.step c) (state.step Brackets.isQuote c)
      (depth + Brackets.round.weight (state.step Brackets.isQuote c) c) := by
  obtain ⟨⟨before, quote⟩, count⟩ := scan
  obtain ⟨before', quote'⟩ := state
  obtain ⟨hslash, rfl, rfl⟩ := h
  have hquote := @quote_step c before before' quote' hslash hplain
  refine ⟨Iff.rfl, hquote, ?_⟩
  unfold ListScan.step Brackets.weight Quoting.isOutside
  simp only [hquote]
  by_cases hback : (Quoting.step Brackets.isQuote ⟨before', quote'⟩ c).quote = some '\x60'
  · have hsign := hplain hback
    simp only [isListSign, Bool.or_eq_false_iff, beq_eq_false_iff_ne] at hsign
    simp [hback, hsign.1.1.2, hsign.1.2]
  · rw [if_neg hback]
    cases (Quoting.step Brackets.isQuote ⟨before', quote'⟩ c).quote.isNone with
    | false => simp
    | true =>
        by_cases hopening : c = '('
        · simp [hopening, Brackets.round]
        · by_cases hclosing : c = ')'
          · have hcount : count - 1 + 1 = count + 1 + -1 := by omega
            simp only [hclosing, Brackets.round]
            exact hcount
          · simp [hopening, hclosing, Brackets.round]

/-! ### From bracket to bracket -/

variable {text body rest : Text} {start stop : Nat}

/-- The text between the bracket at one place and the place of the one that closes it. -/
def bodyOf (text : Text) (start stop : Nat) : Text := (text.take stop).drop (start + 1)

theorem exists_drop_start (hopen : text[start]? = some '(')
    (hclose : Brackets.round.Closes text start stop) :
    ∃ rest, text.drop start = '(' :: (bodyOf text start stop ++ ')' :: rest) ∧
      stop = start + 1 + (bodyOf text start stop).length := by
  obtain ⟨hlt, hget⟩ := List.getElem?_eq_some_iff.mp hopen
  obtain ⟨hstop, hgetStop⟩ := List.getElem?_eq_some_iff.mp hclose.closing
  have hbehind := hclose.behind
  have htext : text.drop (start + 1) = bodyOf text start stop ++ text.drop stop := by
    conv_lhs => rw [← List.take_append_drop stop text]
    exact List.drop_append_of_le_length (by rw [List.length_take]; omega)
  refine ⟨text.drop (stop + 1), ?_, ?_⟩
  · rw [List.drop_eq_getElem_cons hlt, hget, htext, List.drop_eq_getElem_cons hstop, hgetStop]
    rfl
  · rw [bodyOf, List.length_drop, List.length_take]
    omega

section

variable (hdrop : text.drop start = '(' :: (body ++ ')' :: rest))

include hdrop

theorem getElem?_body {place : Nat} (hplace : place < body.length) :
    text[start + 1 + place]? = some body[place] := by
  rw [Nat.add_assoc, ← List.getElem?_drop, hdrop, Nat.add_comm 1 place, List.getElem?_cons_succ,
    List.getElem?_append_left hplace, List.getElem?_eq_getElem hplace]

theorem stretch_body {place : Nat} (hplace : place < body.length) :
    Brackets.stretch text start (start + 1 + place) = '(' :: body.take (place + 1) := by
  rw [Nat.add_assoc, Brackets.stretch_add, hdrop, Nat.add_comm 1 place, List.take_succ_cons,
    List.take_append_of_le_length hplace]

theorem stretch_closing :
    Brackets.stretch text start (start + 1 + body.length) = '(' :: body ++ [')'] := by
  rw [Nat.add_assoc, Brackets.stretch_add, hdrop, Nat.add_comm 1, List.take_succ_cons,
    List.take_length_add_append, List.take_succ_cons, List.take_zero, List.cons_append]

/-- The two scans stay in step through the body of a bracket. -/
theorem inStep_take (hplain : BackticksPlain text start (start + 1 + body.length)) {place : Nat}
    (hplace : place ≤ body.length) :
    InStep (ListScan.behind {} (body.take place))
      (Quoting.scanned Brackets.isQuote {} ('(' :: body.take place))
      (Brackets.round.balance Brackets.isQuote {} ('(' :: body.take place)) := by
  induction place with
  | zero =>
      rw [List.take_zero]
      exact ⟨by decide, by decide, by decide⟩
  | succ place ih =>
      have hlt : place < body.length := hplace
      have hnext := hplain (start + 1 + place) (by omega) (by omega)
      rw [stretch_body hdrop hlt, getElem?_body hdrop hlt,
        List.take_succ_eq_append_getElem hlt] at hnext
      rw [List.take_succ_eq_append_getElem hlt]
      rw [← List.cons_append, Quoting.scanned_append] at hnext ⊢
      rw [Brackets.balance_append, Brackets.balance_singleton (Brackets.apart_round ⟨rfl, rfl⟩),
        ListScan.behind, List.foldl_append]
      exact (ih (Nat.le_of_lt hlt)).step (by simpa using hnext)

/-- The list is cut at a place of the body if the scan for the closing bracket passes a comma
there. -/
theorem cutsAt_body (hplain : BackticksPlain text start (start + 1 + body.length)) {place : Nat}
    (hplace : place < body.length) :
    Text.cutsAt ListScan.step ListScan.isCut {} body place
      = Brackets.round.passesComma text start (start + 1 + place) := by
  obtain ⟨-, hquote, hcount⟩ := inStep_take hdrop hplain (show place + 1 ≤ body.length from hplace)
  have hback := hplain (start + 1 + place) (by omega) (by omega)
  rw [getElem?_body hdrop hplace, stretch_body hdrop hplace] at hback
  unfold Text.cutsAt Brackets.passesComma
  rw [getElem?_body hdrop hplace, stretch_body hdrop hplace, List.getElem?_eq_getElem hplace]
  show ListScan.isCut (ListScan.behind {} (body.take (place + 1))) body[place] = _
  by_cases hcomma : body[place] = ','
  · have hlisted : isListSign ',' = true := by decide
    rw [hcomma] at hback
    rw [if_neg fun htick => by simpa [hlisted] using hback htick] at hquote
    rw [Bool.eq_iff_iff]
    simp only [ListScan.isCut, Quoting.isOutside, hquote, hcomma, beq_self_eq_true, Bool.and_true,
      Bool.true_and, Bool.and_eq_true, beq_iff_eq]
    exact and_congr_right fun _ => by omega
  · have hbeq : (body[place] == ',') = false := beq_eq_false_iff_ne.mpr hcomma
    simp [ListScan.isCut, hbeq]

/-- The bracket that closes the body is no quote and takes one bracket off, so none is open in front
of it. -/
theorem closed_body (hplain : BackticksPlain text start (start + 1 + body.length))
    (hcloses : Brackets.round.Closes text start (start + 1 + body.length)) : Closed body := by
  have hround : Brackets.round.Apart Brackets.isQuote := Brackets.apart_round ⟨rfl, rfl⟩
  obtain ⟨-, hquote, hdepth⟩ := inStep_take hdrop hplain (Nat.le_refl _)
  have houtside := hcloses.outside
  have hcount : Brackets.round.balance Brackets.isQuote {}
      (Brackets.stretch text start (start + 1 + body.length)) = 0 := by
    rw [Brackets.balance, hcloses.balanced]
    omega
  rw [List.take_length] at hquote hdepth
  rw [stretch_closing hdrop, Quoting.scanned_append] at houtside
  rw [stretch_closing hdrop, Brackets.balance_append, Brackets.balance_singleton hround] at hcount
  have hweight : Brackets.round.weight (Quoting.step Brackets.isQuote
      (Quoting.scanned Brackets.isQuote {} ('(' :: body)) ')') ')' = -1 :=
    Brackets.weight_closing hround houtside
  rw [hweight] at hcount
  have hnone : (Quoting.scanned Brackets.isQuote {} ('(' :: body)).quote = none := by
    refine Option.isNone_iff_eq_none.mp ?_
    simpa [Quoting.step, Quoting.isOutside, Brackets.isQuote] using houtside
  rw [hnone] at hquote
  exact ⟨by rw [Quoting.isOutside, hquote]; rfl, by omega⟩

end

/-- **The list between a bracket and the one that closes it is cut at the commas that the scan
for the closing bracket passed outside quotes with one bracket open, and at no others; a scan
of it ends outside quotes and brackets.  This needs that no text in backticks has quotes,
brackets or commas in it.** -/
theorem parts_bodyOf (hopen : text[start]? = some '(')
    (hclosing : Brackets.round.closing? text start = some stop)
    (hplain : BackticksPlain text start stop) :
    let body := bodyOf text start stop
    let places := (List.range body.length).filter fun place =>
      Brackets.round.passesComma text start (start + 1 + place)
    ListScan.commas {} body = places ∧ parts body = partsOf (body.slices 0 places) ∧
      Closed body := by
  intro body places
  have hround : Brackets.round.Apart Brackets.isQuote := Brackets.apart_round ⟨rfl, rfl⟩
  have hcloses := ((Brackets.closing?_eq_some_iff hround hopen stop).mp hclosing).1
  obtain ⟨rest, hdrop, hstop⟩ := exists_drop_start hopen hcloses
  have hplain' : BackticksPlain text start (start + 1 + body.length) := hstop ▸ hplain
  have hcommas : ListScan.commas {} body = places :=
    List.filter_congr fun place hplace => cutsAt_body hdrop hplain' (List.mem_range.mp hplace)
  refine ⟨hcommas, ?_, ?_⟩
  · show partsOf (pieces {} body) = _
    rw [pieces_eq_slices, hcommas]
  · exact closed_body hdrop hplain' (hstop ▸ hcloses)

/-- A table with a bracket and a comma in quotes, and a name in backticks. -/
def quotedOptions : Text := "t(`a` SET('x, (', 'y'), b INT)".toList

theorem parts_bodyOf_quotedOptions :
    quotedOptions[1]? = some '(' ∧ Brackets.round.closing? quotedOptions 1 = some 29 ∧
      BackticksPlain quotedOptions 1 29 ∧
      ListScan.commas {} (bodyOf quotedOptions 1 29) = [20] ∧
        Closed (bodyOf quotedOptions 1 29) := by
  have hopen : quotedOptions[1]? = some '(' := rfl
  have hclosing : Brackets.round.closing? quotedOptions 1 = some 29 := by decide
  have hplain : BackticksPlain quotedOptions 1 29 := by decide
  obtain ⟨hcommas, -, hclosed⟩ := parts_bodyOf hopen hclosing hplain
  exact ⟨hopen, hclosing, hplain, hcommas.trans (by decide), hclosed⟩

/-- A comma in backticks cuts the list, although the scan for the closing bracket passes it inside
quotes. -/
theorem commas_bodyOf_backticks :
    Brackets.round.closing? "(`a,b` INT, c INT)".toList 0 = some 17 ∧
      Brackets.round.passesComma "(`a,b` INT, c INT)".toList 0 3 = false ∧
      ListScan.commas {} (bodyOf "(`a,b` INT, c INT)".toList 0 17) = [2, 9] ∧
      parts (bodyOf "(`a,b` INT, c INT)".toList 0 17)
        = ["`a".toList, "b` INT".toList, "c INT".toList] := by
  decide

end Schema

end Diagrams
