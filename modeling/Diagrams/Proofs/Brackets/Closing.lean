/-
Which bracket closes which.

The scan for a closing bracket keeps the quote that it is in and a count of open brackets.  Both are
told by the text that lies behind it: `Quoting.scanned` is where the scan stands with regard to
quotes, and `balance` is the count, namely how many more opening than closing brackets were met
outside quotes.  `closingFrom_cons` is the one step of the scan in these terms, and the bracket that
it finds is the first one where the count is even (`closing?_exact`).
-/
import Mathlib.Data.Nat.Find
import Diagrams.Proofs.Brackets

namespace Diagrams

variable {brackets : Brackets} {isQuote : Char → Bool}

namespace Quoting

/-- Where a scan stands behind a text. -/
def scanned (isQuote : Char → Bool) (state : Quoting) (text : Text) : Quoting :=
  text.foldl (step isQuote) state

/-- The characters of a text that a scan meets outside quotes. -/
def visible (isQuote : Char → Bool) : Quoting → Text → Text
  | _, [] => []
  | state, c :: rest =>
    let next := state.step isQuote c
    if next.isOutside then c :: visible isQuote next rest else visible isQuote next rest

@[simp] theorem scanned_nil (state : Quoting) : scanned isQuote state [] = state := rfl

@[simp] theorem scanned_cons (state : Quoting) (c : Char) (rest : Text) :
    scanned isQuote state (c :: rest) = scanned isQuote (state.step isQuote c) rest := rfl

theorem scanned_append (state : Quoting) (front rest : Text) :
    scanned isQuote state (front ++ rest) = scanned isQuote (scanned isQuote state front) rest :=
  List.foldl_append

theorem visible_append (state : Quoting) (front rest : Text) :
    visible isQuote state (front ++ rest)
      = visible isQuote state front ++ visible isQuote (scanned isQuote state front) rest := by
  fun_induction visible isQuote state front with
  | case1 => rfl
  | case2 state c front next houtside ih =>
      rw [List.cons_append, visible, if_pos houtside, ih]
      rfl
  | case3 state c front next hinside ih =>
      rw [List.cons_append, visible, if_neg hinside, ih]
      rfl

end Quoting

namespace Brackets

/-- What a character adds to the count of open brackets, given where the scan stands behind it. -/
def weight (brackets : Brackets) (state : Quoting) (c : Char) : Int :=
  if !state.isOutside then 0
  else if c = brackets.opening then 1
  else if c = brackets.closing then -1
  else 0

/-- How many more opening than closing brackets a scan meets outside quotes. -/
def balance (brackets : Brackets) (isQuote : Char → Bool) (state : Quoting) (text : Text) : Int :=
  ((Quoting.visible isQuote state text).count brackets.opening : Int)
    - (Quoting.visible isQuote state text).count brackets.closing

@[simp] theorem balance_nil (state : Quoting) : brackets.balance isQuote state [] = 0 := rfl

theorem balance_append (state : Quoting) (front rest : Text) :
    brackets.balance isQuote state (front ++ rest)
      = brackets.balance isQuote state front
        + brackets.balance isQuote (Quoting.scanned isQuote state front) rest := by
  simp only [balance, Quoting.visible_append, List.count_append, Int.natCast_add]
  omega

@[simp] theorem weight_of_inside {state : Quoting} (h : state.isOutside = false) (c : Char) :
    brackets.weight state c = 0 := by
  simp [weight, h]

theorem weight_opening {state : Quoting} (h : state.isOutside = true) :
    brackets.weight state brackets.opening = 1 := by
  simp [weight, h]

theorem weight_closing {state : Quoting} (hapart : brackets.Apart isQuote)
    (h : state.isOutside = true) : brackets.weight state brackets.closing = -1 := by
  simp [weight, h, hapart.distinct]

theorem weight_of_ne {c : Char} (hopening : c ≠ brackets.opening) (hclosing : c ≠ brackets.closing)
    (state : Quoting) : brackets.weight state c = 0 := by
  simp [weight, hopening, hclosing]

theorem balance_singleton (h : brackets.Apart isQuote) (state : Quoting) (c : Char) :
    brackets.balance isQuote state [c] = brackets.weight (state.step isQuote c) c := by
  unfold balance
  rw [Quoting.visible]
  cases houtside : (state.step isQuote c).isOutside with
  | false => simp [houtside, Quoting.visible]
  | true =>
      simp only [if_true, Quoting.visible, List.count_singleton]
      by_cases hopening : c = brackets.opening
      · rw [hopening] at houtside ⊢
        simp [weight_opening houtside, h.distinct.symm]
      · by_cases hclosing : c = brackets.closing
        · rw [hclosing] at houtside ⊢
          simp [weight_closing h houtside, h.distinct]
        · simp [weight_of_ne hopening hclosing, hopening, hclosing]

theorem balance_cons (h : brackets.Apart isQuote) (state : Quoting) (c : Char) (rest : Text) :
    brackets.balance isQuote state (c :: rest)
      = brackets.weight (state.step isQuote c) c
        + brackets.balance isQuote (state.step isQuote c) rest := by
  rw [← List.singleton_append, balance_append, balance_singleton h]
  rfl

/-! ### The scan -/

/-- One step of the scan: it stops at a closing bracket that brings the count down to zero, and
otherwise goes on with what the character adds. -/
theorem closingFrom_cons (h : brackets.Apart Brackets.isQuote) (state : Quoting) (depth : Int)
    (offset : Nat) (c : Char) (rest : Text) :
    brackets.closingFrom state depth offset (c :: rest)
      = if c = brackets.closing ∧ (state.step Brackets.isQuote c).isOutside = true ∧ depth = 1
        then some offset
        else brackets.closingFrom (state.step Brackets.isQuote c)
          (depth + brackets.weight (state.step Brackets.isQuote c) c) (offset + 1) rest := by
  rw [closingFrom]
  cases houtside : (state.step Brackets.isQuote c).isOutside with
  | false => simp [houtside]
  | true =>
      by_cases hopening : c = brackets.opening
      · rw [hopening] at houtside ⊢
        simp [weight_opening houtside, h.distinct.symm]
      · by_cases hclosing : c = brackets.closing
        · have hlast : depth + -1 = 0 ↔ depth = 1 := by omega
          rw [hclosing] at houtside ⊢
          simp [weight_closing h houtside, h.distinct, hlast, Int.sub_eq_add_neg]
        · simp [weight_of_ne hopening hclosing, hopening, hclosing]

/-- At this place of the text stands a closing bracket outside quotes that brings the count down to
zero. -/
structure ClosesAt (brackets : Brackets) (state : Quoting) (depth : Int) (text : Text)
    (place : Nat) : Prop where
  closing : text[place]? = some brackets.closing
  outside : (Quoting.scanned Brackets.isQuote state (text.take (place + 1))).isOutside = true
  count : depth + brackets.balance Brackets.isQuote state (text.take (place + 1)) = 0

variable {state : Quoting} {depth : Int} {text rest : Text} {c : Char}

theorem closesAt_zero_iff (h : brackets.Apart Brackets.isQuote) :
    brackets.ClosesAt state depth (c :: rest) 0 ↔
      c = brackets.closing ∧ (state.step Brackets.isQuote c).isOutside = true ∧ depth = 1 := by
  constructor
  · rintro ⟨hclosing, houtside, hcount⟩
    obtain rfl : c = brackets.closing := by simpa using hclosing
    replace houtside : (state.step Brackets.isQuote brackets.closing).isOutside = true := houtside
    rw [List.take_succ_cons, List.take_zero, balance_singleton h,
      weight_closing h houtside] at hcount
    exact ⟨rfl, houtside, by omega⟩
  · rintro ⟨rfl, houtside, rfl⟩
    refine ⟨rfl, houtside, ?_⟩
    rw [List.take_succ_cons, List.take_zero, balance_singleton h, weight_closing h houtside]
    rfl

theorem closesAt_succ_iff (h : brackets.Apart Brackets.isQuote) (place : Nat) :
    brackets.ClosesAt state depth (c :: rest) (place + 1) ↔
      brackets.ClosesAt (state.step Brackets.isQuote c)
        (depth + brackets.weight (state.step Brackets.isQuote c) c) rest place := by
  have hcount : depth + brackets.balance Brackets.isQuote state ((c :: rest).take (place + 1 + 1))
      = depth + brackets.weight (state.step Brackets.isQuote c) c
        + brackets.balance Brackets.isQuote (state.step Brackets.isQuote c)
            (rest.take (place + 1)) := by
    rw [List.take_succ_cons, balance_cons h, Int.add_assoc]
  constructor
  · rintro ⟨hclosing, houtside, hzero⟩
    exact ⟨hclosing, houtside, hcount ▸ hzero⟩
  · rintro ⟨hclosing, houtside, hzero⟩
    exact ⟨hclosing, houtside, hcount ▸ hzero⟩

/-- The scan finds the first place where the count comes down to zero. -/
theorem closingFrom_eq_some_iff (h : brackets.Apart Brackets.isQuote) (offset stop : Nat) :
    brackets.closingFrom state depth offset text = some stop ↔
      ∃ place, stop = offset + place ∧ brackets.ClosesAt state depth text place ∧
        ∀ earlier < place, ¬ brackets.ClosesAt state depth text earlier := by
  induction text generalizing state depth offset with
  | nil =>
      constructor
      · intro hfound
        cases hfound
      · rintro ⟨place, -, hcloses, -⟩
        cases hcloses.closing
  | cons c rest ih =>
      rw [closingFrom_cons h]
      split
      case isTrue hzero =>
        have hfirst : brackets.ClosesAt state depth (c :: rest) 0 := (closesAt_zero_iff h).mpr hzero
        constructor
        · intro hfound
          exact ⟨0, (Option.some.inj hfound).symm, hfirst, fun earlier hlt => absurd hlt (by omega)⟩
        · rintro ⟨place, rfl, -, hearlier⟩
          cases place with
          | zero => rfl
          | succ place => exact absurd hfirst (hearlier 0 (by omega))
      case isFalse hzero =>
        have hfirst : ¬ brackets.ClosesAt state depth (c :: rest) 0 :=
          fun hcloses => hzero ((closesAt_zero_iff h).mp hcloses)
        rw [ih]
        constructor
        · rintro ⟨place, rfl, hcloses, hearlier⟩
          refine ⟨place + 1, by omega, (closesAt_succ_iff h place).mpr hcloses,
            fun earlier hlt => ?_⟩
          cases earlier with
          | zero => exact hfirst
          | succ earlier =>
              rw [closesAt_succ_iff h]
              exact hearlier earlier (by omega)
        · rintro ⟨place, rfl, hcloses, hearlier⟩
          cases place with
          | zero => exact absurd hcloses hfirst
          | succ place =>
              refine ⟨place, by omega, (closesAt_succ_iff h place).mp hcloses,
                fun earlier hlt => ?_⟩
              rw [← closesAt_succ_iff h]
              exact hearlier (earlier + 1) (by omega)

/-- The stretch of a text from one place to another, both included. -/
def stretch (text : Text) (start stop : Nat) : Text := (text.take (stop + 1)).drop start

/-- At `stop` stands a closing bracket outside quotes, and behind it as many brackets were closed as
opened since `start`, those in quotes not counted. -/
structure Closes (brackets : Brackets) (text : Text) (start stop : Nat) : Prop where
  behind : start < stop
  closing : text[stop]? = some brackets.closing
  outside : (Quoting.scanned Brackets.isQuote {} (stretch text start stop)).isOutside = true
  balanced : (Quoting.visible Brackets.isQuote {} (stretch text start stop)).count brackets.opening
    = (Quoting.visible Brackets.isQuote {} (stretch text start stop)).count brackets.closing

theorem stretch_add (text : Text) (start place : Nat) :
    stretch text start (start + place) = (text.drop start).take (place + 1) := by
  rw [stretch, List.drop_take]
  congr 1
  omega

theorem closes_iff (h : brackets.Apart Brackets.isQuote) {start : Nat}
    (hopen : text[start]? = some brackets.opening) (stop : Nat) :
    brackets.Closes text start stop ↔
      ∃ place, stop = start + place ∧ brackets.ClosesAt {} 0 (text.drop start) place := by
  constructor
  · rintro ⟨hbehind, hclosing, houtside, hbalanced⟩
    obtain ⟨place, rfl⟩ := Nat.exists_eq_add_of_lt hbehind
    rw [Nat.add_assoc, stretch_add] at houtside hbalanced
    refine ⟨place + 1, by omega, ?_, houtside, ?_⟩
    · rw [List.getElem?_drop]
      exact hclosing
    · rw [balance, hbalanced]
      omega
  · rintro ⟨place, rfl, hclosing, houtside, hcount⟩
    rw [List.getElem?_drop] at hclosing
    have hlater : place ≠ 0 := by
      rintro rfl
      exact h.distinct (Option.some.inj (hclosing.symm.trans hopen))
    refine ⟨by omega, hclosing, ?_, ?_⟩
    · rw [stretch_add]
      exact houtside
    · rw [stretch_add]
      unfold balance at hcount
      omega

/-- The opening bracket that a scan starts at looks the same whatever stands in front of it. -/
theorem closing?_eq (h : brackets.Apart Brackets.isQuote) {start : Nat}
    (hopen : text[start]? = some brackets.opening) :
    brackets.closing? text start = brackets.closingFrom {} 0 start (text.drop start) := by
  obtain ⟨hlt, hget⟩ := List.getElem?_eq_some_iff.mp hopen
  unfold closing?
  rw [List.drop_eq_getElem_cons hlt, hget]
  rw [closingFrom_opening h, closingFrom_opening h]

theorem closing?_eq_some_iff (h : brackets.Apart Brackets.isQuote) {start : Nat}
    (hopen : text[start]? = some brackets.opening) (stop : Nat) :
    brackets.closing? text start = some stop ↔
      brackets.Closes text start stop ∧ ∀ earlier < stop, ¬ brackets.Closes text start earlier := by
  rw [closing?_eq h hopen, closingFrom_eq_some_iff h]
  simp only [closes_iff h hopen]
  constructor
  · rintro ⟨place, rfl, hcloses, hearlier⟩
    refine ⟨⟨place, rfl, hcloses⟩, ?_⟩
    rintro _ hlt ⟨earlier, rfl, hbefore⟩
    exact hearlier earlier (by omega) hbefore
  · rintro ⟨⟨place, rfl, hcloses⟩, hearlier⟩
    exact ⟨place, rfl, hcloses, fun earlier hlt hbefore =>
      hearlier (start + earlier) (by omega) ⟨earlier, rfl, hbefore⟩⟩

theorem closing?_eq_none_iff (h : brackets.Apart Brackets.isQuote) {start : Nat}
    (hopen : text[start]? = some brackets.opening) :
    brackets.closing? text start = none ↔ ∀ stop, ¬ brackets.Closes text start stop := by
  rw [Option.eq_none_iff_forall_ne_some]
  constructor
  · -- The first of the places where a bracket closes would have been found.
    intro hnone
    by_contra hsome
    rw [not_forall_not] at hsome
    classical
    exact hnone _ ((closing?_eq_some_iff h hopen _).mpr
      ⟨Nat.find_spec hsome, fun earlier hlt => Nat.find_min hsome hlt⟩)
  · exact fun hnone stop hstop => hnone stop ((closing?_eq_some_iff h hopen stop).mp hstop).1

/-- **The bracket that closes the one at `start` is the first closing bracket behind it, outside
quotes, up to which as many brackets outside quotes are closed as opened; there is none if there is
no such bracket.  In particular, in front of any text and behind any text, the bracket in front of a
text whose quotes and brackets are closed is closed by the one behind it.** -/
theorem closing?_exact (h : brackets.Apart Brackets.isQuote) :
    (∀ text start, text[start]? = some brackets.opening →
      (∀ stop, brackets.closing? text start = some stop ↔
        brackets.Closes text start stop ∧ ∀ earlier < stop, ¬ brackets.Closes text start earlier) ∧
      (brackets.closing? text start = none ↔ ∀ stop, ¬ brackets.Closes text start stop)) ∧
    ∀ front body after, Nested brackets Brackets.isQuote (fun _ => false) body →
      brackets.closing? (front ++ brackets.opening :: (body ++ brackets.closing :: after))
        front.length = some (front.length + 1 + body.length) := by
  refine ⟨fun text start hopen => ⟨closing?_eq_some_iff h hopen, closing?_eq_none_iff h hopen⟩,
    fun front body after hbody => ?_⟩
  rw [closing?_eq h (by simp), List.drop_left]
  exact closingFrom_of_nested h hbody front.length after

/-- A closing bracket in quotes closes nothing, so the second text has no bracket that closes the
first one. -/
theorem closing?_exact_quoted :
    round.Apart Brackets.isQuote ∧ curly.Apart Brackets.isQuote ∧
      round.closing? "f(a')'(b)) c)".toList 1 = some 9 ∧
      ∀ stop, ¬ curly.Closes "\x7b '\x7d' ".toList 0 stop := by
  have hround : round.Apart Brackets.isQuote := apart_round ⟨rfl, rfl⟩
  have hcurly : curly.Apart Brackets.isQuote := ⟨rfl, rfl, by decide, by decide, by decide⟩
  have hgroup : Nested round Brackets.isQuote (fun _ => false) ['(', 'b', ')'] :=
    @Nested.group round _ _ ['b'] [] (.of_forall (List.forall_mem_singleton.mpr (by decide))) .nil
  have hquoted : Nested round Brackets.isQuote (fun _ => false)
      ['\x27', ')', '\x27', '(', 'b', ')'] :=
    @Nested.quoted round _ _ '\x27' [')'] _ rfl (by decide)
      (List.forall_mem_singleton.mpr (by decide)) hgroup
  have hbody : Nested round Brackets.isQuote (fun _ => false) "a')'(b)".toList :=
    @Nested.append _ _ _ ['a'] _ (.of_forall (List.forall_mem_singleton.mpr (by decide))) hquoted
  refine ⟨hround, hcurly, (closing?_exact hround).2 ['f'] _ " c)".toList hbody, ?_⟩
  exact ((closing?_exact hcurly).1 _ 0 rfl).2.mp (by decide)

end Brackets

end Diagrams
