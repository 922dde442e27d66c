/-
Two spellings of a text, one of them with more blanks.

A `Padded` text is given character by character: what the tight spelling has there, if
anything, and what the wide one has.  So a place in one spelling has a place in the other that
belongs to it, and so has every stretch.  Among blanks there are more places in the wide
spelling; `Flush` leaves those out.
-/
import Diagrams.Proofs.Pattern.Parting
import Diagrams.Proofs.Text.Leveled

namespace Diagrams

variable {σ : Type}

/-- Blanks, and the semicolon behind a statement. -/
def isFiller (c : Char) : Bool := isBlank c || c == ';'

theorem isFiller_of_isBlank {c : Char} (h : isBlank c = true) : isFiller c = true := by
  rw [isFiller, h, Bool.true_or]

/-- No filler passes the test. -/
def rejectsFillers (accepts : Char → Bool) : Bool :=
  !accepts ';' && blanks.all fun code => !accepts (Char.ofNat code)

/-- Every blank passes the test. -/
def acceptsBlanks (accepts : Char → Bool) : Bool := blanks.all fun code => accepts (Char.ofNat code)

theorem eq_false_of_rejectsFillers {accepts : Char → Bool}
    (h : rejectsFillers accepts = true) {c : Char} (hc : isFiller c = true) :
    accepts c = false := by
  obtain ⟨hend, hblanks⟩ := Bool.and_eq_true_iff.mp h
  rcases Bool.or_eq_true_iff.mp hc with hblank | hsemicolon
  · simpa using List.all_eq_true.mp hblanks c.toNat (mem_blanks hblank)
  · obtain rfl : c = ';' := by simpa using hsemicolon
    simpa using hend

theorem isBlank_eq_false_of_rejectsFillers {accepts : Char → Bool}
    (h : rejectsFillers accepts = true) {c : Char} (hc : accepts c = true) : isBlank c = false := by
  by_contra hblank
  rw [eq_false_of_rejectsFillers h (isFiller_of_isBlank (by simpa using hblank))] at hc
  exact Bool.false_ne_true hc

theorem eq_true_of_acceptsBlanks {accepts : Char → Bool}
    (h : acceptsBlanks accepts = true) {c : Char} (hc : isBlank c = true) : accepts c = true := by
  simpa using List.all_eq_true.mp h c.toNat (mem_blanks hc)

theorem isWordChar_of_isFiller {c : Char} (h : isFiller c = true) : isWordChar c = false := by
  rcases Bool.or_eq_true_iff.mp h with hblank | hsemicolon
  · exact isWordChar_of_isBlank hblank
  · obtain rfl : c = ';' := by simpa using hsemicolon
    decide

/-! ### Two spellings -/

/-- Two spellings of a text, character by character: what the tight one has there, if anything, and
what the wide one has. -/
abbrev Padded := List (Option Char × Char)

namespace Padded

/-- The tight spelling. -/
def tight (padded : Padded) : Text := padded.filterMap Prod.fst

/-- The wide spelling. -/
def wide (padded : Padded) : Text := padded.map Prod.snd

section

variable (c d : Char) (front rest : Padded)

@[simp] theorem tight_nil : tight [] = [] := rfl

@[simp] theorem wide_nil : wide [] = [] := rfl

@[simp] theorem tight_own : tight ((some c, d) :: rest) = c :: tight rest := rfl

@[simp] theorem tight_added : tight ((none, d) :: rest) = tight rest := rfl

@[simp] theorem wide_cons (own : Option Char) : wide ((own, d) :: rest) = d :: wide rest := rfl

@[simp] theorem tight_append : tight (front ++ rest) = tight front ++ tight rest :=
  List.filterMap_append

@[simp] theorem wide_append : wide (front ++ rest) = wide front ++ wide rest := List.map_append

@[simp] theorem length_wide : (wide rest).length = rest.length := List.length_map _

end

/-- The wide spelling has other blanks where the tight one has blanks, and more blanks behind them,
at the start and at the end, where it may also have a semicolon. -/
structure Sound (padded : Padded) : Prop where
  own : ∀ c d, (some c, d) ∈ padded → c = d ∨ isBlank c = true ∧ isBlank d = true
  added : ∀ front d rest, padded = front ++ (none, d) :: rest →
    (isBlank d = true ∧ (tight rest ≠ [] → ∀ c ∈ (tight front).getLast?, isBlank c = true)) ∨
      d = ';' ∧ rest = []

namespace Sound

variable {padded front rest : Padded} {c d : Char}

theorem isBlank_eq (h : Sound padded) (hmem : (some c, d) ∈ padded) : isBlank c = isBlank d := by
  rcases h.own c d hmem with rfl | ⟨hc, hd⟩
  · rfl
  · rw [hc, hd]

theorem eq_of_not_blank (h : Sound padded) (hmem : (some c, d) ∈ padded) (hc : isBlank c = false) :
    c = d := by
  rcases h.own c d hmem with rfl | ⟨hblank, -⟩
  · rfl
  · rw [hc] at hblank
    exact absurd hblank Bool.false_ne_true

/-- A test that is uniform on blanks does not tell the two spellings apart. -/
theorem accepts_eq (h : Sound padded) (hmem : (some c, d) ∈ padded) {accepts : Char → Bool}
    {answer : Bool} (haccepts : ∀ e, isBlank e = true → accepts e = answer) :
    accepts c = accepts d := by
  rcases h.own c d hmem with rfl | ⟨hc, hd⟩
  · rfl
  · rw [haccepts c hc, haccepts d hd]

theorem isFiller_of_added (h : Sound (front ++ (none, d) :: rest)) : isFiller d = true := by
  rcases h.added front d rest rfl with ⟨hblank, -⟩ | ⟨rfl, -⟩
  · exact isFiller_of_isBlank hblank
  · rfl

/-- In the middle of a text blanks are added behind blanks only. -/
theorem of_added (h : Sound (front ++ (none, d) :: rest)) (hrest : tight rest ≠ []) :
    isBlank d = true ∧ ∀ c ∈ (tight front).getLast?, isBlank c = true := by
  rcases h.added front d rest rfl with ⟨hblank, hbehind⟩ | ⟨-, rfl⟩
  · exact ⟨hblank, hbehind hrest⟩
  · exact absurd rfl hrest

/-- Any stretch of the text is spelled in two ways by itself. -/
theorem of_within (h : Sound padded) {middle : Padded} (hmiddle : middle <:+: padded) :
    Sound middle := by
  obtain ⟨before, after, rfl⟩ := hmiddle
  refine ⟨fun c d hmem => h.own c d (by simp [hmem]), fun front d rest hsplit => ?_⟩
  have hadded := h.added (before ++ front) d (rest ++ after) (by rw [hsplit]; simp)
  rcases hadded with ⟨hblank, hbehind⟩ | ⟨rfl, hnil⟩
  · refine .inl ⟨hblank, fun hrest c hc => ?_⟩
    refine hbehind (by simp [hrest]) c ?_
    rw [tight_append, List.getLast?_append, hc]
    rfl
  · exact .inr ⟨rfl, (List.append_eq_nil_iff.mp hnil).1⟩

/-- Nothing but fillers is added at the end. -/
theorem isFiller_of_tight_eq_nil (h : Sound (front ++ rest)) (hrest : tight rest = []) :
    ∀ c ∈ wide rest, isFiller c = true := by
  induction rest generalizing front with
  | nil => simp
  | cons item rest ih =>
      obtain ⟨_ | c, d⟩ := item
      · have hsound : Sound ((front ++ [(none, d)]) ++ rest) := by simpa using h
        have hall := ih hsound hrest
        exact List.forall_mem_cons.mpr ⟨h.isFiller_of_added, hall⟩
      · exact absurd hrest (List.cons_ne_nil _ _)

end Sound

end Padded

/-! ### Places that belong together -/

open Padded

/-- Two notes under one name, of a stretch in its two spellings. -/
def Padded.SameNote (padded : Padded) (note note' : σ × Stretch) : Prop :=
  note.1 = note'.1 ∧ ∃ front covered rest, padded = front ++ (covered ++ rest) ∧
    note.2.onward = tight (covered ++ rest) ∧ note'.2.onward = wide (covered ++ rest) ∧
    note.2.text = tight covered ∧ note'.2.text = wide covered

/-- Two places with the same in front of them and the same behind them, one in each spelling. -/
structure Beside (padded near far : Padded) (place place' : Place σ) : Prop where
  split : padded = near ++ far
  before : place.before = (tight near).getLast?
  before' : place'.before = (wide near).getLast?
  rest : place.rest = tight far
  rest' : place'.rest = wide far
  offset : place.offset = (tight near).length
  offset' : place'.offset = (wide near).length
  notes : List.Forall₂ padded.SameNote place.notes place'.notes

/-- Two places where neither is among blanks that the other does not have. -/
structure Flush (padded near far : Padded) (place place' : Place σ) : Prop
    extends Beside padded near far place place' where
  firm : ∀ d behind, far = (none, d) :: behind → tight behind = []
  edge : place.follows isWordChar = place'.follows isWordChar

/-- Two places that belong together somewhere in the text. -/
def Meets (padded : Padded) (place place' : Place σ) : Prop :=
  ∃ near far, Beside padded near far place place'

namespace Beside

variable {padded near far : Padded} {place place' : Place σ} {c d : Char}

theorem meets (h : Beside padded near far place place') : Meets padded place place' :=
  ⟨near, far, h⟩

/-- Where a search has come in both spellings. -/
theorem between (h : padded = near ++ far) : Beside padded near far
    (⟨(tight near).getLast?, tight far, (tight near).length, []⟩ : Place σ)
    ⟨(wide near).getLast?, wide far, (wide near).length, []⟩ :=
  ⟨h, rfl, rfl, rfl, rfl, rfl, rfl, .nil⟩

/-- The start of both spellings. -/
theorem start (padded : Padded) :
    Beside padded [] padded (.start (tight padded) : Place σ) (.start (wide padded)) := between rfl

/-- One character further on in both spellings. -/
theorem own (h : Beside padded near ((some c, d) :: far) place place') :
    Beside padded (near ++ [(some c, d)]) far (place.past [c] (tight far))
      (place'.past [d] (wide far)) where
  split := by simp [h.split]
  before := by simp
  before' := by simp
  rest := rfl
  rest' := rfl
  offset := by simp [h.offset]
  offset' := by simp [h.offset']
  notes := h.notes

/-- One character further on in the wide spelling. -/
theorem added (h : Beside padded near ((none, d) :: far) place place') :
    Beside padded (near ++ [(none, d)]) far place (place'.past [d] (wide far)) where
  split := by simp [h.split]
  before := by simp [h.before]
  before' := by simp
  rest := h.rest
  rest' := rfl
  offset := by simp [h.offset]
  offset' := by simp [h.offset']
  notes := h.notes

/-- What lies in front ends with a word on both sides, unless one of them is at the end. -/
theorem follows_eq (h : Beside padded near far place place') (hpadded : Sound padded)
    (hfar : tight far ≠ []) : place.follows isWordChar = place'.follows isWordChar := by
  unfold Place.follows
  rw [h.before, h.before']
  rcases List.eq_nil_or_concat near with rfl | ⟨before, ⟨_ | c, d⟩, rfl⟩
  · rfl
  · rw [List.concat_eq_append] at h ⊢
    have hsound : Sound (before ++ (none, d) :: far) := by simpa [h.split] using hpadded
    obtain ⟨hd, hbefore⟩ := hsound.of_added hfar
    have hblank : (tight before).getLast?.any isWordChar = false := by
      rw [Option.any_eq_false]
      exact fun e he => by simpa using isWordChar_of_isBlank (hbefore e he)
    simp [hblank, isWordChar_of_isBlank hd]
  · rw [List.concat_eq_append] at h ⊢
    have hmem : (some c, d) ∈ padded := by simp [h.split]
    simp [hpadded.accepts_eq hmem fun _ => isWordChar_of_isBlank]

/-- Where a character of both spellings comes next, the places are flush. -/
theorem flush (h : Beside padded near ((some c, d) :: far) place place') (hpadded : Sound padded) :
    Flush padded near ((some c, d) :: far) place place' where
  toBeside := h
  firm := by simp
  edge := h.follows_eq hpadded (List.cons_ne_nil _ _)

/-- Where the tight spelling ends, the wide one has only fillers left. -/
theorem isFiller_of_rest (h : Beside padded near far place place') (hpadded : Sound padded)
    (hfar : tight far = []) : ∀ c ∈ place'.rest, isFiller c = true := by
  have hsound : Sound (near ++ far) := h.split ▸ hpadded
  rw [h.rest']
  exact hsound.isFiller_of_tight_eq_nil hfar

/-- Noting a stretch on both sides. -/
theorem note {near' far' : Padded} {start start' : Place σ} (slot : σ)
    (hstart : Beside padded near' far' start start') (h : Beside padded near far place place') :
    Beside padded near far (.note slot start place) (.note slot start' place') := by
  refine { h with notes := .cons ⟨rfl, ?_⟩ h.notes }
  have hsplit : near' ++ far' = near ++ far := hstart.split.symm.trans h.split
  have htext : ∀ (onward : Text) (length : Nat),
      (Stretch.mk onward length).text = onward.take length :=
    fun _ _ => rfl
  rcases List.append_eq_append_iff.mp hsplit with ⟨covered, rfl, rfl⟩ | ⟨covered, rfl, rfl⟩
  · refine ⟨near', covered, far, hstart.split, hstart.rest, hstart.rest', ?_, ?_⟩
    · rw [htext, hstart.rest, h.offset, hstart.offset]
      simp
    · rw [htext, hstart.rest', h.offset', hstart.offset', wide_append, wide_append,
        List.length_append, Nat.add_sub_cancel_left, List.take_left]
  · refine ⟨near ++ covered, [], far', by simpa using hstart.split, hstart.rest,
      hstart.rest', ?_, ?_⟩
    · rw [htext, h.offset, hstart.offset]
      simp
    · rw [htext, h.offset', hstart.offset']
      simp

end Beside

namespace Flush

variable {padded near far : Padded} {place place' : Place σ}

theorem note {near' far' : Padded} {start start' : Place σ} (slot : σ)
    (hstart : Beside padded near' far' start start') (h : Flush padded near far place place') :
    Flush padded near far (.note slot start place) (.note slot start' place') :=
  { hstart.note slot h.toBeside with firm := h.firm, edge := h.edge }

/-- Behind a character that is no blank the places are flush again. -/
theorem own {c d : Char} (h : Flush padded near ((some c, d) :: far) place place')
    (hpadded : Sound padded) (hc : isBlank c = false) :
    Flush padded (near ++ [(some c, d)]) far (place.past [c] (tight far))
      (place'.past [d] (wide far)) where
  toBeside := h.toBeside.own
  firm := by
    rintro e behind rfl
    by_contra hbehind
    have hsound : Sound ((near ++ [(some c, d)]) ++ (none, e) :: behind) := by
      simpa [h.split] using hpadded
    have hblank := (hsound.of_added hbehind).2 c (by simp)
    rw [hc] at hblank
    exact Bool.false_ne_true hblank
  edge := by
    have hmem : (some c, d) ∈ padded := by simp [h.split]
    rw [hpadded.eq_of_not_blank hmem hc]
    simp [Place.follows]

/-- What comes next on flush places: nothing or what was added at the end, or the same character, or
one blank on each side. -/
theorem next_cases (h : Flush padded near far place place') (hpadded : Sound padded) :
    (tight far = [] ∧ place.rest = [] ∧ ∀ c ∈ place'.rest, isFiller c = true) ∨
      ∃ c d behind, far = (some c, d) :: behind ∧ (some c, d) ∈ padded ∧
        place.rest = c :: tight behind ∧ place'.rest = d :: wide behind := by
  by_cases hfar : tight far = []
  · exact .inl ⟨hfar, h.rest.trans hfar, h.isFiller_of_rest hpadded hfar⟩
  · right
    rcases far with _ | ⟨⟨_ | c, d⟩, behind⟩
    · exact absurd rfl hfar
    · exact absurd (h.firm d behind rfl) hfar
    · exact ⟨c, d, behind, rfl, by simp [h.split], h.rest, h.rest'⟩

theorem atWordEdge_eq (h : Flush padded near far place place') (hpadded : Sound padded) :
    place.atWordEdge = place'.atWordEdge := by
  have hprecedes : place.precedes isWordChar = place'.precedes isWordChar := by
    unfold Place.precedes
    rcases h.next_cases hpadded with ⟨-, hrest, hrest'⟩ | ⟨c, d, behind, -, hmem, hrest, hrest'⟩
    · rw [hrest, List.head?_nil, Option.any_none, eq_comm, Option.any_eq_false]
      exact fun c hc => by simpa using isWordChar_of_isFiller (hrest' c (List.mem_of_mem_head? hc))
    · simp [hrest, hrest', hpadded.accepts_eq hmem fun _ => isWordChar_of_isBlank]
  rw [Place.atWordEdge, Place.atWordEdge, h.edge, hprecedes]

end Flush

end Diagrams
