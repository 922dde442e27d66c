/-
Texts that are spelled with other blanks.

Some blanks of a text tell nothing apart: those at its ends, those next to another blank, and those
next to characters that stand close to whatever is there.  Two texts that differ in such blanks only
are `Respelled`.  Writing a text with blanks only where they are needed is a scan from the left that
remembers the last character and whether a blank has come since (`respaced_eq_spacedFrom`).  It
leads to a respelling of the text (`respelled_respaced`) and to the same one from all its
respellings (`Loosens.respaced_eq`), so the result is a normal form.
-/
import Mathlib.Logic.Relation
import Diagrams.Proofs.Text.Cutting

namespace Diagrams.Text

/-! ### Other spellings -/

/-- Blanks are put into a text where they tell nothing apart: at one of its ends, next to a blank,
right after a character that passes the first test or right before one that passes the second. -/
inductive Loosens (after before : Char → Bool) : Text → Text → Prop
  | blanks {front blanks back : Text} (blank : ∀ c ∈ blanks, isBlank c = true)
      (idle : (∀ a ∈ front.getLast?, (isBlank a || after a) = true) ∨
        ∀ b ∈ back.head?, (isBlank b || before b) = true) :
      Loosens after before (front ++ back) (front ++ (blanks ++ back))

/-- Texts that come from each other by putting in and taking out blanks that tell nothing apart. -/
def Respelled (after before : Char → Bool) : Text → Text → Prop :=
  Relation.EqvGen (Loosens after before)

variable {after before : Char → Bool} {text other third : Text}

namespace Respelled

theorem refl (text : Text) : Respelled after before text text :=
  Relation.EqvGen.refl text

theorem symm (h : Respelled after before text other) : Respelled after before other text :=
  Relation.EqvGen.symm _ _ h

theorem trans (h : Respelled after before text other) (h' : Respelled after before other third) :
    Respelled after before text third := Relation.EqvGen.trans _ _ _ h h'

/-- What no blank that tells nothing apart changes is the same for all spellings. -/
theorem value_eq {α : Type} {value : Text → α}
    (hvalue : ∀ text loose, Loosens after before text loose → value text = value loose)
    (h : Respelled after before text other) : value text = value other := by
  induction h with
  | rel text loose step => exact hvalue text loose step
  | refl => rfl
  | symm _ _ _ ih => exact ih.symm
  | trans _ _ _ _ _ ih ih' => exact ih.trans ih'

/-- One blank right after a character that passes the first test. -/
theorem behind {front : Text} {a b : Char} (hb : isBlank b = true)
    (ha : (isBlank a || after a) = true) (back : Text) :
    Respelled after before (front ++ a :: back) (front ++ a :: b :: back) := by
  have hidle : ∀ c ∈ (front ++ [a]).getLast?, (isBlank c || after c) = true := by simpa using ha
  have hstep : Loosens after before ((front ++ [a]) ++ back) ((front ++ [a]) ++ ([b] ++ back)) :=
    .blanks (List.forall_mem_singleton.mpr hb) (.inl hidle)
  rw [List.append_assoc, List.append_assoc] at hstep
  exact Relation.EqvGen.rel _ _ hstep

/-- One blank in front of a text that starts with a blank or with a character that passes the second
test. -/
theorem inFront (front : Text) {back : Text} {b : Char} (hb : isBlank b = true)
    (hback : ∀ c ∈ back.head?, (isBlank c || before c) = true) :
    Respelled after before (front ++ back) (front ++ b :: back) :=
  .rel _ _ (.blanks (List.forall_mem_singleton.mpr hb) (.inr hback))

/-- The characters that are no blanks are the same in all spellings. -/
theorem filter_eq (h : Respelled after before text other) :
    text.filter (!isBlank ·) = other.filter (!isBlank ·) := by
  refine h.value_eq fun text loose hloose => ?_
  obtain ⟨hblank, -⟩ := hloose
  rename_i front blanks back
  have hnone : blanks.filter (!isBlank ·) = [] := by
    rw [List.filter_eq_nil_iff]
    intro c hc
    simp [hblank c hc]
  rw [List.filter_append, List.filter_append, List.filter_append, hnone, List.nil_append]

end Respelled

/-! ### Spaces as they are needed -/

/-- What a scan remembers of the text behind it. -/
structure Spacing where
  /-- The last character that was no blank. -/
  last : Option Char := none
  /-- Whether a blank has come since. -/
  gap : Bool := false

namespace Spacing

/-- What is remembered after one more character. -/
def step (spacing : Spacing) (c : Char) : Spacing :=
  if isBlank c then { spacing with gap := true } else { last := some c }

/-- Whether a space is needed in front of a character. -/
def needsSpace (close : Char → Char → Bool) (spacing : Spacing) (c : Char) : Bool :=
  spacing.gap && spacing.last.any fun a => !close a c

/-- What is written for a character. -/
def written (close : Char → Char → Bool) (spacing : Spacing) (c : Char) : Text :=
  if isBlank c then [] else if spacing.needsSpace close c then [' ', c] else [c]

end Spacing

/-- A text with spaces as they are needed, behind what the scan remembers. -/
def spacedFrom (close : Char → Char → Bool) : Spacing → Text → Text
  | _, [] => []
  | spacing, c :: rest => spacing.written close c ++ spacedFrom close (spacing.step c) rest

section

variable {close : Char → Char → Bool} {spacing : Spacing}

theorem spacedFrom_append (spacing : Spacing) (front back : Text) :
    spacedFrom close spacing (front ++ back)
      = spacedFrom close spacing front ++
        spacedFrom close (front.foldl Spacing.step spacing) back := by
  induction front generalizing spacing with
  | nil => rfl
  | cons c front ih =>
      rw [List.cons_append, spacedFrom, ih, spacedFrom, List.append_assoc, List.foldl_cons]

/-- The space between the last character and the words that follow it. -/
def spaceBetween (close : Char → Char → Bool) : Option Char → List Text → Text
  | some a, (c :: _) :: _ => if close a c then [] else [' ']
  | _, _ => []

theorem respaceWords_cons {word : Text} {others : List Text} (hword : word ≠ [])
    (hothers : ∀ other ∈ others, other ≠ []) : respaceWords close (word :: others)
      = word ++ (spaceBetween close word.getLast? others ++ respaceWords close others) := by
  obtain ⟨front, a, rfl⟩ := (List.eq_nil_or_concat' word).resolve_left hword
  cases others with
  | nil => simp [respaceWords, spaceBetween]
  | cons next others =>
      obtain ⟨c, next, rfl⟩ := List.exists_cons_of_ne_nil (hothers _ List.mem_cons_self)
      cases hclose : close a c <;> simp [respaceWords, spaceBetween, hclose]

theorem ne_nil_of_mem_words {word : Text} (h : word ∈ text.words) : word ≠ [] := by
  simpa using (List.mem_filter.mp h).2

/-- A word at the front of a text is its first one. -/
theorem words_append_of_word {word rest : Text} (hne : word ≠ [])
    (hword : ∀ c ∈ word, isBlank c = false) (hrest : ∀ c ∈ rest.head?, isBlank c = true) :
    (word ++ rest).words = word :: rest.words := by
  cases rest with
  | nil => rw [List.append_nil, words_of_forall hne hword, words_nil]
  | cons c rest =>
      have hc := hrest c rfl
      have hbehind : words (c :: rest) = words rest :=
        words_append_of_blank (List.forall_mem_singleton.mpr hc)
      rw [words_append_cons hc, words_of_forall hne hword, hbehind, List.singleton_append]

/-- The scan puts a space in front of the first word if a blank is there and the neighbours are not
close, and goes on as the words do. -/
theorem spacedFrom_eq_words (spacing : Spacing) (text : Text) : spacedFrom close spacing text
    = (if spacing.gap || text.head?.any isBlank then spaceBetween close spacing.last
      text.words else [])
        ++ respaceWords close text.words := by
  induction text generalizing spacing with
  | nil => cases hlast : spacing.last <;> simp [spacedFrom, spaceBetween, respaceWords]
  | cons c text ih =>
      cases hc : isBlank c with
      | true =>
          have hwords : words (c :: text) = words text :=
            words_append_of_blank (List.forall_mem_singleton.mpr hc)
          simp [spacedFrom, Spacing.written, Spacing.step, hc, ih, hwords]
      | false =>
          obtain ⟨word, more, rfl, hword, hmore⟩ := exists_word_split text
          have hsolid : ∀ d ∈ c :: word, isBlank d = false := List.forall_mem_cons.mpr ⟨hc, hword⟩
          have hwords : words (c :: (word ++ more)) = (c :: word) :: more.words :=
            words_append_of_word (List.cons_ne_nil c word) hsolid hmore
          have hothers : ∀ other ∈ more.words, other ≠ [] := fun other => ne_nil_of_mem_words
          have hrest : spacedFrom close { last := some c } (word ++ more)
              = word ++ (spaceBetween close (List.getLast? (c :: word)) more.words
                  ++ respaceWords close more.words) := by
            rw [ih]
            cases word with
            | nil =>
                cases more with
                | nil => simp [spaceBetween, respaceWords]
                | cons b more => simp [hmore b rfl]
            | cons d word =>
                rw [words_append_of_word (List.cons_ne_nil d word) hword hmore,
                  respaceWords_cons (List.cons_ne_nil d word) hothers, List.getLast?_cons_cons]
                simp [hword d List.mem_cons_self]
          have hspace : spacing.written close c
              = (if spacing.gap then spaceBetween close spacing.last
                ((c :: word) :: more.words) else []) ++ [c] := by
            obtain ⟨last, gap⟩ := spacing
            cases gap with
            | false => simp [Spacing.written, Spacing.needsSpace, hc]
            | true =>
                cases last with
                | none => simp [Spacing.written, Spacing.needsSpace, spaceBetween, hc]
                | some a => cases hclose : close a c <;>
                    simp [Spacing.written, Spacing.needsSpace, spaceBetween, hc, hclose]
          rw [spacedFrom, hwords, respaceWords_cons (List.cons_ne_nil c word) hothers, hspace]
          simp [Spacing.step, hc, hrest]

/-- Writing a text with blanks only where they are needed is such a scan. -/
theorem respaced_eq_spacedFrom (text : Text) : respaced close text = spacedFrom close {} text := by
  rw [spacedFrom_eq_words, respaced]
  simp [spaceBetween]

/-! ### Spaces that are left -/

/-- A blank that is left is a space between two characters that are not close. -/
theorem space_of_spacedFrom {front back : Text} {c : Char}
    (hlast : ∀ a ∈ spacing.last, isBlank a = false)
    (h : spacedFrom close spacing text = front ++ c :: back) (hc : isBlank c = true) :
    c = ' ' ∧ ∃ a ∈ front.getLast?.or spacing.last, ∃ b ∈ back.head?,
      isBlank a = false ∧ isBlank b = false ∧ close a b = false := by
  induction text generalizing spacing front with
  | nil => exact absurd h (by simp [spacedFrom])
  | cons d text ih =>
      cases hd : isBlank d with
      | true =>
          have hrest : spacedFrom close { spacing with gap := true } text = front ++ c :: back := by
            simpa [spacedFrom, Spacing.written, Spacing.step, hd] using h
          exact @ih { spacing with gap := true } _ hlast hrest
      | false =>
          have hne : d ≠ c := by
            rintro rfl
            exact absurd hc (by simp [hd])
          have hbehind : ∀ {front : Text} {before : Option Char},
              d :: spacedFrom close { last := some d } text = front ++ c :: back →
              c = ' ' ∧ ∃ a ∈ front.getLast?.or before, ∃ b ∈ back.head?,
                isBlank a = false ∧ isBlank b = false ∧ close a b = false := by
            intro front before hfront
            cases front with
            | nil => exact absurd (List.cons.inj hfront).1 hne
            | cons e front =>
                obtain ⟨rfl, hrest⟩ := List.cons.inj hfront
                rw [getLast?_cons_or]
                exact ih (by simpa using hd) hrest
          cases hspace : spacing.needsSpace close d with
          | false =>
              exact hbehind
                (by simpa [spacedFrom, Spacing.written, Spacing.step, hd, hspace] using h)
          | true =>
              have hfront : ' ' :: d :: spacedFrom close { last := some d } text
                  = front ++ c :: back := by
                simpa [spacedFrom, Spacing.written, Spacing.step, hd, hspace] using h
              cases front with
              | nil =>
                  obtain ⟨rfl, rfl⟩ := List.cons.inj hfront
                  obtain ⟨a, ha, hclose⟩ : ∃ a, spacing.last = some a ∧ close a d = false := by
                    simpa [Option.any_eq_true] using (Bool.and_eq_true_iff.mp hspace).2
                  exact ⟨rfl, a, by simpa using ha, d, rfl, hlast a ha, hd, hclose⟩
              | cons e front =>
                  rw [getLast?_cons_or]
                  exact hbehind (List.cons.inj hfront).2

/-- What is left of the blanks of a text are spaces between characters that are not close. -/
theorem space_of_respaced {front back : Text} {c : Char}
    (h : respaced close text = front ++ c :: back) (hc : isBlank c = true) :
    c = ' ' ∧ ∃ a ∈ front.getLast?, ∃ b ∈ back.head?,
      isBlank a = false ∧ isBlank b = false ∧ close a b = false := by
  rw [respaced_eq_spacedFrom] at h
  simpa using space_of_spacedFrom (by simp) h hc

/-! ### Blanks that tell nothing apart -/

theorem spacedFrom_blanks_append {blanks back : Text} (hblanks : ∀ b ∈ blanks, isBlank b = true)
    (h : spacing.gap = true ∨
      ∀ b ∈ back.head?, isBlank b = true ∨ ∀ a ∈ spacing.last, close a b = true) :
    spacedFrom close spacing (blanks ++ back) = spacedFrom close spacing back := by
  have hgap : spacedFrom close { spacing with gap := true } back
      = spacedFrom close spacing back := by
    rcases h with hgap | hback
    · rw [← hgap]
    · cases back with
      | nil => rfl
      | cons b back =>
          cases hb : isBlank b with
          | true => simp [spacedFrom, Spacing.written, Spacing.step, hb]
          | false =>
              have hclose := (hback b rfl).resolve_left (by simp [hb])
              have hnone : spacing.last.any (fun a => !close a b) = false := by
                simpa [Option.any_eq_false] using hclose
              simp [spacedFrom, Spacing.written, Spacing.step, Spacing.needsSpace, hb, hnone]
  cases blanks with
  | nil => rfl
  | cons b blanks =>
      obtain ⟨hb, hblanks⟩ := List.forall_mem_cons.mp hblanks
      have hrest : ∀ {blanks : Text}, (∀ b ∈ blanks, isBlank b = true) →
          spacedFrom close { spacing with gap := true } (blanks ++ back)
            = spacedFrom close { spacing with gap := true } back := by
        intro blanks hblanks
        induction blanks with
        | nil => rfl
        | cons b blanks ih =>
            obtain ⟨hb, hblanks⟩ := List.forall_mem_cons.mp hblanks
            simpa [spacedFrom, Spacing.written, Spacing.step, hb] using ih hblanks
      rw [← hgap, ← hrest hblanks]
      simp [spacedFrom, Spacing.written, Spacing.step, hb]

end

/-! ### The normal form -/

/-- Characters stand close if the first test holds of the left one or the second of the right
one. -/
def closeBy (after before : Char → Bool) (left right : Char) : Bool := after left || before right

theorem Loosens.respaced_eq {loose : Text} (h : Loosens after before text loose) :
    respaced (closeBy after before) text = respaced (closeBy after before) loose := by
  obtain ⟨hblank, hidle⟩ := h
  rename_i front blanks back
  rw [respaced_eq_spacedFrom, respaced_eq_spacedFrom, spacedFrom_append, spacedFrom_append,
    spacedFrom_blanks_append hblank]
  rcases hidle with hfront | hback
  · rcases List.eq_nil_or_concat' front with rfl | ⟨front, a, rfl⟩
    · exact .inr fun b _ => .inr fun a ha => absurd ha (by simp)
    · have ha : (isBlank a || after a) = true := hfront a (by simp)
      rw [List.foldl_append, List.foldl_cons, List.foldl_nil]
      cases hblank : isBlank a with
      | true => exact .inl (by simp [Spacing.step, hblank])
      | false =>
          have hafter : after a = true := by simpa [hblank] using ha
          refine .inr fun b _ => .inr fun last hlast => ?_
          obtain rfl : a = last := by simpa [Spacing.step, hblank] using hlast
          simp [closeBy, hafter]
  · refine .inr fun b hb => ?_
    rcases Bool.or_eq_true_iff.mp (hback b hb) with hblank | hbefore
    · exact .inl hblank
    · exact .inr fun a _ => by simp [closeBy, hbefore]

/-- A space that the scan would not write in front of a character respells the text. -/
theorem respelled_space_of_close {spacing : Spacing} {front : Text} {c : Char}
    (hlast : front.getLast? = spacing.last) (hgap : spacing.gap = true)
    (hneeds : spacing.needsSpace (closeBy after before) c = false) (text : Text) :
    Respelled after before (front ++ c :: text) (front ++ ' ' :: c :: text) := by
  have hspace : isBlank ' ' = true := by decide
  rcases List.eq_nil_or_concat' front with rfl | ⟨near, a, rfl⟩
  · have hstart : Loosens after before ([] ++ c :: text) ([] ++ ([' '] ++ c :: text)) :=
      .blanks (List.forall_mem_singleton.mpr hspace) (.inl (by simp))
    exact .rel _ _ hstart
  · have hclose : closeBy after before a c = true := by
      simpa [Spacing.needsSpace, hgap, ← hlast] using hneeds
    rcases Bool.or_eq_true_iff.mp hclose with hafter | hbefore
    · simpa using @Respelled.behind after before near a ' ' hspace (by simp [hafter]) (c :: text)
    · exact .inFront _ hspace (by simp [hbefore])

/-- Behind a text that ends with what the scan remembers, the rest may be written as the scan writes
it. -/
theorem respelled_spacedFrom {spacing : Spacing} {front : Text}
    (hlast : front.getLast? = spacing.last) (text : Text) :
    Respelled after before (front ++ ((if spacing.gap then [' '] else []) ++ text))
      (front ++ spacedFrom (closeBy after before) spacing text) := by
  have hspace : isBlank ' ' = true := by decide
  induction text generalizing spacing front with
  | nil =>
      cases hgap : spacing.gap with
      | false => exact .refl _
      | true =>
          have hend : Respelled after before (front ++ []) (front ++ ' ' :: []) :=
            .inFront front hspace (by simp)
          exact hend.symm
  | cons c text ih =>
      cases hc : isBlank c with
      | true =>
          have hnext : Respelled after before (front ++ ' ' :: text)
              (front ++ spacedFrom (closeBy after before) spacing (c :: text)) := by
            simpa [spacedFrom, Spacing.written, Spacing.step, hc] using
              @ih { spacing with gap := true } front hlast
          refine Respelled.trans ?_ hnext
          have hboth : Respelled after before (front ++ ' ' :: text) (front ++ ' ' :: c :: text) :=
            .behind hc (by simp [hspace]) text
          cases hgap : spacing.gap with
          | true => simpa using hboth.symm
          | false =>
              have hone : Respelled after before (front ++ c :: text) (front ++ ' ' :: c :: text) :=
                .inFront front hspace (by simp [hc])
              simpa using hone.trans hboth.symm
      | false =>
          have hnext : ∀ near : Text, Respelled after before (near ++ c :: text)
              (near ++ c :: spacedFrom (closeBy after before) { last := some c } text) := by
            intro near
            simpa using @ih { last := some c } (near ++ [c]) (by simp)
          cases hgap : spacing.gap with
          | false =>
              simpa [spacedFrom, Spacing.written, Spacing.step, Spacing.needsSpace, hc, hgap] using
                hnext front
          | true =>
              cases hneeds : spacing.needsSpace (closeBy after before) c with
              | true =>
                  simpa [spacedFrom, Spacing.written, Spacing.step, hc, hneeds] using
                    hnext (front ++ [' '])
              | false =>
                  have hidle : Respelled after before (front ++ c :: text)
                      (front ++ ' ' :: c :: text) :=
                    respelled_space_of_close hlast hgap hneeds text
                  have hwritten := hnext front
                  simpa [spacedFrom, Spacing.written, Spacing.step, hc, hneeds] using
                    hidle.symm.trans hwritten

/-- Writing a text with blanks only where they are needed respells it. -/
theorem respelled_respaced (text : Text) :
    Respelled after before text (respaced (closeBy after before) text) := by
  rw [respaced_eq_spacedFrom]
  exact @respelled_spacedFrom after before {} [] rfl text

/-- A way to write texts is a normal form for their spellings: it keeps all but the blanks, changes
nothing when it is used again, and is the same for two texts just if they are respelled. -/
structure IsNormalForm (after before : Char → Bool) (normal : Text → Text) : Prop where
  /-- No other characters than blanks come or go. -/
  filter_eq : ∀ text, (normal text).filter (!isBlank ·) = text.filter (!isBlank ·)
  /-- A normal form is its own normal form. -/
  idempotent : ∀ text, normal (normal text) = normal text
  /-- Two texts have one normal form just if they are respelled. -/
  eq_iff : ∀ text other, normal text = normal other ↔ Respelled after before text other

/-- A respelling that is the same for all respellings is a normal form. -/
theorem IsNormalForm.of_respelled {normal : Text → Text}
    (hrespelled : ∀ text, Respelled after before text (normal text))
    (hloosens : ∀ text loose, Loosens after before text loose → normal text = normal loose) :
    IsNormalForm after before normal where
  filter_eq text := (hrespelled text).filter_eq.symm
  idempotent text := ((hrespelled text).value_eq hloosens).symm
  eq_iff text other := by
    refine ⟨fun h => ?_, fun h => h.value_eq hloosens⟩
    have hback : Respelled after before (normal text) other := h ▸ (hrespelled other).symm
    exact (hrespelled text).trans hback

end Diagrams.Text
