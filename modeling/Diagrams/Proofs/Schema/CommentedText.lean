/-
A statement with line comments, spelled without them and with a line feed for each of them.

The line feed of a comment that stands behind a blank is a blank more.  If the comment stands in
front of a blank and behind something else, its line feed takes the place of this blank, and the
blank itself is the one that is added.  So the two spellings make up a padded text.
-/
import Diagrams.Proofs.Schema.LineComments
import Diagrams.Proofs.Schema.PaddedChange

namespace Diagrams

open Padded Schema

namespace Schema.Commented

/-! ### Scripts whose comments do no harm -/

/-- Line comments in a script that has neither quotes nor marks of comments.  They stand where the
script begins or ends or has a blank. -/
structure Inserted (script : Commented) : Prop where
  unquoted : Unquoted (plain script)
  line : ¬ ['-', '-'] <:+: plain script
  opening : ¬ ['/', '*'] <:+: plain script
  closing : ¬ ['*', '/'] <:+: plain script
  text : ∀ text, .comment text ∈ script → '\n' ∉ text ∧ ';' ∉ text
  /-- A comment behind a hyphen would begin with it. -/
  placed : ∀ front text rest, script = front ++ .comment text :: rest →
    (∀ c ∈ (plain front).getLast?, isBlank c = true) ∨
      (∀ c ∈ (plain rest).head?, isBlank c = true) ∧ (plain front).getLast? ≠ some '-'

/-- Line comments that do not hold the start of a block comment that ends in another one of the same
statement, and do not stand behind a bracket in an item of a list of key columns. -/
structure Harmless (script : Commented) : Prop extends Inserted script where
  blocks : ∀ front text between text' rest,
    script = front ++ .comment text :: (between ++ .comment text' :: rest) → ';' ∉ plain between →
      ['/', '*'] <:+: dropBlockComments false text → ¬ ['*', '/'] <:+: text'
  arguments : ∀ front text rest, script = front ++ .comment text :: rest →
    ¬ (EndsInArguments (plain front) ∧ itemGoesOn (plain rest) = true)

/-- What holds of every comment and of what stands around it can be told from the pieces one by
one. -/
theorem forall_places {script : Commented} (P : Text → Text → Text → Prop)
    (h : ∀ n < script.length, ∀ text ∈ script[n]?.bind Piece.text?,
      P (plain (script.take n)) text (plain (script.drop (n + 1)))) :
    ∀ front text rest, script = front ++ .comment text :: rest → P (plain front) text
      (plain rest) := by
  rintro front text rest hsplit
  have hplace := h front.length (by simp [hsplit]) text (by simp [hsplit, Piece.text?])
  rwa [hsplit, List.take_left, List.drop_length_add_append] at hplace

theorem Inserted.of_forall_places {script : Commented}
    (hplain : Unquoted (plain script) ∧ ¬ ['-', '-'] <:+: plain script ∧
      ¬ ['/', '*'] <:+: plain script ∧ ¬ ['*', '/'] <:+: plain script)
    (hplaces : ∀ n < script.length, ∀ text ∈ script[n]?.bind Piece.text?,
      ('\n' ∉ text ∧ ';' ∉ text) ∧
      ((plain (script.take n)).getLast?.all isBlank = true ∨
        (plain (script.drop (n + 1))).head?.all isBlank = true ∧
          (plain (script.take n)).getLast? ≠ some '-')) :
    Inserted script := by
  obtain ⟨hquotes, hline, hopening, hclosing⟩ := hplain
  have hcomment := forall_places (fun front text rest => ('\n' ∉ text ∧ ';' ∉ text) ∧
    (front.getLast?.all isBlank = true ∨
      rest.head?.all isBlank = true ∧ front.getLast? ≠ some '-')) hplaces
  refine ⟨hquotes, hline, hopening, hclosing, fun text hmem => ?_, fun front text rest hsplit => ?_⟩
  · obtain ⟨front, rest, hsplit⟩ := List.append_of_mem hmem
    exact (hcomment front text rest hsplit).1
  · simpa only [Option.all_eq_true, Option.mem_def] using (hcomment front text rest hsplit).2

/-- Line comments none of which holds the start of a block comment. -/
theorem Harmless.of_forall_places {script : Commented} (h : Inserted script)
    (hblocks : ∀ n < script.length, ∀ text ∈ script[n]?.bind Piece.text?,
      ¬ ['/', '*'] <:+: dropBlockComments false text)
    (harguments : ∀ n < script.length, ∀ text ∈ script[n]?.bind Piece.text?,
      ¬ (EndsInArguments (plain (script.take n)) ∧
        itemGoesOn (plain (script.drop (n + 1))) = true)) :
    Harmless script where
  toInserted := h
  blocks _ _ _ _ _ hsplit _ hopening :=
    absurd hopening (forall_places (fun _ text _ => ¬ ['/', '*'] <:+: dropBlockComments false text)
      hblocks _ _ _ hsplit)
  arguments :=
    forall_places (fun front _ rest =>
      ¬ (EndsInArguments front ∧ itemGoesOn rest = true)) harguments

theorem Harmless.of_within {script stretch : Commented} (h : Harmless script)
    (hstretch : stretch <:+: script) :
    Harmless stretch := by
  obtain ⟨before, after, rfl⟩ := hstretch
  have hplain : plain stretch <:+: plain (before ++ stretch ++ after) :=
    ⟨plain before, plain after, by simp⟩
  have hsplit : ∀ {front text rest}, stretch = front ++ .comment text :: rest →
      before ++ stretch ++ after = (before ++ front) ++ .comment text :: (rest ++ after) := by
    rintro front text rest rfl
    simp
  refine ⟨⟨fun c hc => h.unquoted c (hplain.subset hc), fun hmark => h.line (hmark.trans hplain),
    fun hmark => h.opening (hmark.trans hplain), fun hmark => h.closing (hmark.trans hplain),
    fun text hmem => h.text text (by simp [hmem]), fun front text rest hstretch => ?_⟩,
    fun front text between text' rest hstretch => ?_, fun front text rest hstretch => ?_⟩
  · have hlast : ∀ c ∈ (plain front).getLast?, c ∈ (plain (before ++ front)).getLast? :=
      fun c hc => by
        rw [plain_append, List.getLast?_append, Option.mem_def.mp hc]
        rfl
    have hfirst : ∀ c ∈ (plain rest).head?, c ∈ (plain (rest ++ after)).head? := fun c hc => by
      rw [plain_append, List.head?_append, Option.mem_def.mp hc]
      rfl
    exact (h.placed _ text _ (hsplit hstretch)).imp (fun hblank c hc => hblank c (hlast c hc))
      (And.imp (fun hblank c hc => hblank c (hfirst c hc)) fun hne hminus => hne (hlast '-' hminus))
  · exact h.blocks (before ++ front) text between text' (rest ++ after) (by simp [hstretch])
  · rintro ⟨hends, hgoes⟩
    refine h.arguments _ text _ (hsplit hstretch) ⟨?_, ?_⟩
    · rw [plain_append]
      exact hends.append_left (plain before)
    · rw [plain_append]
      exact itemGoesOn_append hgoes (plain after)

/-- What a script begins with when it is written. -/
theorem head?_written {script : Commented} {c : Char} (h : (written script).head? = some c) :
    (∃ rest, script = .own c :: rest) ∨ c = '-' ∧ ∃ text rest, script = .comment text :: rest := by
  rcases script with _ | ⟨d | text, rest⟩
  · cases h
  · obtain rfl : d = c := Option.some.inj h
    exact .inl ⟨rest, rfl⟩
  · rw [written_comment] at h
    exact .inr ⟨(Option.some.inj h).symm, text, rest, rfl⟩

/-- The comments of a statement can be removed. -/
theorem Harmless.removable {script : Commented} (h : Harmless script) (hbody : ';' ∉ plain script) :
    Removable script := by
  induction script with
  | nil => trivial
  | cons piece rest ih =>
      have hsuffix := List.suffix_cons piece rest
      have hend : ';' ∉ plain rest := fun hmem => hbody ((hsuffix.filterMap _).subset hmem)
      have hremovable := ih (h.of_within hsuffix.isInfix) hend
      cases piece with
      | own c =>
          refine ⟨?_, ?_, hremovable⟩
          · rintro rfl hfirst
            rcases head?_written hfirst with ⟨after, rfl⟩ | ⟨hminus, -⟩
            · exact h.opening ⟨[], plain after, rfl⟩
            · exact absurd hminus (by decide)
          · rintro rfl hfirst
            rcases head?_written hfirst with ⟨after, rfl⟩ | ⟨-, text, after, rfl⟩
            · exact h.line ⟨[], plain after, rfl⟩
            · rcases h.placed [.own '-'] text after rfl with hblank | ⟨-, hne⟩
              · exact absurd (hblank '-' rfl) (by decide)
              · exact hne rfl
      | comment text =>
          refine ⟨(h.text text List.mem_cons_self).1, fun hopening hclosing => ?_, hremovable⟩
          rcases closing_written hclosing with hplain | ⟨text', hmem, htext'⟩
          · exact h.closing hplain
          · obtain ⟨between, after, rfl⟩ := List.append_of_mem hmem
            refine h.blocks [] text between text' after rfl (fun hbetween => hend ?_)
              hopening htext'
            rw [plain_append]
            exact List.mem_append_left _ hbetween

end Schema.Commented

/-! ### Changes in a padded text -/

namespace Padded

/-- In a place where the spellings differ, both have blanks, one more of them only behind a blank,
and no item of a list is changed behind a bracket. -/
def Changes (front : Text) (item : Option Char × Char) (rest : Text) : Prop :=
  isBlank item.2 = true ∧ (∀ c ∈ item.1, isBlank c = true) ∧
    (item.1 = none → rest ≠ [] → ∀ c ∈ front.getLast?, isBlank c = true) ∧
    ¬ (EndsInArguments front ∧ itemGoesOn rest = true)

/-- A padded text behind what the tight spelling has in front of it. -/
def Continues (front : Text) : Padded → Prop
  | [] => True
  | item :: rest => (item.1 = some item.2 ∨ Changes front item (tight rest)) ∧
      Continues (front ++ item.1.toList) rest

theorem Continues.changes {before : Text} {padded front rest : Padded} {item : Option Char × Char}
    (h : Continues before padded) (hsplit : padded = front ++ item :: rest)
    (hitem : item.1 ≠ some item.2) :
    Changes (before ++ tight front) item (tight rest) := by
  induction front generalizing before padded with
  | nil =>
      subst hsplit
      simpa using h.1.resolve_left hitem
  | cons other front ih =>
      subst hsplit
      have hbehind := ih h.2 rfl
      obtain ⟨_ | c, d⟩ := other
      · simpa using hbehind
      · simpa using hbehind

section

variable {padded : Padded} (h : Continues [] padded)

include h

theorem Continues.sound : Sound padded := by
  have hchanges : ∀ {front item rest}, padded = front ++ item :: rest → item.1 ≠ some item.2 →
      Changes (tight front) item (tight rest) := fun hsplit hitem => by
    simpa using h.changes hsplit hitem
  refine ⟨fun c d hmem => ?_, fun front d rest hsplit => ?_⟩
  · obtain ⟨front, rest, hsplit⟩ := List.append_of_mem hmem
    by_cases hsame : c = d
    · exact .inl hsame
    · obtain ⟨hblank, hown, -⟩ := hchanges hsplit (by simpa using hsame)
      exact .inr ⟨hown c rfl, hblank⟩
  · obtain ⟨hblank, -, hbehind, -⟩ := hchanges hsplit (Option.some_ne_none d).symm
    exact .inl ⟨hblank, hbehind rfl⟩

theorem Continues.addsBlanks : AddsBlanks padded := by
  intro d hmem
  obtain ⟨front, rest, hsplit⟩ := List.append_of_mem hmem
  exact (h.changes hsplit (Option.some_ne_none d).symm).1

theorem Continues.sparesArguments : SparesArguments padded := by
  intro front item rest hsplit hitem
  simpa using (h.changes hsplit hitem).2.2.2

end

end Padded

namespace Schema

/-- A list falls into its last item and what stands in front of it. -/
theorem exists_lastItem (inner : Text) : ∃ before item, inner = before ++ item ∧
    (∀ c ∈ before.getLast?, c = ',') ∧ ',' ∉ item := by
  refine ⟨inner.rdropWhile (· != ','), inner.rtakeWhile (· != ','), ?_, fun c hc => ?_,
    fun hmem => ?_⟩
  · exact List.rdropWhile_append_rtakeWhile.symm
  · obtain ⟨hne, rfl⟩ := List.mem_getLast?_eq_getLast hc
    simpa using List.rdropWhile_last_not (· != ',') inner hne
  · simpa using List.mem_rtakeWhile_imp hmem

/-- A blank does not lead into the arguments of an item. -/
theorem EndsInArguments.of_blank {front : Text} {b : Char} (h : EndsInArguments (front ++ [b]))
    (hb : isBlank b = true) : EndsInArguments front := by
  obtain ⟨near, inner, hsplit, hclosing, hopens, hword⟩ := h
  rcases List.eq_nil_or_concat inner with rfl | ⟨inner, e, rfl⟩
  · obtain rfl : b = '(' := by simpa using congrArg List.getLast? hsplit
    exact absurd hb (by decide)
  · rw [List.concat_eq_append] at *
    obtain ⟨rfl, hlast⟩ := List.append_inj'
      (show front ++ [b] = (near ++ '(' :: inner) ++ [e] by simpa using hsplit) rfl
    obtain rfl := List.singleton_inj.mp hlast
    refine ⟨near, inner, rfl, fun hmem => hclosing (List.mem_append_left _ hmem), hopens, ?_⟩
    obtain ⟨before, item, rfl, hbefore, hitem⟩ := exists_lastItem inner
    have hlonger : ',' ∉ item ++ [b] := by
      rw [List.mem_append, List.mem_singleton]
      rintro (hmem | rfl)
      · exact hitem hmem
      · exact absurd hb (by decide)
    rw [List.append_assoc, lastItem_append hbefore hlonger, Text.words_append_cons hb] at hword
    rw [lastItem_append hbefore hitem]
    simpa [Text.words] using hword

theorem itemGoesOn_cons {b : Char} (hb : isBlank b = true) (rest : Text) :
    itemGoesOn (b :: rest) = itemGoesOn rest := by
  unfold itemGoesOn Text.dropStart
  rw [List.dropWhile_cons_of_pos hb]

namespace Commented

/-! ### Both spellings -/

/-- What a line feed that is left of a comment stands behind. -/
inductive Behind
  /-- A blank, or nothing. -/
  | blank
  /-- Something else. -/
  | solid
  /-- A line feed that has taken the place of the blank that comes next. -/
  | held

/-- How many characters of what comes next have been spelled already. -/
def Behind.ahead : Behind → Nat
  | .held => 1
  | _ => 0

/-- The script without its comments, and with a line feed for each of them. -/
def spelled : Behind → Commented → Padded
  | _, [] => []
  | .held, .own c :: rest => (none, c) :: spelled .blank rest
  | _, .own c :: rest => (some c, c) :: spelled (if isBlank c then .blank else .solid) rest
  | .solid, .comment _ :: rest =>
    match (plain rest).head? with
    | some c => (some c, '\n') :: spelled .held rest
    | none => (none, '\n') :: spelled .blank rest
  | behind, .comment _ :: rest => (none, '\n') :: spelled behind rest

@[simp] theorem ahead_blank : Behind.blank.ahead = 0 := rfl

@[simp] theorem ahead_solid : Behind.solid.ahead = 0 := rfl

@[simp] theorem ahead_held : Behind.held.ahead = 1 := rfl

@[simp] theorem ahead_own (c : Char) : (if isBlank c then Behind.blank else .solid).ahead = 0 := by
  split <;> rfl

theorem wide_spelled (behind : Behind) (script : Commented) :
    wide (spelled behind script) = bare script := by
  induction script generalizing behind with
  | nil => cases behind <;> rfl
  | cons piece rest ih =>
      cases piece with
      | own c => cases behind <;> simp [spelled, ih]
      | comment text =>
          cases behind with
          | solid =>
              rw [spelled]
              cases (plain rest).head? <;> simp [ih]
          | blank | held => simp [spelled, ih]

theorem tight_spelled (behind : Behind) (script : Commented) :
    tight (spelled behind script) = (plain script).drop behind.ahead := by
  induction script generalizing behind with
  | nil => cases behind <;> rfl
  | cons piece rest ih =>
      cases piece with
      | own c => cases behind <;> simp [spelled, ih]
      | comment text =>
          cases behind with
          | solid =>
              rw [spelled]
              cases hfirst : (plain rest).head? with
              | none => simp [ih]
              | some c =>
                  obtain ⟨after, hafter⟩ := List.head?_eq_some_iff.mp hfirst
                  simp [ih, hafter]
          | blank | held => simp [spelled, ih]

/-- The script in front is what the spelling goes on from. -/
def Behind.Fits (front : Text) (script : Commented) : Behind → Prop
  | .blank => plain script = [] ∨ ∀ c ∈ front.getLast?, isBlank c = true
  | .solid => ∃ c ∈ front.getLast?, isBlank c = false
  | .held => (∃ c ∈ (plain script).head?, isBlank c = true) ∧
      ¬ (EndsInArguments front ∧ itemGoesOn (plain script) = true)

theorem continues_spelled {front script : Commented} (h : Harmless (front ++ script))
    {behind : Behind} (hfits : behind.Fits (plain front) script) :
    Continues (plain front ++ (plain script).take behind.ahead) (spelled behind script) := by
  induction script generalizing front behind with
  | nil => cases behind <;> trivial
  | cons piece rest ih =>
      have hassoc : front ++ piece :: rest = (front ++ [piece]) ++ rest := by simp
      have hrest := @ih (front ++ [piece]) (hassoc ▸ h)
      cases piece with
      | own c =>
          have hlast : ∀ d ∈ (plain (front ++ [.own c])).getLast?, d = c := by simp
          cases behind with
          | held =>
              obtain ⟨⟨b, hb, hblank⟩, harguments⟩ := hfits
              obtain rfl : c = b := Option.some.inj hb
              refine ⟨.inr ⟨hblank, by simp, fun _ _ => by simpa using hblank, ?_⟩, ?_⟩
              · rintro ⟨hends, hgoes⟩
                rw [tight_spelled] at hgoes
                exact harguments ⟨hends.of_blank hblank, (itemGoesOn_cons hblank _).trans hgoes⟩
              · have hspelled := @hrest .blank (.inr fun d hd => hlast d hd ▸ hblank)
                simpa using hspelled
          | blank | solid =>
              refine ⟨.inl rfl, ?_⟩
              by_cases hblank : isBlank c = true
              · have hspelled := @hrest .blank (.inr fun d hd => hlast d hd ▸ hblank)
                simpa [hblank] using hspelled
              · have hspelled := @hrest .solid ⟨c, by simp, by simpa using hblank⟩
                simpa [hblank] using hspelled
      | comment text =>
          have hplaced := h.placed front text rest rfl
          have harguments := h.arguments front text rest rfl
          have hfeed : isBlank '\n' = true := by decide
          cases behind with
          | solid =>
              obtain ⟨e, he, hsolid⟩ := hfits
              have hblank : ∀ c ∈ (plain rest).head?, isBlank c = true := by
                rcases hplaced with hbehind | ⟨hahead, -⟩
                · exact absurd ((hbehind e he).symm.trans hsolid) (by decide)
                · exact hahead
              rw [spelled]
              cases hfirst : (plain rest).head? with
              | none =>
                  have hnil : plain rest = [] := List.head?_eq_none_iff.mp hfirst
                  refine ⟨.inr ⟨hfeed, by simp, fun _ hne => absurd ?_ hne, ?_⟩, ?_⟩
                  · rw [tight_spelled, hnil]
                    rfl
                  · simpa [tight_spelled] using harguments
                  · have hspelled := @hrest .blank (.inl hnil)
                    simpa using hspelled
              | some c =>
                  obtain ⟨after, hafter⟩ := List.head?_eq_some_iff.mp hfirst
                  have hc := hblank c hfirst
                  refine ⟨.inr ⟨hfeed, by simpa using hc, by simp, ?_⟩, ?_⟩
                  · rintro ⟨hends, hgoes⟩
                    refine harguments ⟨by simpa using hends, ?_⟩
                    rw [hafter, itemGoesOn_cons hc]
                    simpa [tight_spelled, hafter] using hgoes
                  · have hspelled := @hrest .held ⟨⟨c, hfirst, hc⟩, by simpa using harguments⟩
                    simpa [hafter] using hspelled
          | blank =>
              refine ⟨.inr ⟨hfeed, by simp, fun _ hne => ?_, ?_⟩, ?_⟩
              · have hlast := hfits.resolve_left (by simpa [tight_spelled] using hne)
                simpa using hlast
              · simpa [tight_spelled] using harguments
              · have hspelled := @hrest .blank (by simpa [Behind.Fits] using hfits)
                simpa using hspelled
          | held =>
              obtain ⟨⟨b, hb, hblank⟩, hinside⟩ := hfits
              obtain ⟨after, hafter⟩ := List.head?_eq_some_iff.mp hb
              have hafter : plain rest = b :: after := hafter
              refine ⟨.inr ⟨hfeed, by simp, fun _ _ => by simpa [hafter] using hblank, ?_⟩, ?_⟩
              · rintro ⟨hends, hgoes⟩
                have hends : EndsInArguments (plain front ++ [b]) := by simpa [hafter] using hends
                refine harguments ⟨hends.of_blank hblank, ?_⟩
                rw [hafter, itemGoesOn_cons hblank]
                simpa [tight_spelled, hafter] using hgoes
              · have hspelled := @hrest .held
                  ⟨⟨b, by simp [hafter], hblank⟩, by simpa using hinside⟩
                simpa using hspelled

/-- A script whose comments do no harm, and its bare form. -/
theorem Harmless.spaced {script : Commented} (h : Harmless script) :
    Spaced (spelled .blank script) ∧ AddsBlanks (spelled .blank script) := by
  have hcontinues : Continues [] (spelled .blank script) :=
    @continues_spelled [] script h .blank (.inr (by simp))
  refine ⟨⟨hcontinues.sound, hcontinues.sparesArguments, ?_⟩, hcontinues.addsBlanks⟩
  rw [tight_spelled]
  exact h.unquoted

end Commented

end Schema

/-! ### The ends of a text -/

namespace Padded

/-- The wide spelling alone. -/
def added (padded : Padded) : Padded := padded.map fun item => (none, item.2)

@[simp] theorem tight_added_all (padded : Padded) : tight (added padded) = [] := by
  simp [tight, added, List.filterMap_map]

@[simp] theorem wide_added_all (padded : Padded) : wide (added padded) = wide padded := by
  simp [wide, added]

theorem continues_of_spaced {padded : Padded} (h : Spaced padded) (hadds : AddsBlanks padded) :
    Continues [] padded := by
  have hbehind : ∀ front rest, padded = front ++ rest → Continues (tight front) rest := by
    intro front rest hsplit
    induction rest generalizing front with
    | nil => trivial
    | cons item rest ih =>
        refine ⟨?_, ?_⟩
        · by_cases hitem : item.1 = some item.2
          · exact .inl hitem
          · have hmem : item ∈ padded := by simp [hsplit]
            refine .inr ⟨isBlank_of_changed h.toSound hadds hmem hitem, ?_, ?_,
              h.spares front item rest hsplit hitem⟩
            · obtain ⟨own, d⟩ := item
              rintro c rfl
              rw [h.toSound.isBlank_eq hmem]
              exact isBlank_of_changed h.toSound hadds hmem hitem
            · obtain ⟨own, d⟩ := item
              rintro rfl hrest
              exact ((hsplit ▸ h.toSound : Sound _).of_added hrest).2
        · have hnext := ih (front ++ [item]) (by simp [hsplit])
          obtain ⟨_ | c, d⟩ := item
          · simpa using hnext
          · simpa using hnext
  exact hbehind [] padded rfl

theorem not_endsInArguments_nil : ¬ EndsInArguments [] := by
  rintro ⟨near, inner, hsplit, -⟩
  simp at hsplit

/-- Blanks may be added in front of a text. -/
theorem Continues.added_append {blanks rest : Padded}
    (hblanks : ∀ item ∈ blanks, isBlank item.2 = true) (h : Continues [] rest) :
    Continues [] (added blanks ++ rest) := by
  induction blanks with
  | nil => exact h
  | cons item blanks ih =>
      obtain ⟨hitem, hothers⟩ := List.forall_mem_cons.mp hblanks
      exact ⟨.inr ⟨hitem, by simp, by simp, fun hends => not_endsInArguments_nil hends.1⟩,
        ih hothers⟩

/-- Blanks may be added behind a text. -/
theorem Continues.append_added {front : Text} {padded blanks : Padded} (h : Continues front padded)
    (hblanks : ∀ item ∈ blanks, isBlank item.2 = true) :
    Continues front (padded ++ added blanks) := by
  induction padded generalizing front with
  | nil =>
      induction blanks generalizing front with
      | nil => trivial
      | cons item blanks ih =>
          obtain ⟨hitem, hothers⟩ := List.forall_mem_cons.mp hblanks
          have hnone : tight (added blanks) = [] := tight_added_all blanks
          refine ⟨.inr ⟨hitem, by simp, fun _ hne => absurd hnone hne, fun hends => ?_⟩,
            ih hothers trivial⟩
          exact absurd (hnone ▸ hends.2) (by decide)
  | cons item padded ih =>
      have hrest : tight (padded ++ added blanks) = tight padded := by simp
      refine ⟨?_, ih h.2⟩
      show _ ∨ Changes front item (tight (padded ++ added blanks))
      rw [hrest]
      exact h.1

/-- Blanks at the ends may be added ones. -/
theorem Spaced.exists_loosened {padded : Padded} (h : Spaced padded) (hadds : AddsBlanks padded) :
    ∃ loosened, Spaced loosened ∧ AddsBlanks loosened ∧ tight loosened = (tight padded).trim ∧
      wide loosened = wide padded := by
  obtain ⟨front, rest, hsplit, hfront, hrest⟩ := exists_trim padded
  have hcore := continues_of_spaced (h.of_within padded.trim_within)
    (hadds.of_within padded.trim_within)
  have hcontinues := (hcore.append_added hrest).added_append hfront
  have htight : tight (added front ++ (padded.trim ++ added rest)) = (tight padded).trim := by
    rw [← tight_trim h.toSound hadds]
    simp
  refine ⟨_, ⟨hcontinues.sound, hcontinues.sparesArguments, ?_⟩, hcontinues.addsBlanks, htight, ?_⟩
  · rw [htight]
    exact fun c hc => h.unquoted c (Text.mem_of_mem_strip hc)
  · conv_rhs => rw [hsplit]
    simp

/-- A semicolon may be added behind a statement. -/
theorem Spaced.statement_semicolon {padded : Padded} (h : Spaced padded) (hadds : AddsBlanks padded)
    (hbody : ';' ∉ tight padded) (hlast : ∀ item ∈ padded.getLast?, isBlank item.2 = false) :
    Padded.Statement (padded ++ [(none, ';')]) := by
  have hsplit : ∀ {front item rest}, padded ++ [(none, ';')] = front ++ item :: rest →
      (front = padded ∧ item = (none, ';') ∧ rest = []) ∨
        ∃ rest', rest = rest' ++ [(none, ';')] ∧ padded = front ++ item :: rest' := by
    intro front item rest hsplit
    rcases List.eq_nil_or_concat rest with rfl | ⟨rest', last, rfl⟩
    · obtain ⟨rfl, hitem⟩ := List.append_inj' hsplit rfl
      exact .inl ⟨rfl, (List.singleton_inj.mp hitem).symm, rfl⟩
    · rw [List.concat_eq_append] at *
      obtain ⟨rfl, hitem⟩ := List.append_inj'
        (show padded ++ [(none, ';')] = (front ++ item :: rest') ++ [last] by
          simpa using hsplit) rfl
      exact .inr ⟨rest', by rw [List.singleton_inj.mp hitem], rfl⟩
  refine ⟨⟨⟨?_, ?_⟩, ?_, by simpa using h.unquoted⟩, by simpa using hbody, ?_⟩
  · intro c d hmem
    exact h.own c d (by simpa using hmem)
  · intro front d rest hends
    rcases hsplit hends with ⟨-, hitem, rfl⟩ | ⟨rest', rfl, hpadded⟩
    · exact .inr ⟨(Prod.mk.inj hitem).2, rfl⟩
    · rcases h.added front d rest' hpadded with hblank | ⟨rfl, -⟩
      · exact .inl (by simpa using hblank)
      · exact absurd (hadds ';' (by simp [hpadded])) (by decide)
  · intro front item rest hends hitem
    rcases hsplit hends with ⟨-, -, rfl⟩ | ⟨rest', rfl, hpadded⟩
    · rintro ⟨-, hgoes⟩
      exact absurd hgoes (by decide)
    · simpa using h.spares front item rest' hpadded hitem
  · intro front hends
    obtain ⟨rfl, -⟩ := List.append_inj' hends rfl
    exact hlast

theorem Spaced.statement {padded : Padded} (h : Spaced padded) (hadds : AddsBlanks padded)
    (hbody : ';' ∉ tight padded) : Padded.Statement padded := by
  refine ⟨h, hbody, ?_⟩
  rintro front rfl
  exact absurd (hadds ';' (by simp)) (by decide)

end Padded

end Diagrams
