/-
Cutting the two spellings of a text.

Words, the parts of a list and the list in brackets are cut out of both spellings at the same signs.
Between two signs stands a stretch of the padded text, and blanks around it are dropped from both of
its spellings.  So what is cut out of the one spelling belongs to what is cut out of the other.
-/
import Diagrams.Proofs.Pattern.Padded
import Diagrams.Proofs.Schema.Script
import Diagrams.Schema.Table

namespace Diagrams

namespace Text

variable {c d : Char} {text : Text}

theorem words_cons_of_stop (hc : isBlank c = false)
    (htext : ∀ d ∈ text.head?, isBlank d = true) : Text.words (c :: text) = [c] :: text.words := by
  have hword : Text.words [c] = [[c]] :=
    Text.words_of_forall (List.cons_ne_nil c []) (List.forall_mem_singleton.mpr hc)
  cases text with
  | nil => exact hword
  | cons d text =>
      have hd : isBlank d = true := htext d rfl
      have hcut := Text.words_append_cons hd [c] text
      have hskip := Text.words_append_cons hd [] text
      rw [List.singleton_append, hword] at hcut
      rw [hcut, show d :: text = [] ++ d :: text from rfl, hskip]
      rfl

theorem words_cons_of_word (hc : isBlank c = false) (hd : isBlank d = false) :
    Text.words (c :: d :: text) = Text.prepended [c] (Text.words (d :: text)) := by
  unfold Text.words
  rw [Text.splitWhere_cons_of_keep hc]
  have hkeep := Text.splitWhere_cons_of_keep hd text
  cases hpieces : Text.splitWhere isBlank text with
  | nil => exact absurd hpieces (Text.splitWhere_ne_nil _ _)
  | cons piece others =>
      rw [hpieces] at hkeep
      rw [hkeep]
      rfl

/-- A text that is not all blank has a word. -/
theorem words_ne_nil_of_mem (hc : isBlank c = false) (hmem : c ∈ text) : Text.words text ≠ [] := by
  induction text with
  | nil => exact absurd hmem List.not_mem_nil
  | cons d text ih =>
      by_cases hd : isBlank d = true
      · have hrest : c ∈ text := by
          rcases List.mem_cons.mp hmem with rfl | hrest
          · exact absurd (hc.symm.trans hd) (by decide)
          · exact hrest
        rw [show Text.words (d :: text) = Text.words text from Text.words_append_cons hd [] text]
        exact ih hrest
      · have hd : isBlank d = false := by simpa using hd
        rcases text with _ | ⟨e, text⟩
        · rw [words_cons_of_stop hd (by simp)]
          exact List.cons_ne_nil _ _
        · by_cases he : isBlank e = true
          · rw [words_cons_of_stop hd (by simpa using he)]
            exact List.cons_ne_nil _ _
          · rw [words_cons_of_word hd (by simpa using he)]
            cases Text.words (e :: text) <;> exact List.cons_ne_nil _ _

/-- The last word of a text that ends with a word ends with it. -/
theorem exists_words_append (front : Text) {word : Text} (hne : word ≠ [])
    (hword : ∀ c ∈ word, isBlank c = false) :
    ∃ firsts last, (front ++ word).words = firsts ++ [last] ∧ word.length ≤ last.length := by
  induction front with
  | nil => exact ⟨[], word, Text.words_of_forall hne hword, le_rfl⟩
  | cons c front ih =>
      obtain ⟨firsts, last, hwords, hlength⟩ := ih
      by_cases hc : isBlank c = true
      · exact ⟨firsts, last, (Text.words_append_cons hc [] _).trans hwords, hlength⟩
      · have hc : isBlank c = false := by simpa using hc
        obtain ⟨d, rest, hrest⟩ := List.exists_cons_of_ne_nil
          (List.append_ne_nil_of_right_ne_nil front hne)
        rw [List.cons_append, hrest]
        rw [hrest] at hwords
        by_cases hd : isBlank d = true
        · exact ⟨[c] :: firsts, last,
            by rw [words_cons_of_stop hc (by simpa using hd), hwords]; rfl, hlength⟩
        · rw [words_cons_of_word hc (by simpa using hd), hwords]
          cases firsts with
          | nil => exact ⟨[], c :: last, rfl, hlength.trans (Nat.le_succ _)⟩
          | cons first firsts => exact ⟨(c :: first) :: firsts, last, rfl, hlength⟩

end Text

namespace Padded

variable {padded near far : Padded} {c d : Char} {test : Char → Bool}

/-- Blanks are added and nothing else. -/
def AddsBlanks (padded : Padded) : Prop := ∀ d, (none, d) ∈ padded → isBlank d = true

theorem AddsBlanks.of_within (h : AddsBlanks padded) (hfar : far <:+: padded) : AddsBlanks far :=
  fun d hd => h d (hfar.subset hd)

/-- What stands in front of something else has blanks added and nothing else. -/
theorem Sound.addsBlanks {front rest : Padded} (h : Sound (near ++ (front ++ rest)))
    (hrest : tight rest ≠ []) : AddsBlanks front := by
  intro d hd
  obtain ⟨before, after, rfl⟩ := List.append_of_mem hd
  have hadded : Sound ((near ++ before) ++ (none, d) :: (after ++ rest)) := by simpa using h
  exact (hadded.of_added (by simp [hrest])).1

/-- Behind a character that is no blank nothing is added, unless the tight spelling ends there. -/
theorem Sound.firm (h : Sound ((some c, d) :: far)) (hc : isBlank c = false) :
    ∀ e behind, far = (none, e) :: behind → tight behind = [] := by
  rintro e behind rfl
  by_contra hbehind
  have hblank := (@Sound.of_added [(some c, d)] behind e h hbehind).2 c rfl
  rw [hc] at hblank
  exact Bool.false_ne_true hblank

theorem Sound.isFiller_of_head (h : Sound ((none, d) :: far)) : isFiller d = true :=
  @Sound.isFiller_of_added [] far d h

theorem Sound.of_cons {item : Option Char × Char} (h : Sound (item :: far)) : Sound far :=
  h.of_within (List.suffix_cons item far).isInfix

/-- Without fillers the two spellings are the same. -/
theorem Sound.tight_eq_wide (h : Sound padded) (hwide : ∀ c ∈ wide padded, isFiller c = false) :
    tight padded = wide padded := by
  induction padded with
  | nil => rfl
  | cons item padded ih =>
      obtain ⟨hitem, hothers⟩ := List.forall_mem_cons.mp hwide
      obtain ⟨_ | c, d⟩ := item
      · rw [h.isFiller_of_head] at hitem
        exact Bool.noConfusion hitem
      · have hblank : isBlank d = false := by
          by_contra hblank
          rw [isFiller_of_isBlank (by simpa using hblank)] at hitem
          exact Bool.noConfusion hitem
        have hmem : (some c, d) ∈ (some c, d) :: padded := List.mem_cons_self
        rw [tight_own, wide_cons, ih h.of_cons hothers,
          h.eq_of_not_blank hmem ((h.isBlank_eq hmem).trans hblank)]

/-! ### Blanks at both ends -/

/-- The text without the blanks at its start. -/
def trimStart (padded : Padded) : Padded := padded.dropWhile fun item => isBlank item.2

/-- The text without the blanks at its end. -/
def trimEnd (padded : Padded) : Padded := padded.rdropWhile fun item => isBlank item.2

/-- The text without the blanks at both ends. -/
def trim (padded : Padded) : Padded := padded.trimStart.trimEnd

theorem trim_within (padded : Padded) : padded.trim <:+: padded :=
  (List.rdropWhile_prefix _ _).isInfix.trans (List.dropWhile_suffix _).isInfix

theorem wide_trimStart (padded : Padded) :
    wide padded.trimStart = (wide padded).dropStart isBlank := by
  unfold wide trimStart Text.dropStart
  rw [List.dropWhile_map]
  rfl

theorem wide_trimEnd (padded : Padded) : wide padded.trimEnd = (wide padded).dropEnd isBlank := by
  unfold wide trimEnd Text.dropEnd List.rdropWhile
  rw [← List.map_reverse, List.dropWhile_map, ← List.map_reverse]
  rfl

theorem wide_trim (padded : Padded) : wide padded.trim = (wide padded).trim := by
  rw [trim, wide_trimEnd, wide_trimStart]
  rfl

theorem tight_dropWhile (hsame : ∀ c d, (some c, d) ∈ padded → isBlank c = isBlank d)
    (hadds : AddsBlanks padded) :
    tight (padded.dropWhile fun item => isBlank item.2) = (tight padded).dropWhile isBlank := by
  induction padded with
  | nil => rfl
  | cons item padded ih =>
      have hothers := ih (fun c d hmem => hsame c d (List.mem_cons_of_mem _ hmem))
        fun d hd => hadds d (List.mem_cons_of_mem _ hd)
      obtain ⟨_ | c, d⟩ := item
      · have hd := hadds d List.mem_cons_self
        simpa [List.dropWhile_cons, hd] using hothers
      · have hc := hsame c d List.mem_cons_self
        cases hd : isBlank d with
        | true => simpa [List.dropWhile_cons, hc, hd] using hothers
        | false => simp [hc, hd]

theorem tight_trimStart (h : Sound padded) (hadds : AddsBlanks padded) :
    tight padded.trimStart = (tight padded).dropStart isBlank :=
  tight_dropWhile (fun _ _ => h.isBlank_eq) hadds

theorem tight_trimEnd (h : Sound padded) (hadds : AddsBlanks padded) :
    tight padded.trimEnd = (tight padded).dropEnd isBlank := by
  have hreverse : ∀ padded : Padded, tight padded.reverse = (tight padded).reverse := fun padded =>
    List.filterMap_reverse
  unfold trimEnd List.rdropWhile Text.dropEnd
  rw [hreverse, ← hreverse padded, tight_dropWhile]
  · exact fun c d hmem => h.isBlank_eq (List.mem_reverse.mp hmem)
  · exact fun d hd => hadds d (List.mem_reverse.mp hd)

theorem tight_trim (h : Sound padded) (hadds : AddsBlanks padded) :
    tight padded.trim = (tight padded).trim := by
  have hstart : padded.trimStart <:+: padded := (List.dropWhile_suffix _).isInfix
  rw [trim, tight_trimEnd (h.of_within hstart) (hadds.of_within hstart), tight_trimStart h hadds]
  rfl

/-! ### Words -/

/-- **The two spellings have the same words.** -/
theorem words_eq (h : Sound padded) (hadds : AddsBlanks padded) :
    (tight padded).words = (wide padded).words := by
  have hskip : ∀ (c : Char) (text : Text), isBlank c = true → Text.words (c :: text) = text.words :=
    fun c text hc => Text.words_append_cons hc [] text
  induction padded with
  | nil => rfl
  | cons item padded ih =>
      have hothers := ih h.of_cons (hadds.of_within (List.suffix_cons item padded).isInfix)
      obtain ⟨_ | c, d⟩ := item
      · rw [tight_added, wide_cons, hskip d _ (hadds d List.mem_cons_self), hothers]
      · have hmem : (some c, d) ∈ (some c, d) :: padded := List.mem_cons_self
        by_cases hc : isBlank c = true
        · rw [tight_own, wide_cons, hskip c _ hc, hskip d _ (h.isBlank_eq hmem ▸ hc), hothers]
        · have hc : isBlank c = false := by simpa using hc
          obtain rfl := h.eq_of_not_blank hmem hc
          rw [tight_own, wide_cons]
          rcases padded with _ | ⟨⟨_ | e, f⟩, behind⟩
          · rfl
          · have hf := hadds f (by simp)
            have hbehind := h.firm hc f behind rfl
            rw [Text.words_cons_of_stop hc (by simp [hbehind]), hothers,
              Text.words_cons_of_stop hc (by simpa using hf)]
          · have hmem : (some e, f) ∈ (some c, c) :: (some e, f) :: behind := by simp
            by_cases he : isBlank e = true
            · have hf : isBlank f = true := h.isBlank_eq hmem ▸ he
              rw [Text.words_cons_of_stop hc (by simpa using he), hothers,
                Text.words_cons_of_stop hc (by simpa using hf)]
            · have he : isBlank e = false := by simpa using he
              obtain rfl := h.eq_of_not_blank hmem he
              rw [tight_own, wide_cons, Text.words_cons_of_word hc he,
                Text.words_cons_of_word hc he, ← tight_own, hothers]
              rfl

/-! ### Pieces -/

/-- A padded text falls into stretches between the characters of a class. -/
inductive Parted (cuts : Char → Bool) : Padded → List Padded → Prop
  | last (stretch : Padded) : Parted cuts stretch [stretch]
  | cut {c d : Char} {far : Padded} {others : List Padded} (stretch : Padded) (hc : cuts c = true)
      (tail : Parted cuts far others) :
      Parted cuts (stretch ++ (some c, d) :: far) (stretch :: others)

namespace Parted

variable {cuts : Char → Bool} {stretches : List Padded}

/-- What comes in front belongs to the first stretch. -/
theorem cons (item : Option Char × Char) (h : Parted cuts padded stretches) :
    ∃ first others, stretches = first :: others ∧
      Parted cuts (item :: padded) ((item :: first) :: others) := by
  cases h with
  | last => exact ⟨padded, [], rfl, .last _⟩
  | @cut c d far others stretch hc tail =>
      exact ⟨stretch, others, rfl, .cut (item :: stretch) hc tail⟩

/-- Every stretch stands behind a cut or at the start. -/
theorem exists_of_mem (h : Parted cuts padded stretches) {stretch : Padded}
    (hstretch : stretch ∈ stretches) :
    ∃ before after, padded = before ++ (stretch ++ after) ∧
      ∀ c ∈ (tight before).getLast?, cuts c = true := by
  induction h with
  | last => exact ⟨[], [], by simp [List.mem_singleton.mp hstretch], by simp⟩
  | @cut c d far others first hc tail ih =>
      rcases List.mem_cons.mp hstretch with rfl | hothers
      · exact ⟨[], (some c, d) :: far, rfl, by simp⟩
      · obtain ⟨before, after, rfl, hbefore⟩ := ih hothers
        refine ⟨first ++ (some c, d) :: before, after, by simp, fun e he => ?_⟩
        rw [tight_append, tight_own, List.getLast?_append, List.getLast?_cons] at he
        cases hlast : (tight before).getLast? with
        | none =>
            obtain rfl : c = e := by simpa [hlast] using he
            exact hc
        | some last =>
            obtain rfl : last = e := by simpa [hlast] using he
            exact hbefore last hlast

theorem infix_of_mem (h : Parted cuts padded stretches) {stretch : Padded}
    (hstretch : stretch ∈ stretches) :
    stretch <:+: padded := by
  obtain ⟨before, after, hsplit, -⟩ := h.exists_of_mem hstretch
  exact ⟨before, after, by rw [hsplit, List.append_assoc]⟩

end Parted

/-- **A scan that does not mind added blanks cuts both spellings at the same characters.** -/
theorem exists_piecesBy {σ : Type} {step : σ → Char → σ} {isCut : σ → Char → Bool}
    {cuts : Char → Bool} {Same : σ → σ → Prop}
    (hcuts : ∀ state c, isCut state c = true → cuts c = true)
    (hown : ∀ {state state' c d}, (some c, d) ∈ padded → Same state state' →
      Same (step state c) (step state' d) ∧ isCut (step state c) c = isCut (step state' d) d)
    (hadded : ∀ {state state' d}, (none, d) ∈ padded → Same state state' →
      Same state (step state' d) ∧ isCut (step state' d) d = false)
    {state state' : σ} (h : Same state state') :
    ∃ stretches, Parted cuts padded stretches ∧
      Text.piecesBy step isCut state (tight padded) = stretches.map tight ∧
      Text.piecesBy step isCut state' (wide padded) = stretches.map wide := by
  induction padded generalizing state state' with
  | nil => exact ⟨[[]], .last [], rfl, rfl⟩
  | cons item padded ih =>
      have hothers : ∀ {state state'}, Same state state' → ∃ stretches,
          Parted cuts padded stretches ∧
          Text.piecesBy step isCut state (tight padded) = stretches.map tight ∧
          Text.piecesBy step isCut state' (wide padded) = stretches.map wide :=
        ih (fun hmem => hown (List.mem_cons_of_mem _ hmem)) fun hmem =>
          hadded (List.mem_cons_of_mem _ hmem)
      obtain ⟨_ | c, d⟩ := item
      · obtain ⟨hnext, hkeep⟩ := hadded List.mem_cons_self h
        obtain ⟨stretches, hparted, htight, hwide⟩ := hothers hnext
        obtain ⟨first, others, rfl, hlonger⟩ := hparted.cons (none, d)
        refine ⟨_, hlonger, htight, ?_⟩
        rw [wide_cons, Text.piecesBy_cons_of_keep hkeep, hwide]
        rfl
      · obtain ⟨hnext, hsame⟩ := hown List.mem_cons_self h
        obtain ⟨stretches, hparted, htight, hwide⟩ := hothers hnext
        cases hcut : isCut (step state c) c with
        | true =>
            refine ⟨[] :: stretches, .cut [] (hcuts _ c hcut) hparted, ?_, ?_⟩
            · rw [tight_own, Text.piecesBy_cons_of_cut hcut, htight]
              rfl
            · rw [wide_cons, Text.piecesBy_cons_of_cut (hsame ▸ hcut), hwide]
              rfl
        | false =>
            obtain ⟨first, others, rfl, hlonger⟩ := hparted.cons (some c, d)
            refine ⟨_, hlonger, ?_, ?_⟩
            · rw [tight_own, Text.piecesBy_cons_of_keep hcut, htight]
              rfl
            · rw [wide_cons, Text.piecesBy_cons_of_keep (hsame ▸ hcut), hwide]
              rfl

/-- A test that no filler passes cuts both spellings at the same characters. -/
theorem exists_splitWhere (h : Sound padded) (htest : ∀ c, isFiller c = true → test c = false) :
    ∃ stretches, Parted test padded stretches ∧
      (tight padded).splitWhere test = stretches.map tight ∧
      (wide padded).splitWhere test = stretches.map wide := by
  rw [Text.splitWhere_eq_piecesBy, Text.splitWhere_eq_piecesBy]
  have hown : ∀ {c d}, (some c, d) ∈ padded → test c = test d := fun hmem =>
    h.accepts_eq hmem fun e he => htest e (isFiller_of_isBlank he)
  have hadded : ∀ {d}, (none, d) ∈ padded → test d = false := by
    intro d hmem
    obtain ⟨before, after, rfl⟩ := List.append_of_mem hmem
    exact htest d h.isFiller_of_added
  exact @exists_piecesBy padded Unit (fun _ _ => ()) (fun _ c => test c) test (fun _ _ => True)
    (fun _ _ hc => hc) (fun hmem _ => ⟨trivial, hown hmem⟩) (fun hmem _ => ⟨trivial, hadded hmem⟩)
    () () trivial

/-! ### Parts and brackets -/

/-- There are no quotes in the text. -/
def Unquoted (text : Text) : Prop := ∀ c ∈ text, Brackets.isQuote c = false

instance (text : Text) : Decidable (Unquoted text) :=
  decidable_of_iff (text.all (fun c => !Brackets.isQuote c) = true) (by simp [Unquoted])

theorem isQuote_of_isFiller (h : isFiller c = true) : Brackets.isQuote c = false :=
  eq_false_of_rejectsFillers (by decide +kernel) h

/-- Neither spelling has a quote. -/
theorem Sound.isQuote_eq_false (h : Sound padded) (hquotes : Unquoted (tight padded)) :
    ∀ c ∈ wide padded, Brackets.isQuote c = false := by
  induction padded with
  | nil => simp
  | cons item padded ih =>
      obtain ⟨_ | c, d⟩ := item
      · exact List.forall_mem_cons.mpr ⟨isQuote_of_isFiller h.isFiller_of_head,
          ih h.of_cons hquotes⟩
      · obtain ⟨hc, hothers⟩ := List.forall_mem_cons.mp hquotes
        refine List.forall_mem_cons.mpr ⟨?_, ih h.of_cons hothers⟩
        rw [← h.accepts_eq List.mem_cons_self fun e he =>
          isQuote_of_isFiller (isFiller_of_isBlank he)]
        exact hc

theorem isFiller_of_mem (h : Sound padded) (hmem : (none, d) ∈ padded) : isFiller d = true := by
  obtain ⟨before, after, rfl⟩ := List.append_of_mem hmem
  exact h.isFiller_of_added

open Schema

/-- Two scans outside of quotes with as many brackets open. -/
def SameScan (scan scan' : ListScan) : Prop :=
  scan.quoting.quote = none ∧ scan'.quoting.quote = none ∧ scan.depth = scan'.depth

theorem step_of_unquoted {scan : ListScan} (hscan : scan.quoting.quote = none)
    (hc : Brackets.isQuote c = false) : scan.step c = ⟨⟨some c, none⟩,
      if c = '(' then scan.depth + 1 else if c = ')' then scan.depth - 1 else scan.depth⟩ := by
  obtain ⟨⟨before, quote⟩, depth⟩ := scan
  obtain rfl : quote = none := hscan
  have hquote : ListScan.isQuote c = false := by
    simp only [Brackets.isQuote, Bool.or_eq_false_iff] at hc
    exact Bool.or_eq_false_iff.mpr hc.1
  simp [ListScan.step, Quoting.step_of_plain hquote, Quoting.isOutside]

theorem sameScan_own (h : Sound padded) (hquotes : Unquoted (tight padded)) {scan scan' : ListScan}
    (hmem : (some c, d) ∈ padded) (hsame : SameScan scan scan') :
    SameScan (scan.step c) (scan'.step d) ∧ (scan.step c).isCut c = (scan'.step d).isCut d := by
  obtain ⟨hscan, hscan', hdepth⟩ := hsame
  have hc : Brackets.isQuote c = false := by
    obtain ⟨before, after, rfl⟩ := List.append_of_mem hmem
    exact hquotes c (by simp)
  have hd : Brackets.isQuote d = false := by
    rw [← h.accepts_eq hmem fun e he => isQuote_of_isFiller (isFiller_of_isBlank he)]
    exact hc
  rw [step_of_unquoted hscan hc, step_of_unquoted hscan' hd]
  rcases h.own c d hmem with rfl | ⟨hblank, hblank'⟩
  · simp [SameScan, ListScan.isCut, hdepth]
  · have hsigns : ∀ e, isBlank e = true → e ≠ '(' ∧ e ≠ ')' ∧ (e == ',') = false := by
      intro e he
      rw [beq_eq_false_iff_ne]
      refine ⟨?_, ?_, ?_⟩ <;> rintro rfl <;> exact absurd he (by decide)
    simp [SameScan, ListScan.isCut, hdepth, hsigns c hblank, hsigns d hblank']

theorem sameScan_added (h : Sound padded) {scan scan' : ListScan}
    (hmem : (none, d) ∈ padded) (hsame : SameScan scan scan') :
    SameScan scan (scan'.step d) ∧ (scan'.step d).isCut d = false := by
  obtain ⟨hscan, hscan', hdepth⟩ := hsame
  have hfiller := isFiller_of_mem h hmem
  have hsigns : d ≠ '(' ∧ d ≠ ')' ∧ d ≠ ',' := by
    refine ⟨?_, ?_, ?_⟩ <;> rintro rfl <;> exact absurd hfiller (by decide)
  rw [step_of_unquoted hscan' (isQuote_of_isFiller hfiller)]
  simp [SameScan, ListScan.isCut, hscan, hdepth, hsigns]

theorem head?_trim (padded : Padded) : ∀ item ∈ padded.trim.head?, isBlank item.2 = false := by
  intro item hitem
  have hhead : item.2 ∈ (wide padded.trim).head? := by
    rw [wide, List.head?_map, hitem]
    rfl
  rw [wide_trim] at hhead
  exact Text.head?_strip item.2 hhead

theorem tight_eq_nil_iff_of_trim (hadds : AddsBlanks padded) :
    tight padded.trim = [] ↔ padded.trim = [] := by
  refine ⟨fun hnil => ?_, fun hnil => by rw [hnil]; rfl⟩
  cases htrim : padded.trim with
  | nil => rfl
  | cons item others =>
      obtain ⟨_ | c, d⟩ := item
      · have hkept := head?_trim padded (none, d) (by rw [htrim]; rfl)
        rw [hadds.of_within padded.trim_within d (by rw [htrim]; exact List.mem_cons_self)] at hkept
        exact Bool.noConfusion hkept
      · rw [htrim] at hnil
        exact absurd hnil (List.cons_ne_nil _ _)

/-- The parts of a list in its two spellings. -/
theorem exists_parts (h : Sound padded) (hadds : AddsBlanks padded)
    (hquotes : Unquoted (tight padded)) :
    ∃ stretches : List Padded, parts (tight padded) = stretches.map tight ∧
      parts (wide padded) = stretches.map wide ∧
      ∀ stretch ∈ stretches, stretch <:+: padded ∧ ∀ item ∈ stretch.head?,
        isBlank item.2 = false := by
  obtain ⟨stretches, hparted, htight, hwide⟩ := @exists_piecesBy padded ListScan ListScan.step
    ListScan.isCut (· == ',') SameScan (fun scan c hc => by simp_all [ListScan.isCut])
    (fun hmem hsame => sameScan_own h hquotes hmem hsame)
    (fun hmem hsame => sameScan_added h hmem hsame) {} {} ⟨rfl, rfl, rfl⟩
  have hwithin : ∀ stretch ∈ stretches, stretch <:+: padded := fun _ => hparted.infix_of_mem
  have htrim : ∀ stretch ∈ stretches, (tight stretch).trim = tight stretch.trim ∧
      (wide stretch).trim = wide stretch.trim := fun stretch hstretch =>
    ⟨(tight_trim (h.of_within (hwithin stretch hstretch))
      (hadds.of_within (hwithin stretch hstretch))).symm, (wide_trim stretch).symm⟩
  obtain ⟨front, last, rfl⟩ : ∃ front last, stretches = front ++ [last] := by
    cases hparted with
    | last => exact ⟨[], _, rfl⟩
    | cut => exact ⟨_, _, (List.dropLast_concat_getLast (List.cons_ne_nil _ _)).symm⟩
  have hfront : ∀ stretch ∈ front, stretch ∈ front ++ [last] := fun _ => List.mem_append_left _
  have hlast : last ∈ front ++ [last] := List.mem_append_right _ (List.mem_singleton.mpr rfl)
  let trimmed := front.map trim ++ if last.trim.isEmpty then [] else [last.trim]
  have hempty : (tight last.trim).isEmpty = last.trim.isEmpty ∧
      (wide last.trim).isEmpty = last.trim.isEmpty := by
    refine ⟨?_, List.isEmpty_map⟩
    rw [Bool.eq_iff_iff, List.isEmpty_iff, List.isEmpty_iff]
    exact tight_eq_nil_iff_of_trim (hadds.of_within (hwithin last hlast))
  have hparts : ∀ (spelling : Padded → Text) (content : Text),
      Text.piecesBy ListScan.step ListScan.isCut {} content = (front ++ [last]).map spelling →
      (∀ stretch ∈ front ++ [last], (spelling stretch).trim = spelling stretch.trim) →
      (spelling last.trim).isEmpty = last.trim.isEmpty → parts content = trimmed.map spelling := by
    intro spelling content hpieces hspelling hlastEmpty
    have hfrontTrim : (front.map spelling).map Text.trim = (front.map trim).map spelling := by
      rw [List.map_map, List.map_map]
      exact List.map_congr_left fun stretch hstretch => hspelling stretch (hfront stretch hstretch)
    unfold parts
    rw [hpieces, List.map_append, List.map_singleton]
    simp only [List.getLast?_concat, List.dropLast_concat, hfrontTrim, Option.getD_some,
      hspelling last hlast, hlastEmpty, trimmed, List.map_append]
    cases last.trim.isEmpty <;> rfl
  refine ⟨trimmed, ?_, ?_, fun stretch hstretch => ?_⟩
  · exact hparts tight _ htight (fun stretch hstretch => (htrim stretch hstretch).1) hempty.1
  · exact hparts wide _ hwide (fun stretch hstretch => (htrim stretch hstretch).2) hempty.2
  · obtain ⟨whole, hwhole, rfl⟩ : ∃ whole ∈ front ++ [last], stretch = whole.trim := by
      rcases List.mem_append.mp hstretch with hmem | hmem
      · obtain ⟨whole, hwhole, rfl⟩ := List.mem_map.mp hmem
        exact ⟨whole, hfront whole hwhole, rfl⟩
      · refine ⟨last, hlast, ?_⟩
        split at hmem
        · exact absurd hmem List.not_mem_nil
        · exact List.mem_singleton.mp hmem
    exact ⟨whole.trim_within.trans (hwithin whole hwhole), head?_trim whole⟩

/-! ### Brackets -/

theorem closingFrom_of_unquoted {state : Quoting} {depth : Int} {offset : Nat} {rest : Text}
    (hstate : state.quote = none) (hc : Brackets.isQuote c = false) :
    Brackets.round.closingFrom state depth offset (c :: rest)
      = if c = '(' then Brackets.round.closingFrom ⟨some c, none⟩ (depth + 1) (offset + 1) rest
        else if c = ')' then
          if depth - 1 = 0 then some offset
          else Brackets.round.closingFrom ⟨some c, none⟩ (depth - 1) (offset + 1) rest
        else Brackets.round.closingFrom ⟨some c, none⟩ depth (offset + 1) rest := by
  obtain ⟨before, quote⟩ := state
  obtain rfl : quote = none := hstate
  rw [Brackets.closingFrom, Quoting.step_of_plain hc]
  rfl

/-- Nothing is found in either spelling, or the same closing bracket in both, as far from where the
scans started as it stands in each. -/
def SameClosing (padded : Padded) (offset offset' : Nat) (found found' : Option Nat) : Prop :=
  found = none ∧ found' = none ∨
    ∃ inner behind, padded = inner ++ (some ')', ')') :: behind ∧
      found = some (offset + (tight inner).length) ∧ found' = some (offset' + (wide inner).length)

namespace SameClosing

variable {padded : Padded} {offset offset' : Nat} {found found' : Option Nat}

/-- The scans go on behind a character of both spellings. -/
theorem own (h : SameClosing padded (offset + 1) (offset' + 1) found found') (c d : Char) :
    SameClosing ((some c, d) :: padded) offset offset' found found' := by
  rcases h with hnone | ⟨inner, behind, rfl, rfl, rfl⟩
  · exact .inl hnone
  · refine .inr ⟨(some c, d) :: inner, behind, rfl, ?_, ?_⟩
    · rw [tight_own, List.length_cons]
      exact congrArg some (by omega)
    · rw [wide_cons, List.length_cons]
      exact congrArg some (by omega)

/-- The scan of the wide spelling goes on behind a character that was added. -/
theorem added (h : SameClosing padded offset (offset' + 1) found found') (d : Char) :
    SameClosing ((none, d) :: padded) offset offset' found found' := by
  rcases h with hnone | ⟨inner, behind, rfl, rfl, rfl⟩
  · exact .inl hnone
  · refine .inr ⟨(none, d) :: inner, behind, rfl, rfl, ?_⟩
    rw [wide_cons, List.length_cons]
    exact congrArg some (by omega)

end SameClosing

theorem ne_brackets_of_isFiller {c : Char} (h : isFiller c = true) : c ≠ '(' ∧ c ≠ ')' := by
  constructor <;> rintro rfl <;> exact absurd h (by decide)

/-- Both spellings have the closing bracket at the same place, or neither has one. -/
theorem closingFrom_padded (h : Sound padded) (hquotes : Unquoted (tight padded))
    {state state' : Quoting} (hstate : state.quote = none) (hstate' : state'.quote = none)
    (depth : Int) (offset offset' : Nat) :
    SameClosing padded offset offset' (Brackets.round.closingFrom state depth offset (tight padded))
      (Brackets.round.closingFrom state' depth offset' (wide padded)) := by
  have hunquoted := h.isQuote_eq_false hquotes
  induction padded generalizing state state' depth offset offset' with
  | nil => exact .inl ⟨rfl, rfl⟩
  | cons item padded ih =>
      obtain ⟨hd, hbehind⟩ := List.forall_mem_cons.mp hunquoted
      have hbare : ∀ c, (Quoting.mk (some c) none).quote = none := fun _ => rfl
      obtain ⟨_ | c, d⟩ := item
      · obtain ⟨hopen, hclose⟩ := ne_brackets_of_isFiller h.isFiller_of_head
        rw [tight_added, wide_cons, closingFrom_of_unquoted hstate' hd, if_neg hopen, if_neg hclose]
        exact (ih h.of_cons hquotes hstate (hbare d) depth offset (offset' + 1) hbehind).added d
      · obtain ⟨hc, hothers⟩ := List.forall_mem_cons.mp hquotes
        have hgo : ∀ depth : Int, SameClosing ((some c, d) :: padded) offset offset'
            (Brackets.round.closingFrom ⟨some c, none⟩ depth (offset + 1) (tight padded))
            (Brackets.round.closingFrom ⟨some d, none⟩ depth (offset' + 1) (wide padded)) :=
          fun depth => (ih h.of_cons hothers (hbare c) (hbare d) depth (offset + 1) (offset' + 1)
            hbehind).own c d
        rw [tight_own, wide_cons, closingFrom_of_unquoted hstate hc,
          closingFrom_of_unquoted hstate' hd]
        rcases h.own c d List.mem_cons_self with rfl | ⟨hblank, hblank'⟩
        · by_cases hopening : c = '('
          · rw [if_pos hopening, if_pos hopening]
            exact hgo (depth + 1)
          · by_cases hclosing : c = ')'
            · rw [if_neg hopening, if_neg hopening, if_pos hclosing, if_pos hclosing]
              by_cases hdepth : depth - 1 = 0
              · rw [if_pos hdepth, if_pos hdepth]
                exact .inr ⟨[], padded, by rw [hclosing]; rfl, rfl, rfl⟩
              · rw [if_neg hdepth, if_neg hdepth]
                exact hgo (depth - 1)
            · rw [if_neg hopening, if_neg hopening, if_neg hclosing, if_neg hclosing]
              exact hgo depth
        · obtain ⟨hopen, hclose⟩ := ne_brackets_of_isFiller (isFiller_of_isBlank hblank)
          obtain ⟨hopen', hclose'⟩ := ne_brackets_of_isFiller (isFiller_of_isBlank hblank')
          rw [if_neg hopen, if_neg hclose, if_neg hopen', if_neg hclose']
          exact hgo depth

/-- The list in brackets in both spellings. -/
theorem body?_padded (h : Sound padded) (hquotes : Unquoted (tight padded)) :
    Brackets.round.body? ('(' :: tight padded) = none ∧
        Brackets.round.body? ('(' :: wide padded) = none ∨
      ∃ inner behind, padded = inner ++ (some ')', ')') :: behind ∧
        Brackets.round.body? ('(' :: tight padded) = some (tight inner, tight behind) ∧
        Brackets.round.body? ('(' :: wide padded) = some (wide inner, wide behind) := by
  have hopening : ∀ text, Brackets.round.closing? ('(' :: text) 0
      = Brackets.round.closingFrom ⟨some '(', none⟩ 1 1 text := fun text => by
    rw [Brackets.closing?, if_pos rfl, List.drop_zero,
      closingFrom_of_unquoted rfl (by decide), if_pos rfl]
    rfl
  unfold Brackets.body?
  rw [hopening, hopening]
  rcases @closingFrom_padded padded h hquotes ⟨some '(', none⟩ ⟨some '(', none⟩ rfl rfl 1 1 1 with
    ⟨hnone, hnone'⟩ | ⟨inner, behind, rfl, htight, hwide⟩
  · exact .inl ⟨by rw [hnone]; rfl, by rw [hnone']; rfl⟩
  · refine .inr ⟨inner, behind, rfl, ?_, ?_⟩
    · rw [htight, Nat.add_comm]
      simp
    · rw [hwide, Nat.add_comm, wide_append, wide_cons, Option.map_some, List.take_succ_cons,
        List.drop_succ_cons, List.drop_succ_cons, List.drop_zero, List.take_left,
        List.drop_length_add_append]
      rfl

end Padded

end Diagrams
