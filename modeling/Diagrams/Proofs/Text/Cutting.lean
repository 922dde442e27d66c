/-
Cutting and trimming texts of known shape.

Wherever a text is cut, the pieces are stretches of one class of characters with a character of
another class behind them.  Such a stretch can be told from the whole text (`append_inj_of_stop`),
so two ways to write the same text agree on it.  From there come the words of a text, the pieces
between separators and the text without the blanks around it.
-/
import Mathlib.Data.List.DropRight
import Diagrams.Text.Pieces

namespace Diagrams

variable {test : Char → Bool} {front rest : Text}

theorem takeWhile_append_of_stop (hfront : ∀ c ∈ front, test c = true)
    (hstop : ∀ c ∈ rest.head?, test c = false) : (front ++ rest).takeWhile test = front := by
  rw [List.takeWhile_append_of_pos hfront]
  cases rest with
  | nil => simp
  | cons c rest => simp [hstop c rfl]

/-- A stretch that is as long as the text in front is that text. -/
theorem takeWhile_append_of_length (h : ((front ++ rest).takeWhile test).length = front.length) :
    (∀ c ∈ front, test c = true) ∧ ∀ c ∈ rest.head?, test c = false := by
  induction front with
  | nil =>
      refine ⟨List.forall_mem_nil _, ?_⟩
      intro c hc
      obtain ⟨behind, rfl⟩ := List.head?_eq_some_iff.mp hc
      cases htest : test c with
      | false => rfl
      | true => simp [htest] at h
  | cons c front ih =>
      cases htest : test c with
      | false => simp [htest] at h
      | true =>
          have hfront := ih (by simpa [htest] using h)
          exact ⟨List.forall_mem_cons.mpr ⟨htest, hfront.1⟩, hfront.2⟩

theorem dropWhile_append_of_stop (hfront : ∀ c ∈ front, test c = true)
    (hstop : ∀ c ∈ rest.head?, test c = false) : (front ++ rest).dropWhile test = rest := by
  rw [List.dropWhile_append_of_pos hfront]
  cases rest with
  | nil => rfl
  | cons c rest => simp [hstop c rfl]

theorem forall_head?_cons {c : Char} (h : test c = false) (rest : Text) :
    ∀ d ∈ (c :: rest).head?, test d = false := by
  intro d hd
  obtain rfl : c = d := by simpa using hd
  exact h

/-- What holds of the characters of a text holds of the first one, whatever is behind the text. -/
theorem forall_head?_append {p : Char → Prop} (hne : front ≠ []) (h : ∀ c ∈ front, p c)
    (rest : Text) : ∀ c ∈ (front ++ rest).head?, p c := by
  rw [List.head?_append_of_ne_nil _ hne]
  exact fun c hc => h c (List.mem_of_mem_head? hc)

/-- A text ends as its last part does, or as the part in front where the last one is empty. -/
theorem forall_getLast?_append {p : Char → Prop} (hfront : ∀ c ∈ front.getLast?, p c)
    (hrest : ∀ c ∈ rest.getLast?, p c) : ∀ c ∈ (front ++ rest).getLast?, p c := by
  intro c hc
  rw [List.getLast?_append] at hc
  rcases Option.or_eq_some_iff.mp hc with hc | ⟨-, hc⟩
  · exact hrest c hc
  · exact hfront c hc

/-- What holds of all characters of a part that is not empty holds of the last character behind
it. -/
theorem forall_getLast?_append_of_forall {p : Char → Prop} (hne : rest ≠ []) (h : ∀ c ∈ rest, p c)
    (front : Text) : ∀ c ∈ (front ++ rest).getLast?, p c := by
  intro c hc
  rw [List.getLast?_append_of_ne_nil _ hne] at hc
  exact h c (List.mem_of_getLast? hc)

/-- A character that does not pass is in no text of characters that do. -/
theorem not_mem_of_forall {c : Char} (h : ∀ d ∈ front, test d = true) (hc : test c = false) :
    c ∉ front := by
  intro hmem
  rw [h c hmem] at hc
  exact Bool.noConfusion hc

/-- Where a stretch of one class ends is the same however the text is written. -/
theorem append_inj_of_stop {front' rest' : Text} (hfront : ∀ c ∈ front, test c = true)
    (hfront' : ∀ c ∈ front', test c = true) (hstop : ∀ c ∈ rest.head?, test c = false)
    (hstop' : ∀ c ∈ rest'.head?, test c = false) (h : front ++ rest = front' ++ rest') :
    front = front' ∧ rest = rest' := by
  constructor
  · rw [← takeWhile_append_of_stop hfront hstop, h, takeWhile_append_of_stop hfront' hstop']
  · rw [← dropWhile_append_of_stop hfront hstop, h, dropWhile_append_of_stop hfront' hstop']

/-- So is where a stretch of one class begins at the end of a text. -/
theorem append_inj_of_stop_behind {front' rest' : Text} (hrest : ∀ c ∈ rest, test c = true)
    (hrest' : ∀ c ∈ rest', test c = true) (hstop : ∀ c ∈ front.getLast?, test c = false)
    (hstop' : ∀ c ∈ front'.getLast?, test c = false) (h : front ++ rest = front' ++ rest') :
    front = front' ∧ rest = rest' := by
  have hreverse := congrArg List.reverse h
  rw [List.reverse_append, List.reverse_append] at hreverse
  obtain ⟨hsame, hsame'⟩ := append_inj_of_stop (fun c hc => hrest c (List.mem_reverse.mp hc))
    (fun c hc => hrest' c (List.mem_reverse.mp hc)) (by rwa [List.head?_reverse])
    (by rwa [List.head?_reverse]) hreverse
  exact ⟨List.reverse_injective hsame', List.reverse_injective hsame⟩

/-- Where a character stands first is the same however the text is written. -/
theorem append_cons_inj_of_not_mem {c : Char} {front' rest' : Text} (hfront : c ∉ front)
    (hfront' : c ∉ front') (h : front ++ c :: rest = front' ++ c :: rest') :
    front = front' ∧ rest = rest' := by
  have hne : ∀ {text : Text}, c ∉ text → ∀ d ∈ text, (d != c) = true := by
    intro text hmem d hd
    rw [bne_iff_ne]
    rintro rfl
    exact hmem hd
  have hstop : ∀ rest : Text, ∀ d ∈ (c :: rest).head?, (d != c) = false :=
    fun rest => forall_head?_cons (by simp) rest
  obtain ⟨hsame, hrest⟩ :=
    append_inj_of_stop (hne hfront) (hne hfront') (hstop rest) (hstop rest') h
  exact ⟨hsame, (List.cons.inj hrest).2⟩

/-- The character in front of what follows a stretch. -/
theorem getLast?_cons_or (c : Char) (front : Text) (before : Option Char) :
    (c :: front).getLast?.or before = front.getLast?.or (some c) := by
  rw [List.getLast?_cons]
  cases front.getLast? <;> rfl

/-- The place behind a stretch, told from behind its first character. -/
theorem add_length_cons (offset : Nat) (c : Char) (front : Text) :
    offset + (c :: front).length = offset + 1 + front.length := by
  rw [List.length_cons]
  omega

/-- A character of two texts in a row belongs to the first or to the second. -/
theorem append_eq_append_cons {near far : Text} {c : Char} (h : front ++ rest = near ++ c :: far) :
    (∃ middle, front = near ++ c :: middle ∧ far = middle ++ rest) ∨
      ∃ middle, near = front ++ middle ∧ rest = middle ++ c :: far := by
  rcases List.append_eq_append_iff.mp h with ⟨middle, hnear, hrest⟩ | ⟨middle, hfront, hcons⟩
  · exact .inr ⟨middle, hnear, hrest⟩
  · cases middle with
    | nil => exact .inr ⟨[], by simpa using hfront.symm, hcons.symm⟩
    | cons d middle =>
        obtain ⟨rfl, hfar⟩ := List.cons.inj hcons
        exact .inl ⟨middle, hfront, hfar⟩

namespace Text

/-! ### Words -/

@[simp] theorem words_nil : words [] = [] := rfl

/-- Blanks in front belong to no word. -/
theorem words_append_of_blank (hfront : ∀ c ∈ front, isBlank c = true) :
    (front ++ rest).words = rest.words := by
  induction front with
  | nil => rfl
  | cons c front ih =>
      obtain ⟨hc, hfront⟩ := List.forall_mem_cons.mp hfront
      rw [List.cons_append]
      exact (words_append_cons hc [] (front ++ rest)).trans (ih hfront)

theorem splitWhere_of_forall (h : ∀ c ∈ front, test c = false) :
    splitWhere test front = [front] := by
  induction front with
  | nil => rfl
  | cons c front ih =>
      obtain ⟨hc, hfront⟩ := List.forall_mem_cons.mp h
      rw [splitWhere_cons_of_keep hc, ih hfront]

/-- A text without blanks is one word. -/
theorem words_of_forall (hne : front ≠ []) (h : ∀ c ∈ front, isBlank c = false) :
    front.words = [front] := by
  unfold words
  rw [splitWhere_of_forall h]
  simp [hne]

/-- The first word of a text, after blanks and in front of one. -/
theorem head?_words {word : Text} {c : Char} (hfront : ∀ d ∈ front, isBlank d = true)
    (hne : word ≠ []) (hword : ∀ d ∈ word, isBlank d = false) (hc : isBlank c = true) :
    (front ++ (word ++ c :: rest)).words.head? = some word := by
  rw [words_append_of_blank hfront, words_append_cons hc, words_of_forall hne hword]
  rfl

/-- A text that starts with a word has it as its first one. -/
theorem head?_words_of_word {word : Text} (hne : word ≠ []) (hword : ∀ d ∈ word, isBlank d = false)
    (hrest : ∀ c ∈ rest.head?, isBlank c = true) : (word ++ rest).words.head? = some word := by
  cases rest with
  | nil => rw [List.append_nil, words_of_forall hne hword, List.head?_cons]
  | cons c rest => exact head?_words (List.forall_mem_nil _) hne hword (hrest c rfl)

/-- A text up to its first blank. -/
theorem exists_word_split (text : Text) :
    ∃ word more, text = word ++ more ∧ (∀ c ∈ word, isBlank c = false) ∧
      ∀ c ∈ more.head?, isBlank c = true := by
  induction text with
  | nil => exact ⟨[], [], rfl, by simp, by simp⟩
  | cons c text ih =>
      cases hc : isBlank c with
      | true => exact ⟨[], c :: text, rfl, by simp, by simpa using hc⟩
      | false =>
          obtain ⟨word, more, rfl, hword, hmore⟩ := ih
          exact ⟨c :: word, more, rfl, List.forall_mem_cons.mpr ⟨hc, hword⟩, hmore⟩

/-! ### Trimming -/

theorem dropStart_eq_self {text : Text} (h : ∀ c ∈ text.head?, test c = false) :
    text.dropStart test = text := by
  unfold dropStart
  cases text with
  | nil => rfl
  | cons c text => rw [List.dropWhile_cons_of_neg (by simp [h c rfl])]

theorem dropEnd_eq_self {text : Text} (h : ∀ c ∈ text.getLast?, test c = false) :
    text.dropEnd test = text := by
  have hstart : dropStart test text.reverse = text.reverse := dropStart_eq_self (by simpa using h)
  unfold dropStart at hstart
  unfold dropEnd
  rw [hstart, List.reverse_reverse]

theorem strip_eq_self {text : Text} (hfirst : ∀ c ∈ text.head?, test c = false)
    (hlast : ∀ c ∈ text.getLast?, test c = false) : text.strip test = text := by
  unfold strip
  rw [dropStart_eq_self hfirst, dropEnd_eq_self hlast]

/-- Blanks in front go when a text is trimmed. -/
theorem trim_cons_of_blank {text : Text} {c : Char} (h : isBlank c = true) :
    trim (c :: text) = trim text := by
  unfold trim strip dropStart
  rw [List.dropWhile_cons_of_pos h]

theorem trim_append_of_blank {gap text : Text} (h : ∀ c ∈ gap, isBlank c = true) :
    trim (gap ++ text) = trim text := by
  induction gap with
  | nil => rfl
  | cons c gap ih =>
      obtain ⟨hc, hgap⟩ := List.forall_mem_cons.mp h
      rw [List.cons_append, trim_cons_of_blank hc, ih hgap]

/-- What is put away around a text goes with what is put away at its ends. -/
theorem strip_padded {front core back : Text} (hfront : ∀ c ∈ front, test c = true)
    (hback : ∀ c ∈ back, test c = true) :
    strip test (front ++ (core ++ back)) = strip test core := by
  unfold strip dropStart dropEnd
  rw [List.dropWhile_append_of_pos hfront, List.dropWhile_append]
  split
  · rename_i hempty
    rw [List.isEmpty_iff.mp hempty, List.dropWhile_eq_nil_iff.mpr hback]
  · rw [List.reverse_append, List.dropWhile_append_of_pos fun c hc =>
      hback c (List.mem_reverse.mp hc)]

theorem strip_between {front core back : Text} (hfront : ∀ c ∈ front, test c = true)
    (hback : ∀ c ∈ back, test c = true) (hfirst : ∀ c ∈ core.head?, test c = false)
    (hlast : ∀ c ∈ core.getLast?, test c = false) :
    strip test (front ++ (core ++ back)) = core := by
  rw [strip_padded hfront hback, strip_eq_self hfirst hlast]

/-- Blanks around a text are trimmed with those at its ends. -/
theorem trim_padded {front core back : Text} (hfront : ∀ c ∈ front, isBlank c = true)
    (hback : ∀ c ∈ back, isBlank c = true) : trim (front ++ (core ++ back)) = trim core :=
  strip_padded hfront hback

/-- A text that neither starts nor ends with a blank is what is left of it between blanks. -/
theorem trim_between {front core back : Text} (hfront : ∀ c ∈ front, isBlank c = true)
    (hback : ∀ c ∈ back, isBlank c = true) (hfirst : ∀ c ∈ core.head?, isBlank c = false)
    (hlast : ∀ c ∈ core.getLast?, isBlank c = false) : trim (front ++ (core ++ back)) = core :=
  strip_between hfront hback hfirst hlast

/-- A text is what stays when it is trimmed, with blanks on both sides. -/
theorem exists_trim (text : Text) : ∃ front back, (∀ c ∈ front, isBlank c = true) ∧
    (∀ c ∈ back, isBlank c = true) ∧ text = front ++ (text.trim ++ back) := by
  refine ⟨text.takeWhile isBlank, ((text.dropStart isBlank).reverse.takeWhile isBlank).reverse,
    fun c hc => List.mem_takeWhile_imp hc,
    fun c hc => List.mem_takeWhile_imp (List.mem_reverse.mp hc), ?_⟩
  unfold trim strip dropEnd
  rw [← List.reverse_append, List.takeWhile_append_dropWhile, List.reverse_reverse]
  exact List.takeWhile_append_dropWhile.symm

/-- What stands after the last of a character is told by what follows it. -/
theorem afterLast?_append_cons {c : Char} (h : c ∉ rest) :
    afterLast? c (front ++ c :: rest) = some rest := by
  have hreverse : (front ++ c :: rest).reverse = rest.reverse ++ c :: front.reverse := by simp
  have htake : (rest.reverse ++ c :: front.reverse).takeWhile (· != c) = rest.reverse := by
    refine takeWhile_append_of_stop (fun d hd => ?_) (forall_head?_cons (by simp) _)
    simpa using fun heq : d = c => h (heq ▸ List.mem_reverse.mp hd)
  rw [afterLast?, if_pos (by simp), hreverse, htake, List.reverse_reverse]

theorem afterLast?_of_not_mem {c : Char} (h : c ∉ front) : afterLast? c front = none := by
  simp [afterLast?, h]

/-! ### Pieces -/

@[simp] theorem joined_nil (separator : Text) : joined separator [] = [] := rfl

@[simp] theorem joined_singleton (separator piece : Text) : joined separator [piece] = piece := by
  simp [joined, List.intercalate]

theorem joined_cons_cons (separator piece next : Text) (others : List Text) :
    joined separator (piece :: next :: others)
      = piece ++ (separator ++ joined separator (next :: others)) := by
  simp [joined, List.intercalate]

/-- What follows the separator between two pieces may as well start the second one. -/
theorem joined_append (separator gap piece : Text) (pieces : List Text) :
    joined (separator ++ gap) (piece :: pieces)
      = joined separator (piece :: pieces.map fun next => gap ++ next) := by
  induction pieces generalizing piece with
  | nil => simp
  | cons next pieces ih =>
      rw [List.map_cons, joined_cons_cons, joined_cons_cons, ih]
      cases pieces with
      | nil => simp
      | cons later pieces => simp [joined_cons_cons]

/-- What holds of the characters of all pieces and of the separator holds of all characters. -/
theorem forall_mem_joined {P : Char → Prop} {separator : Text} {pieces : List Text}
    (hseparator : ∀ c ∈ separator, P c) (h : ∀ piece ∈ pieces, ∀ c ∈ piece, P c) :
    ∀ c ∈ joined separator pieces, P c := by
  induction pieces with
  | nil => exact fun c hc => absurd hc List.not_mem_nil
  | cons piece pieces ih =>
      obtain ⟨hpiece, hothers⟩ := List.forall_mem_cons.mp h
      cases pieces with
      | nil => simpa using hpiece
      | cons next others =>
          rw [joined_cons_cons]
          intro c hc
          rcases List.mem_append.mp hc with hc | hc
          · exact hpiece c hc
          · rcases List.mem_append.mp hc with hc | hc
            · exact hseparator c hc
            · exact ih hothers c hc

/-- Pieces with a cut between them are cut out again. -/
theorem splitWhere_joined {c : Char} {pieces : List Text} (hc : test c = true) (hne : pieces ≠ [])
    (h : ∀ piece ∈ pieces, ∀ d ∈ piece, test d = false) :
    splitWhere test (joined [c] pieces) = pieces := by
  induction pieces with
  | nil => exact absurd rfl hne
  | cons piece pieces ih =>
      obtain ⟨hpiece, hpieces⟩ := List.forall_mem_cons.mp h
      cases pieces with
      | nil => rw [joined_singleton, splitWhere_of_forall hpiece]
      | cons next others =>
          rw [joined_cons_cons, List.singleton_append, splitWhere_append_cons hc,
            splitWhere_of_forall hpiece, ih (List.cons_ne_nil _ _) hpieces]
          rfl

/-- The pieces with a text put in front of the first one. -/
def prepended (front : Text) : List Text → List Text
  | piece :: others => (front ++ piece) :: others
  | [] => [front]

@[simp] theorem prepended_cons (piece : Text) (others : List Text) :
    prepended front (piece :: others) = (front ++ piece) :: others := rfl

theorem prepended_nil_of_ne_nil {pieces : List Text} (h : pieces ≠ []) :
    prepended [] pieces = pieces := by
  cases pieces with
  | nil => exact absurd rfl h
  | cons piece others => rfl

theorem prepended_prepended (front middle : Text) (pieces : List Text) :
    prepended front (prepended middle pieces) = prepended (front ++ middle) pieces := by
  cases pieces <;> simp [prepended]

section

variable {σ : Type} {step : σ → Char → σ} {isCut : σ → Char → Bool} {state : σ} {c : Char}

theorem piecesBy_cons_of_cut (h : isCut (step state c) c = true) (text : Text) :
    piecesBy step isCut state (c :: text) = [] :: piecesBy step isCut (step state c) text := by
  simp [piecesBy, h]

theorem piecesBy_cons_of_keep (h : isCut (step state c) c = false) (text : Text) :
    piecesBy step isCut state (c :: text)
      = prepended [c] (piecesBy step isCut (step state c) text) := by
  simp only [piecesBy, h]
  cases piecesBy step isCut (step state c) text <;> rfl

theorem piecesBy_ne_nil (state : σ) (text : Text) : piecesBy step isCut state text ≠ [] := by
  cases text with
  | nil => simp [piecesBy]
  | cons c text =>
      cases h : isCut (step state c) c with
      | true => simp [piecesBy_cons_of_cut h]
      | false =>
          rw [piecesBy_cons_of_keep h]
          cases piecesBy step isCut (step state c) text <;> simp [prepended]

end

/-! ### What stays of a text -/

theorem mem_of_mem_dropEnd {text : Text} {c : Char} (h : c ∈ text.dropEnd test) : c ∈ text := by
  have hmem : c ∈ text.reverse.dropWhile test := List.mem_reverse.mp h
  exact List.mem_reverse.mp ((List.dropWhile_sublist test).mem hmem)

theorem mem_of_mem_strip {text : Text} {c : Char} (h : c ∈ text.strip test) : c ∈ text :=
  (List.dropWhile_sublist test).mem (mem_of_mem_dropEnd h)

theorem head?_dropStart (text : Text) : ∀ c ∈ (text.dropStart test).head?, test c = false := by
  intro c hc
  have hhead := List.head?_dropWhile_not test text
  unfold dropStart at hc
  rw [Option.mem_def.mp hc] at hhead
  exact hhead

theorem head?_strip {text : Text} : ∀ c ∈ (text.strip test).head?, test c = false := by
  intro c hc
  have hprefix : text.strip test <+: text.dropStart test := List.rdropWhile_prefix test _
  apply head?_dropStart text
  cases hstrip : text.strip test with
  | nil =>
      rw [hstrip] at hc
      exact absurd hc (by simp)
  | cons d rest =>
      rw [hstrip] at hc hprefix
      obtain ⟨back, hback⟩ := hprefix
      rw [← hback]
      exact hc

theorem getLast?_strip {text : Text} : ∀ c ∈ (text.strip test).getLast?, test c = false := by
  intro c hc
  unfold strip dropEnd at hc
  rw [List.getLast?_reverse] at hc
  exact head?_dropStart (text.dropStart test).reverse c hc

theorem strip_eq_nil_iff {text : Text} : text.strip test = [] ↔ ∀ c ∈ text, test c = true := by
  have hstart : text.dropStart test = [] ↔ ∀ c ∈ text, test c = true := List.dropWhile_eq_nil_iff
  constructor
  · intro hnil
    have hall : ∀ c ∈ text.dropStart test, test c = true := List.rdropWhile_eq_nil_iff.mp hnil
    cases hfront : text.dropStart test with
    | nil => exact hstart.mp hfront
    | cons c rest =>
        have hkept : test c = false := head?_dropStart text c (by rw [hfront]; rfl)
        have hgone : test c = true := hall c (by rw [hfront]; exact List.mem_cons_self)
        exact absurd (hkept.symm.trans hgone) Bool.false_ne_true
  · intro hall
    unfold strip
    rw [hstart.mpr hall]
    rfl

theorem trim_trim (text : Text) : text.trim.trim = text.trim :=
  strip_eq_self head?_strip getLast?_strip

theorem isBlankText_iff {text : Text} : text.isBlankText = true ↔ text.trim = [] := by
  rw [isBlankText, List.all_eq_true, trim, strip_eq_nil_iff]

theorem isBlankText_trim (text : Text) : text.trim.isBlankText = text.isBlankText := by
  rw [Bool.eq_iff_iff, isBlankText_iff, isBlankText_iff, trim_trim]

/-- The pieces of a text hold no other characters than the text. -/
theorem mem_of_mem_piecesBy {σ : Type} {step : σ → Char → σ} {isCut : σ → Char → Bool} {state : σ}
    {text piece : Text} {c : Char} (hpiece : piece ∈ piecesBy step isCut state text)
    (hc : c ∈ piece) : c ∈ text := by
  induction text generalizing state piece with
  | nil =>
      obtain rfl : piece = [] := by simpa [piecesBy] using hpiece
      exact hc
  | cons d text ih =>
      unfold piecesBy at hpiece
      dsimp only at hpiece
      split at hpiece
      · rcases List.mem_cons.mp hpiece with rfl | hlater
        · exact absurd hc List.not_mem_nil
        · exact List.mem_cons_of_mem _ (ih hlater hc)
      · split at hpiece
        · rename_i first others hpieces
          rcases List.mem_cons.mp hpiece with rfl | hlater
          · rcases List.mem_cons.mp hc with rfl | hc
            · exact List.mem_cons_self
            · exact List.mem_cons_of_mem _ (ih (hpieces ▸ List.mem_cons_self) hc)
          · exact List.mem_cons_of_mem _ (ih (hpieces ▸ List.mem_cons_of_mem _ hlater) hc)
        · obtain rfl : piece = [d] := List.mem_singleton.mp hpiece
          obtain rfl : c = d := List.mem_singleton.mp hc
          exact List.mem_cons_self

theorem splitWhere_eq_piecesBy (text : Text) :
    splitWhere test text = piecesBy (fun (_ : Unit) _ => ()) (fun _ c => test c) () text := by
  induction text with
  | nil => rfl
  | cons c text ih =>
      rw [piecesBy, ← ih]
      cases hc : test c with
      | true => exact splitWhere_cons_of_cut hc text
      | false =>
          rw [splitWhere_cons_of_keep hc]
          rfl

/-- No piece holds a character that the text is cut at. -/
theorem eq_false_of_mem_splitWhere {text piece : Text} (hpiece : piece ∈ text.splitWhere test) :
    ∀ c ∈ piece, test c = false := by
  induction text generalizing piece with
  | nil =>
      obtain rfl : piece = [] := by simpa using hpiece
      exact List.forall_mem_nil _
  | cons c text ih =>
      cases hc : test c with
      | true =>
          rw [splitWhere_cons_of_cut hc] at hpiece
          rcases List.mem_cons.mp hpiece with rfl | hlater
          · exact List.forall_mem_nil _
          · exact ih hlater
      | false =>
          rw [splitWhere_cons_of_keep hc] at hpiece
          split at hpiece
          · rename_i first others hpieces
            rcases List.mem_cons.mp hpiece with rfl | hlater
            · exact List.forall_mem_cons.mpr ⟨hc, ih (hpieces ▸ List.mem_cons_self)⟩
            · exact ih (hpieces ▸ List.mem_cons_of_mem _ hlater)
          · rw [List.mem_singleton.mp hpiece]
            simpa using hc

theorem mem_of_mem_words {text word : Text} {c : Char} (hword : word ∈ text.words) (hc : c ∈ word) :
    c ∈ text := by
  have hpiece : word ∈ text.splitWhere isBlank := (List.mem_filter.mp hword).1
  rw [splitWhere_eq_piecesBy] at hpiece
  exact mem_of_mem_piecesBy hpiece hc

end Text

end Diagrams
