/-
What stands in comments and literals is not seen.

How far a comment or literal goes is told by its own characters: the search for its end stops
at the end and knows nothing of what comes behind.  Two things look one character further.  A
line comment ends where a line does, and an empty literal is the opening of a text block if
another quote follows.  So in a source whose quotes all belong to literals that are apart from
one another, one comment or literal can get another inside, and all other lexemes stay what
they are (`lexemes_refilled`).

Structure is read from the source with blanks in place of comments and insides of literals, and
there the two sources are the same.
-/
import Mathlib.Data.List.Chain
import Diagrams.Code.Reading
import Diagrams.Proofs.Text.Cutting

namespace Diagrams.Code

/-! ### Where a comment or literal ends -/

theorem bounds_of_blockLength? {text : Text} {length : Nat} (h : blockLength? text = some length) :
    2 ≤ length ∧ length ≤ text.length := by
  induction text using blockLength?.induct generalizing length with
  | case1 => simp [blockLength?] at h
  | case2 rest =>
      obtain rfl : 2 = length := by simpa [blockLength?] using h
      simp
  | case3 c rest hopen ih =>
      rw [blockLength?.eq_3 _ _ hopen] at h
      obtain ⟨inner, hinner, rfl⟩ := Option.map_eq_some_iff.mp h
      have hbounds := ih hinner
      simp only [List.length_cons]
      omega

/-- Where a block comment ends does not depend on what comes behind it. -/
theorem blockLength?_append {text rest : Text}
    (h : blockLength? (text ++ rest) = some text.length) (other : Text) :
    blockLength? (text ++ other) = some text.length := by
  induction text with
  | nil => exact absurd (bounds_of_blockLength? h).1 (by simp)
  | cons c text ih =>
      obtain ⟨d, text, rfl⟩ : ∃ d others, text = d :: others := by
        cases text with
        | nil => exact absurd (bounds_of_blockLength? h).1 (by simp)
        | cons d others => exact ⟨d, others, rfl⟩
      by_cases hclose : c = '*' ∧ d = '/'
      · obtain ⟨rfl, rfl⟩ := hclose
        exact h
      · have hopen : ∀ behind rest : Text, c = '*' → d :: (text ++ behind) = '/' :: rest → False :=
          fun behind rest hc hd => hclose ⟨hc, (List.cons.inj hd).1⟩
        have hstep : ∀ behind, blockLength? (c :: d :: (text ++ behind))
            = (blockLength? (d :: (text ++ behind))).map (· + 1) :=
          fun behind => blockLength?.eq_3 _ _ (hopen behind)
        have hinner : blockLength? (d :: text ++ rest) = some (d :: text).length := by
          simpa [hstep] using h
        have hother := ih hinner
        simp only [List.cons_append] at hother ⊢
        rw [hstep, hother]
        rfl

/-- A text block ends with three quotes. -/
theorem exists_split_of_textBlockLength? {text : Text} {length : Nat}
    (h : textBlockLength? text = some length) :
    ∃ inner rest, text = inner ++ '"' :: '"' :: '"' :: rest ∧ length = inner.length + 3 := by
  induction text using textBlockLength?.induct generalizing length with
  | case1 => simp [textBlockLength?] at h
  | case2 rest =>
      obtain rfl : 3 = length := by simpa [textBlockLength?] using h
      exact ⟨[], rest, rfl, rfl⟩
  | case3 c rest ih =>
      obtain ⟨shorter, hshorter, rfl⟩ := Option.map_eq_some_iff.mp h
      obtain ⟨inner, behind, rfl, rfl⟩ := ih hshorter
      exact ⟨'\\' :: c :: inner, behind, rfl, rfl⟩
  | case4 => simp [textBlockLength?] at h
  | case5 c rest hopen hslash hlast ih =>
      rw [textBlockLength?.eq_5 _ _ hopen hslash hlast] at h
      obtain ⟨shorter, hshorter, rfl⟩ := Option.map_eq_some_iff.mp h
      obtain ⟨inner, behind, rfl, rfl⟩ := ih hshorter
      exact ⟨c :: inner, behind, rfl, rfl⟩

theorem bounds_of_textBlockLength? {text : Text} {length : Nat}
    (h : textBlockLength? text = some length) : 3 ≤ length ∧ length ≤ text.length := by
  obtain ⟨inner, rest, rfl, rfl⟩ := exists_split_of_textBlockLength? h
  simp only [List.length_append, List.length_cons]
  omega

/-- Where a text block ends does not depend on what comes behind it. -/
theorem textBlockLength?_append {text rest : Text}
    (h : textBlockLength? (text ++ rest) = some text.length) (other : Text) :
    textBlockLength? (text ++ other) = some text.length := by
  induction text using textBlockLength?.induct with
  | case1 => exact absurd (bounds_of_textBlockLength? h).1 (by simp)
  | case2 text => exact h
  | case3 c text ih =>
      have hinner : textBlockLength? (text ++ rest) = some text.length := by
        simpa [textBlockLength?] using h
      simp [textBlockLength?, ih hinner]
  | case4 => exact absurd (bounds_of_textBlockLength? h).1 (by simp)
  | case5 c text hopen hslash hlast ih =>
      obtain ⟨d, e, text, rfl⟩ : ∃ d e others, text = d :: e :: others := by
        have hlength := (bounds_of_textBlockLength? h).1
        match text, hlength with
        | d :: e :: others, _ => exact ⟨d, e, others, rfl⟩
      have hstep : ∀ behind, textBlockLength? (c :: d :: e :: (text ++ behind))
          = (textBlockLength? (d :: e :: (text ++ behind))).map (· + 1) := by
        intro behind
        refine textBlockLength?.eq_5 _ _ ?_ ?_ ?_
        · intro tail hc hquotes
          simp only [List.cons.injEq] at hquotes
          exact hopen text hc (by rw [hquotes.1, hquotes.2.1])
        · exact fun _ _ hc _ => hslash d (e :: text) hc rfl
        · exact fun hc _ => hslash d (e :: text) hc rfl
      have hinner : textBlockLength? (d :: e :: text ++ rest) = some (d :: e :: text).length := by
        simpa [hstep] using h
      have hother := ih hinner
      simp only [List.cons_append] at hother ⊢
      rw [hstep, hother]
      rfl

section

variable {quote : Char}

/-- A literal on one line ends with its quote. -/
theorem exists_split_of_quotedLength? {text : Text} {length : Nat}
    (h : quotedLength? quote text = some length) :
    ∃ inner rest, text = inner ++ quote :: rest ∧ length = inner.length + 1 := by
  induction text using quotedLength?.induct quote generalizing length with
  | case1 => simp [quotedLength?] at h
  | case2 c rest ih =>
      rw [quotedLength?.eq_2] at h
      obtain ⟨shorter, hshorter, rfl⟩ := Option.map_eq_some_iff.mp h
      obtain ⟨inner, behind, rfl, rfl⟩ := ih hshorter
      exact ⟨'\\' :: c :: inner, behind, rfl, rfl⟩
  | case3 rest hslash =>
      rw [quotedLength?.eq_3 _ _ _ hslash, if_pos rfl] at h
      exact ⟨[], rest, rfl, (Option.some.inj h).symm⟩
  | case4 c rest hslash hquote hstop =>
      rw [quotedLength?.eq_3 _ _ _ hslash, if_neg hquote, if_pos hstop] at h
      exact absurd h.symm (Option.some_ne_none length)
  | case5 c rest hslash hquote hstop ih =>
      rw [quotedLength?.eq_3 _ _ _ hslash, if_neg hquote, if_neg hstop] at h
      obtain ⟨shorter, hshorter, rfl⟩ := Option.map_eq_some_iff.mp h
      obtain ⟨inner, behind, rfl, rfl⟩ := ih hshorter
      exact ⟨c :: inner, behind, rfl, rfl⟩

theorem bounds_of_quotedLength? {text : Text} {length : Nat}
    (h : quotedLength? quote text = some length) : 1 ≤ length ∧ length ≤ text.length := by
  obtain ⟨inner, rest, rfl, rfl⟩ := exists_split_of_quotedLength? h
  simp only [List.length_append, List.length_cons]
  omega

theorem quotedLength?_of_ne_slash {c : Char} (h : c ≠ '\\') (rest : Text) :
    quotedLength? quote (c :: rest)
      = if c = quote then some 1
        else if c = '\n' then none else (quotedLength? quote rest).map (· + 1) := by
  rw [quotedLength?.eq_3 _ _ _ fun _ _ hc _ => h hc]
  simp [h]

/-- Where a literal ends does not depend on what comes behind it. -/
theorem quotedLength?_append (hquote : quote ≠ '\\') {text rest : Text}
    (h : quotedLength? quote (text ++ rest) = some text.length) (other : Text) :
    quotedLength? quote (text ++ other) = some text.length := by
  induction text using quotedLength?.induct quote with
  | case1 => exact absurd (bounds_of_quotedLength? h).1 (by simp)
  | case2 c text ih =>
      have hinner : quotedLength? quote (text ++ rest) = some text.length := by
        simpa [quotedLength?] using h
      simp [quotedLength?, ih hinner]
  | case3 text hslash =>
      rw [List.cons_append, quotedLength?_of_ne_slash hquote, if_pos rfl] at h ⊢
      exact h
  | case4 c text hslash hc hstop =>
      have hsign : c = '\n' ∨ c = '\\' := by simpa using hstop
      rcases hsign with rfl | rfl
      · rw [List.cons_append, quotedLength?_of_ne_slash (by decide), if_neg hc, if_pos rfl] at h
        exact absurd h.symm (Option.some_ne_none _)
      · -- A backslash that is the last character would take one from behind with it.
        cases text with
        | cons d text => exact absurd rfl (hslash d text rfl)
        | nil => cases rest <;> simp [quotedLength?, hc] at h
  | case5 c text hslash hc hstop ih =>
      have hne : c ≠ '\\' := by
        rintro rfl
        exact hstop (by simp)
      rw [List.cons_append, quotedLength?_of_ne_slash hne, if_neg hc] at h ⊢
      split at h
      · exact absurd h.symm (Option.some_ne_none _)
      · rename_i hline
        obtain ⟨inner, hinner, hlength⟩ := Option.map_eq_some_iff.mp h
        obtain rfl : inner = text.length := by simpa using hlength
        rw [if_neg hline, ih hinner]
        rfl

/-- A text without quotes, backslashes and line feeds stands in a literal as it is. -/
theorem quotedLength?_of_plain {text : Text} (hquote : quote ≠ '\\')
    (h : ∀ c ∈ text, c ≠ quote ∧ c ≠ '\\' ∧ c ≠ '\n') (rest : Text) :
    quotedLength? quote (text ++ quote :: rest) = some (text.length + 1) := by
  induction text with
  | nil =>
      rw [List.nil_append, quotedLength?_of_ne_slash hquote, if_pos rfl]
      rfl
  | cons c text ih =>
      obtain ⟨⟨hc, hslash, hline⟩, htext⟩ := List.forall_mem_cons.mp h
      rw [List.cons_append, quotedLength?_of_ne_slash hslash, if_neg hc, if_neg hline, ih htext]
      rfl

end

/-- A text without the end of a comment stands in a block comment as it is. -/
theorem blockLength?_of_plain {text : Text} (h : ¬ ['*', '/'] <:+: text) (rest : Text) :
    blockLength? (text ++ '*' :: '/' :: rest) = some (text.length + 2) := by
  induction text with
  | nil => rfl
  | cons c text ih =>
      have htext : ¬ ['*', '/'] <:+: text :=
        fun hwithin => h (hwithin.trans (List.suffix_cons c text).isInfix)
      have hopen : ∀ behind, c = '*' → text ++ '*' :: '/' :: rest = '/' :: behind → False := by
        rintro behind rfl hbehind
        cases text with
        | nil => exact absurd (List.cons.inj hbehind).1 (by decide)
        | cons d text =>
            obtain rfl := (List.cons.inj hbehind).1
            exact h ⟨[], text, rfl⟩
      rw [List.cons_append, blockLength?.eq_3 _ _ hopen, ih htext]
      rfl

/-! ### Which lexeme starts with a character -/

theorem lexemeAfter?_slash (rest : Text) : lexemeAfter? '/' ('/' :: rest)
    = some (.comment, (rest.takeWhile (· != '\n')).length + 1) := rfl

theorem lexemeAfter?_star (rest : Text) : lexemeAfter? '/' ('*' :: rest)
    = (blockLength? rest).map fun length => (.comment, length + 1) := rfl

theorem lexemeAfter?_apostrophe (rest : Text) : lexemeAfter? '\x27' rest
    = (quotedLength? '\x27' rest).map fun length => (.literal, length) := rfl

/-- Three quotes start a text block, or an empty literal if it is not closed. -/
theorem lexemeAfter?_quotes (rest : Text) : lexemeAfter? '"' ('"' :: '"' :: rest)
    = some (.literal, ((textBlockLength? rest).map (· + 2)).getD 1) := by
  show ((((textBlockLength? rest).map (· + 2)).or (some 1)).map fun length => (_, length)) = _
  cases (textBlockLength? rest).map (· + 2) <;> rfl

theorem lexemeAfter?_quote {rest : Text} (h : ∀ inside, rest ≠ '"' :: '"' :: inside) :
    lexemeAfter? '"' rest = (quotedLength? '"' rest).map fun length => (.literal, length) := by
  unfold lexemeAfter?
  rw [if_neg (by decide), if_pos rfl]
  split
  · rename_i inside
    exact absurd rfl (h inside)
  · rfl

/-- The characters that comments and literals start with. -/
def startsLexeme (c : Char) : Bool := c == '/' || c == '"' || c == '\x27'

theorem lexemeAfter?_of_code {c : Char} (h : startsLexeme c = false) (rest : Text) :
    lexemeAfter? c rest = none := by
  simp only [startsLexeme, Bool.or_eq_false_iff, beq_eq_false_iff_ne] at h
  unfold lexemeAfter?
  rw [if_neg h.1.1, if_neg h.1.2, if_neg h.2]

theorem lexemeAfter?_slash_of_code {rest : Text} (h : ∀ c ∈ rest.head?, c ≠ '/' ∧ c ≠ '*') :
    lexemeAfter? '/' rest = none := by
  cases rest with
  | nil => rfl
  | cons c rest =>
      obtain ⟨hslash, hstar⟩ := h c rfl
      unfold lexemeAfter?
      rw [if_pos rfl]
      split
      · rename_i heq
        exact absurd (List.cons.inj heq).1 hslash
      · rename_i heq
        exact absurd (List.cons.inj heq).1 hstar
      · rfl

/-- The comments and literals: the first character, what comes behind it, what it is, and how many
characters belong to it beside the first. -/
inductive LexemeAfter : Char → Text → LexemeKind → Nat → Prop
  /-- A comment to the end of the line. -/
  | lineComment (rest : Text) :
      LexemeAfter '/' ('/' :: rest) .comment ((rest.takeWhile (· != '\n')).length + 1)
  /-- A comment that is closed. -/
  | blockComment {rest : Text} {length : Nat} (closed : blockLength? rest = some length) :
      LexemeAfter '/' ('*' :: rest) .comment (length + 1)
  /-- A text block. -/
  | textBlock {rest : Text} {length : Nat} (closed : textBlockLength? rest = some length) :
      LexemeAfter '"' ('"' :: '"' :: rest) .literal (length + 2)
  /-- An empty string: of three quotes that open no text block, the first two. -/
  | emptyString {rest : Text} (unclosed : textBlockLength? rest = none) :
      LexemeAfter '"' ('"' :: '"' :: rest) .literal 1
  /-- A string. -/
  | string {rest : Text} {length : Nat} (single : ∀ inside, rest ≠ '"' :: '"' :: inside)
      (closed : quotedLength? '"' rest = some length) : LexemeAfter '"' rest .literal length
  /-- A character. -/
  | character {rest : Text} {length : Nat} (closed : quotedLength? '\x27' rest = some length) :
      LexemeAfter '\x27' rest .literal length

section

variable {c : Char} {rest : Text} {kind : LexemeKind} {length : Nat}

theorem LexemeAfter.lexemeAfter?_eq (h : LexemeAfter c rest kind length) :
    lexemeAfter? c rest = some (kind, length) := by
  cases h with
  | lineComment rest => exact lexemeAfter?_slash rest
  | blockComment closed => rw [lexemeAfter?_star, closed]; rfl
  | textBlock closed => rw [lexemeAfter?_quotes, closed]; rfl
  | emptyString unclosed => rw [lexemeAfter?_quotes, unclosed]; rfl
  | string single closed => rw [lexemeAfter?_quote single, closed]; rfl
  | character closed => rw [lexemeAfter?_apostrophe, closed]; rfl

theorem lexemeAfter_of_eq (h : lexemeAfter? c rest = some (kind, length)) :
    LexemeAfter c rest kind length := by
  have hstart : startsLexeme c = true := by
    cases hstart : startsLexeme c with
    | true => rfl
    | false =>
        rw [lexemeAfter?_of_code hstart] at h
        exact absurd h.symm (Option.some_ne_none _)
  simp only [startsLexeme, Bool.or_eq_true, beq_iff_eq] at hstart
  rcases hstart with (rfl | rfl) | rfl
  · have hsecond : ∃ d ∈ rest.head?, d = '/' ∨ d = '*' := by
      by_contra hnone
      push Not at hnone
      rw [lexemeAfter?_slash_of_code hnone] at h
      exact absurd h.symm (Option.some_ne_none _)
    obtain ⟨d, hd, hsign⟩ := hsecond
    obtain ⟨rest, rfl⟩ := List.head?_eq_some_iff.mp hd
    rcases hsign with rfl | rfl
    · rw [lexemeAfter?_slash] at h
      obtain ⟨rfl, rfl⟩ := Prod.mk.inj (Option.some.inj h)
      exact .lineComment rest
    · rw [lexemeAfter?_star] at h
      obtain ⟨inner, hinner, heq⟩ := Option.map_eq_some_iff.mp h
      obtain ⟨rfl, rfl⟩ := Prod.mk.inj heq
      exact .blockComment hinner
  · by_cases hdouble : ∃ inside, rest = '"' :: '"' :: inside
    · obtain ⟨rest, rfl⟩ := hdouble
      rw [lexemeAfter?_quotes] at h
      obtain ⟨rfl, rfl⟩ := Prod.mk.inj (Option.some.inj h)
      cases hblock : textBlockLength? rest with
      | none => exact .emptyString hblock
      | some inner => exact .textBlock hblock
    · push Not at hdouble
      rw [lexemeAfter?_quote hdouble] at h
      obtain ⟨inner, hinner, heq⟩ := Option.map_eq_some_iff.mp h
      obtain ⟨rfl, rfl⟩ := Prod.mk.inj heq
      exact .string hdouble hinner
  · rw [lexemeAfter?_apostrophe] at h
    obtain ⟨inner, hinner, heq⟩ := Option.map_eq_some_iff.mp h
    obtain ⟨rfl, rfl⟩ := Prod.mk.inj heq
    exact .character hinner

theorem LexemeAfter.bounds (h : LexemeAfter c rest kind length) :
    1 ≤ length ∧ length ≤ rest.length := by
  cases h with
  | lineComment rest =>
      have hprefix := (List.takeWhile_prefix (· != '\n') (l := rest)).length_le
      simp only [List.length_cons]
      omega
  | blockComment closed =>
      have hbounds := bounds_of_blockLength? closed
      simp only [List.length_cons]
      omega
  | textBlock closed =>
      have hbounds := bounds_of_textBlockLength? closed
      simp only [List.length_cons]
      omega
  | emptyString unclosed => simp
  | string single closed => exact bounds_of_quotedLength? closed
  | character closed => exact bounds_of_quotedLength? closed

end

/-- What a comment or literal is, and where it ends, stays as it is if the first character behind it
does, unless that is the quote behind a literal. -/
theorem LexemeAfter.append {c : Char} {tail rest other : Text} {kind : LexemeKind}
    (h : LexemeAfter c (tail ++ rest) kind tail.length) (hhead : rest.head? = other.head?)
    (hquote : kind = .literal → rest.head? ≠ some '"') :
    LexemeAfter c (tail ++ other) kind tail.length := by
  have hlength := h.bounds.1
  obtain ⟨d, tail, rfl⟩ := List.exists_cons_of_length_pos hlength
  generalize htext : d :: tail ++ rest = text at h
  generalize hsize : (d :: tail).length = size at h
  cases h with
  | lineComment behind =>
      obtain ⟨rfl, rfl⟩ := List.cons.inj htext
      obtain ⟨htail, hstop⟩ := takeWhile_append_of_length (Nat.succ.inj hsize).symm
      have hother : (tail ++ other).takeWhile (· != '\n') = tail :=
        takeWhile_append_of_stop htail (hhead ▸ hstop)
      have hcomment := LexemeAfter.lineComment (tail ++ other)
      rw [hother] at hcomment
      rw [← hsize]
      exact hcomment
  | @blockComment behind length closed =>
      obtain ⟨rfl, rfl⟩ := List.cons.inj htext
      obtain rfl := Nat.succ.inj hsize
      exact .blockComment (blockLength?_append closed other)
  | @textBlock behind length closed =>
      obtain ⟨rfl, hinside⟩ := List.cons.inj htext
      have hinner : tail.length = length + 1 := Nat.succ.inj hsize
      obtain ⟨e, tail, rfl⟩ := List.exists_cons_of_length_eq_add_one hinner
      obtain ⟨rfl, rfl⟩ := List.cons.inj hinside
      obtain rfl := Nat.succ.inj hinner
      exact .textBlock (textBlockLength?_append closed other)
  | @emptyString behind unclosed =>
      obtain rfl := List.length_eq_zero_iff.mp (Nat.succ.inj hsize)
      have hrest : rest = '"' :: behind := (List.cons.inj htext).2
      exact absurd (congrArg List.head? hrest) (hquote rfl)
  | string single closed =>
      subst htext hsize
      refine .string ?_ (quotedLength?_append (by decide) closed other)
      intro inside hinside
      cases tail with
      | nil =>
          have hother : other = '"' :: inside := (List.cons.inj hinside).2
          exact hquote rfl (hhead.trans (congrArg List.head? hother))
      | cons e tail =>
          obtain ⟨rfl, hsecond⟩ := List.cons.inj hinside
          obtain ⟨rfl, -⟩ := List.cons.inj hsecond
          exact single _ rfl
  | character closed =>
      subst htext hsize
      exact .character (quotedLength?_append (by decide) closed other)

/-! ### A lexeme and what comes behind it -/

/-- The lexeme is the first of a text that goes on with the rest. -/
inductive Begins : Lexeme → Text → Prop
  /-- A comment or literal. -/
  | opened {c : Char} {tail rest : Text} {kind : LexemeKind}
      (opens : LexemeAfter c (tail ++ rest) kind tail.length) : Begins ⟨kind, c :: tail⟩ rest
  /-- A character of code. -/
  | code {c : Char} {rest : Text} (none : lexemeAfter? c rest = none) : Begins ⟨.code, [c]⟩ rest

section

variable {lexeme next : Lexeme} {rest other : Text} {others : List Lexeme}

theorem Begins.lexemes_append (h : Begins lexeme rest) :
    lexemes (lexeme.text ++ rest) = lexeme :: lexemes rest := by
  cases h with
  | @opened c tail rest kind opens =>
      show lexemes (c :: (tail ++ rest)) = _
      rw [lexemes, opens.lexemeAfter?_eq]
      simp
  | @code c rest none =>
      show lexemes (c :: rest) = _
      rw [lexemes, none]

theorem begins_of_lexemes {source : Text} (h : lexemes source = lexeme :: others) :
    Begins lexeme (others.flatMap Lexeme.text) ∧ lexemes (others.flatMap Lexeme.text) = others := by
  cases source with
  | nil =>
      rw [lexemes] at h
      exact absurd h.symm (List.cons_ne_nil _ _)
  | cons c source =>
      rw [lexemes] at h
      cases hafter : lexemeAfter? c source with
      | none =>
          rw [hafter] at h
          obtain ⟨rfl, rfl⟩ := List.cons.inj h
          rw [flatMap_text_lexemes]
          exact ⟨.code hafter, rfl⟩
      | some found =>
          obtain ⟨kind, length⟩ := found
          rw [hafter] at h
          obtain ⟨rfl, rfl⟩ := List.cons.inj h
          have hopens := lexemeAfter_of_eq hafter
          have hlength : (source.take length).length = length :=
            List.length_take_of_le hopens.bounds.2
          rw [flatMap_text_lexemes]
          refine ⟨.opened ?_, rfl⟩
          rwa [List.take_append_drop, hlength]

/-- The lexeme and what comes behind it cannot be taken for anything else together. -/
structure Apart (lexeme : Lexeme) (rest : Text) : Prop where
  quote : lexeme ≠ ⟨.code, ['"']⟩
  apostrophe : lexeme ≠ ⟨.code, ['\x27']⟩
  opening : lexeme = ⟨.code, ['/']⟩ → rest.head? ≠ some '*'
  literal : lexeme.kind = .literal → rest.head? ≠ some '"'

/-- A lexeme stays as it is if the first character behind it does. -/
theorem Begins.congr (h : Begins lexeme rest) (hapart : Apart lexeme rest)
    (hhead : rest.head? = other.head?) : Begins lexeme other := by
  cases h with
  | opened opens => exact .opened (opens.append hhead hapart.literal)
  | @code c rest none =>
      apply Begins.code
      by_cases hslash : c = '/'
      · subst hslash
        apply lexemeAfter?_slash_of_code
        intro d hd
        obtain ⟨behind, rfl⟩ := List.head?_eq_some_iff.mp (hhead.trans hd)
        constructor
        · rintro rfl
          exact absurd none (by rw [lexemeAfter?_slash]; exact Option.some_ne_none _)
        · rintro rfl
          exact hapart.opening rfl rfl
      · apply lexemeAfter?_of_code
        have hquote : c ≠ '"' := fun hc => hapart.quote (by rw [hc])
        have hapostrophe : c ≠ '\x27' := fun hc => hapart.apostrophe (by rw [hc])
        simp [startsLexeme, hslash, hquote, hapostrophe]

/-- A lexeme that starts like code is code. -/
theorem Begins.eq_code {c : Char} (h : Begins lexeme rest) (hhead : lexeme.text.head? = some c)
    (hc : startsLexeme c = false) : lexeme = ⟨.code, [c]⟩ := by
  cases h with
  | @opened d tail rest kind opens =>
      obtain rfl : d = c := Option.some.inj hhead
      have hnone := opens.lexemeAfter?_eq.symm.trans (lexemeAfter?_of_code hc _)
      exact absurd hnone (Option.some_ne_none _)
  | @code d rest none =>
      obtain rfl : d = c := Option.some.inj hhead
      rfl

/-- A lexeme that starts with a quote is a literal, or code. -/
theorem Begins.literal_or_code (h : Begins lexeme rest) (hhead : lexeme.text.head? = some '"') :
    lexeme.kind = .literal ∨ lexeme = ⟨.code, ['"']⟩ := by
  cases h with
  | @opened c tail rest kind opens =>
      obtain rfl : c = '"' := Option.some.inj hhead
      generalize tail ++ rest = text at opens
      generalize tail.length = length at opens
      cases opens <;> exact .inl rfl
  | @code c rest none =>
      obtain rfl : c = '"' := Option.some.inj hhead
      exact .inr rfl

end

/-! ### Sources without loose quotes -/

/-- No quote and no opening of a comment is code, and no literal starts where another one ends. -/
structure Clean (lexemes : List Lexeme) : Prop where
  /-- All quotes belong to comments and literals. -/
  quotes : ∀ lexeme ∈ lexemes, lexeme ≠ ⟨.code, ['"']⟩ ∧ lexeme ≠ ⟨.code, ['\x27']⟩
  /-- All block comments are closed. -/
  openings : lexemes.IsChain fun first second =>
    ¬ (first = ⟨.code, ['/']⟩ ∧ second = ⟨.code, ['*']⟩)
  /-- Literals are apart from one another. -/
  literals : lexemes.IsChain fun first second => ¬ (first.kind = .literal ∧ second.kind = .literal)

theorem Clean.tail {lexeme : Lexeme} {others : List Lexeme} (h : Clean (lexeme :: others)) :
    Clean others :=
  ⟨fun other hother => h.quotes other (List.mem_cons_of_mem _ hother), h.openings.tail,
    h.literals.tail⟩

theorem Clean.apart {lexeme : Lexeme} {others : List Lexeme} (h : Clean (lexeme :: others))
    (hothers : lexemes (others.flatMap Lexeme.text) = others) :
    Apart lexeme (others.flatMap Lexeme.text) := by
  obtain ⟨hquote, hapostrophe⟩ := h.quotes lexeme List.mem_cons_self
  cases others with
  | nil => exact ⟨hquote, hapostrophe, fun _ => by simp, fun _ => by simp⟩
  | cons next others =>
      have hnext := (begins_of_lexemes hothers).1
      have hhead : ∀ c, ((next :: others).flatMap Lexeme.text).head? = some c →
          next.text.head? = some c := by
        intro c hc
        cases hnext <;> simpa using hc
      refine ⟨hquote, hapostrophe, ?_, ?_⟩
      · intro hslash hstar
        have hcode := hnext.eq_code (hhead _ hstar) (by decide)
        exact (List.isChain_cons_cons.mp h.openings).1 ⟨hslash, hcode⟩
      · intro hliteral hdouble
        rcases hnext.literal_or_code (hhead _ hdouble) with hkind | hcode
        · exact (List.isChain_cons_cons.mp h.literals).1 ⟨hliteral, hkind⟩
        · exact (h.quotes next (by simp)).1 hcode

/-! ### Other insides -/

/-- The texts have the same length, and line feeds at the same places. -/
def SameLines (old new : Text) : Prop := old.map (· == '\n') = new.map (· == '\n')

/-- A comment or literal, and the same with another inside. -/
inductive Refilled : Lexeme → Lexeme → Prop
  /-- A line comment. -/
  | lineComment {old new : Text} (lines : SameLines old new) :
      Refilled ⟨.comment, '/' :: '/' :: old⟩ ⟨.comment, '/' :: '/' :: new⟩
  /-- A block comment that ends only at its own end. -/
  | blockComment {old new : Text} (lines : SameLines old new) (closed : ¬ ['*', '/'] <:+: new) :
      Refilled ⟨.comment, '/' :: '*' :: (old ++ ['*', '/'])⟩
        ⟨.comment, '/' :: '*' :: (new ++ ['*', '/'])⟩
  /-- A literal that gets an inside on one line, without quotes and backslashes. -/
  | literal {quote : Char} {old new : Text} (lines : SameLines old new)
      (sign : quote = '"' ∨ quote = '\x27')
      (plain : ∀ c ∈ new, c ≠ quote ∧ c ≠ '\\' ∧ c ≠ '\n') :
      Refilled ⟨.literal, quote :: (old ++ [quote])⟩ ⟨.literal, quote :: (new ++ [quote])⟩

theorem SameLines.within {old new : Text} (h : SameLines old new) (front back : Text) :
    SameLines (front ++ (old ++ back)) (front ++ (new ++ back)) := by
  unfold SameLines at h ⊢
  simp only [List.map_append, h]

theorem SameLines.blanked_eq {old new : Text} (h : SameLines old new) :
    blanked old = blanked new := by
  have hblanked : ∀ text, blanked text
      = (text.map (· == '\n')).map fun isLine => if isLine then '\n' else ' ' := by
    intro text
    rw [List.map_map]
    exact List.map_congr_left fun c _ => by by_cases hc : c = '\n' <;> simp [hc]
  rw [hblanked, hblanked, h]

theorem SameLines.mem_iff {old new : Text} (h : SameLines old new) : '\n' ∈ old ↔ '\n' ∈ new := by
  have hmem : ∀ text : Text, '\n' ∈ text ↔ true ∈ text.map (· == '\n') := by
    intro text
    simp
  rw [hmem, hmem, h]

namespace Refilled

variable {old new : Lexeme} {rest : Text}

theorem head?_eq (h : Refilled old new) : old.text.head? = new.text.head? := by
  cases h <;> rfl

/-- With another inside, a comment or literal is as blank as before. -/
theorem blanked_eq (h : Refilled old new) : old.blanked = new.blanked := by
  cases h with
  | lineComment lines =>
      have hlines := (lines.within ['/', '/'] []).blanked_eq
      rw [List.append_nil, List.append_nil] at hlines
      exact hlines
  | blockComment lines closed => exact (lines.within ['/', '*'] ['*', '/']).blanked_eq
  | @literal quote old new lines sign plain =>
      have hlast : ∀ text, (⟨.literal, quote :: (text ++ [quote])⟩ : Lexeme).blanked
          = quote :: (Code.blanked text ++ [quote]) := by
        intro text
        simp [Lexeme.blanked]
      rw [hlast, hlast, lines.blanked_eq]

/-- With another inside, a comment or literal ends where it did. -/
theorem begins (h : Refilled old new) (hold : Begins old rest) (hapart : Apart old rest) :
    Begins new rest := by
  cases h with
  | @lineComment old new lines =>
      obtain ⟨opens⟩ := hold
      have hafter := opens.lexemeAfter?_eq
      rw [List.cons_append, lexemeAfter?_slash] at hafter
      have hlength := Nat.succ.inj (Prod.mk.inj (Option.some.inj hafter)).2
      obtain ⟨hinside, hstop⟩ := takeWhile_append_of_length hlength
      have hline : '\n' ∉ new := by
        rw [← lines.mem_iff]
        exact fun hmem => absurd (hinside _ hmem) (by decide)
      have hnew : (new ++ rest).takeWhile (· != '\n') = new := by
        refine takeWhile_append_of_stop ?_ hstop
        intro c hc
        rw [bne_iff_ne]
        rintro rfl
        exact hline hc
      have hcomment := LexemeAfter.lineComment (new ++ rest)
      rw [hnew] at hcomment
      exact Begins.opened hcomment
  | @blockComment old new lines closed =>
      have hlength := blockLength?_of_plain closed rest
      have hcomment : LexemeAfter '/' ('*' :: (new ++ ['*', '/']) ++ rest) .comment
          ('*' :: (new ++ ['*', '/'])).length := by
        simpa using LexemeAfter.blockComment hlength
      exact .opened hcomment
  | @literal quote old new lines sign plain =>
      have hslash : quote ≠ '\\' := by
        rcases sign with rfl | rfl <;> decide
      have hclosed := quotedLength?_of_plain hslash plain rest
      refine Begins.opened ?_
      rw [List.length_append, List.append_assoc, List.singleton_append]
      rcases sign with rfl | rfl
      · refine .string ?_ hclosed
        intro inside hinside
        cases new with
        | nil => exact hapart.literal rfl (congrArg List.head? (List.cons.inj hinside).2)
        | cons c new => exact (plain c List.mem_cons_self).1 (List.cons.inj hinside).1
      · exact .character hclosed

end Refilled

theorem head?_flatMap_refilled {front back : List Lexeme} {old new : Lexeme}
    (h : old.text.head? = new.text.head?) :
    ((front ++ old :: back).flatMap Lexeme.text).head?
      = ((front ++ new :: back).flatMap Lexeme.text).head? := by
  induction front with
  | nil => simp [List.head?_append, h]
  | cons lexeme front ih =>
      rw [List.cons_append, List.cons_append, List.flatMap_cons, List.flatMap_cons,
        List.head?_append, List.head?_append, ih]

/-- **With another inside in one of them, all lexemes stay what they are.** -/
theorem lexemes_refilled {front back : List Lexeme} {old new : Lexeme}
    (hlexemes : lexemes ((front ++ old :: back).flatMap Lexeme.text) = front ++ old :: back)
    (hclean : Clean (front ++ old :: back)) (hrefilled : Refilled old new) :
    lexemes ((front ++ new :: back).flatMap Lexeme.text) = front ++ new :: back := by
  induction front with
  | nil =>
      obtain ⟨hold, hback⟩ := begins_of_lexemes hlexemes
      have hnew := hrefilled.begins hold (hclean.apart hback)
      rw [List.nil_append, List.flatMap_cons, hnew.lexemes_append, hback]
  | cons lexeme front ih =>
      obtain ⟨hlexeme, hothers⟩ := begins_of_lexemes hlexemes
      have hnew := ih hothers hclean.tail
      have hkept := hlexeme.congr (hclean.apart hothers)
        (head?_flatMap_refilled hrefilled.head?_eq)
      rw [List.cons_append, List.flatMap_cons, hkept.lexemes_append, hnew]

/-- **What stands in comments and literals is not seen.** -/
theorem diagram_read_refilled {source : Text} {front back : List Lexeme} {old new : Lexeme}
    (hlexemes : lexemes source = front ++ old :: back) (hclean : Clean (lexemes source))
    (hrefilled : Refilled old new) (title : Text) (diagonal : Option Diagonal) :
    (read ((front ++ new :: back).flatMap Lexeme.text) title diagonal).diagram
      = (read source title diagonal).diagram := by
  have hsource : (front ++ old :: back).flatMap Lexeme.text = source := by
    rw [← hlexemes, flatMap_text_lexemes]
  have hnew := lexemes_refilled (hsource ▸ hlexemes) (hlexemes ▸ hclean) hrefilled
  have hblank : blankLiterals ((front ++ new :: back).flatMap Lexeme.text)
      = blankLiterals source := by
    unfold blankLiterals
    rw [hnew, hlexemes]
    simp only [List.flatMap_append, List.flatMap_cons, hrefilled.blanked_eq]
  unfold read
  rw [hblank]

/-- A class with a field that holds a character. -/
def letterSource : Text := "class A \x7b char c = 'x'; \x7d".toList

/-- The class with a brace in place of the letter. -/
def braceSource : Text := "class A \x7b char c = '\x7d'; \x7d".toList

theorem diagram_read_refilled_brace :
    (read braceSource "Letters".toList none).diagram
      = (read letterSource "Letters".toList none).diagram := by
  have hlexemes : lexemes letterSource
      = "class A \x7b char c = ".toList.map (fun c => ⟨.code, [c]⟩)
        ++ ⟨.literal, '\x27' :: (['x'] ++ ['\x27'])⟩ :: "; \x7d".toList.map fun c =>
          ⟨.code, [c]⟩ := by
    decide +kernel
  have hclean : Clean (lexemes letterSource) := by
    rw [hlexemes]
    exact ⟨by decide, by decide, by decide⟩
  have hrefilled : Refilled ⟨.literal, '\x27' :: (['x'] ++ ['\x27'])⟩
      ⟨.literal, '\x27' :: (['\x7d'] ++ ['\x27'])⟩ :=
    .literal rfl (.inr rfl) (List.forall_mem_singleton.mpr (by decide))
  exact diagram_read_refilled hlexemes hclean hrefilled "Letters".toList none

end Diagrams.Code
