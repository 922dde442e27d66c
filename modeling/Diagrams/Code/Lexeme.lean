/-
Comments and literals of a source text.

A source is read from left to right as a sequence of lexemes: a comment, a literal, or one
character of code.  A comment or literal that is not closed is none, and its first character is
code.  `blankLiterals` puts blanks in place of what stands in comments and literals, so that
nothing in there is taken for structure; places and line feeds stay where they are.
-/
import Diagrams.Text.Basic

namespace Diagrams.Code

/-- What a lexeme is. -/
inductive LexemeKind
  | code
  | comment
  | literal
  deriving DecidableEq, Repr

/-- A stretch of a source. -/
structure Lexeme where
  /-- What it is. -/
  kind : LexemeKind
  /-- Its characters. -/
  text : Text
  deriving DecidableEq, Repr

/-- How many characters a block comment takes after its opening. -/
def blockLength? : Text → Option Nat
  | [] => none
  | '*' :: '/' :: _ => some 2
  | _ :: rest => (blockLength? rest).map (· + 1)

/-- How many characters a text block takes after its three opening quotes.  A backslash takes the
next character with it. -/
def textBlockLength? : Text → Option Nat
  | [] => none
  | '"' :: '"' :: '"' :: _ => some 3
  | '\\' :: _ :: rest => (textBlockLength? rest).map (· + 2)
  | '\\' :: [] => none
  | _ :: rest => (textBlockLength? rest).map (· + 1)

/-- How many characters a literal on one line takes after its opening quote.  A backslash takes
the next character with it, a line feed too. -/
def quotedLength? (quote : Char) : Text → Option Nat
  | [] => none
  | '\\' :: _ :: rest => (quotedLength? quote rest).map (· + 2)
  | c :: rest =>
    if c = quote then some 1
    else if c = '\n' || c = '\\' then none
    else (quotedLength? quote rest).map (· + 1)

/-- The comment or literal that starts with the given character: what it is, and how many of the
characters after the first belong to it. -/
def lexemeAfter? (first : Char) (rest : Text) : Option (LexemeKind × Nat) :=
  if first = '/' then
    match rest with
    | '/' :: _ => some (.comment, (rest.takeWhile (· != '\n')).length)
    | '*' :: inside => (blockLength? inside).map fun length => (.comment, length + 1)
    | _ => none
  else if first = '"' then
    let textBlock := match rest with
      | '"' :: '"' :: inside => (textBlockLength? inside).map (· + 2)
      | _ => none
    ((textBlock.or (quotedLength? '"' rest))).map fun length => (.literal, length)
  else if first = '\x27' then
    (quotedLength? '\x27' rest).map fun length => (.literal, length)
  else none

/-- The lexemes of a source, in order. -/
def lexemes : Text → List Lexeme
  | [] => []
  | c :: rest =>
    match lexemeAfter? c rest with
    | some (kind, length) => ⟨kind, c :: rest.take length⟩ :: lexemes (rest.drop length)
    | none => ⟨.code, [c]⟩ :: lexemes rest
termination_by source => source.length

/-- Together the lexemes of a source are the source. -/
theorem flatMap_text_lexemes (source : Text) : (lexemes source).flatMap Lexeme.text = source := by
  induction source using lexemes.induct with
  | case1 => simp [lexemes]
  | case2 c rest kind length h ih => simp [lexemes, h, ih]
  | case3 c rest h ih => simp [lexemes, h, ih]

/-- A text with a space in place of everything but line feeds. -/
def blanked (text : Text) : Text := text.map fun c => if c = '\n' then '\n' else ' '

/-- A lexeme as structure is read from it: a comment is blank, a literal keeps its first and last
character. -/
def Lexeme.blanked (lexeme : Lexeme) : Text :=
  match lexeme.kind, lexeme.text with
  | .code, text => text
  | .comment, text => Code.blanked text
  | .literal, [] => []
  | .literal, first :: rest => first :: (Code.blanked rest.dropLast ++ rest.getLast?.toList)

/-- A source with blanks in place of its comments and of the insides of its literals. -/
def blankLiterals (source : Text) : Text := (lexemes source).flatMap Lexeme.blanked

end Diagrams.Code
