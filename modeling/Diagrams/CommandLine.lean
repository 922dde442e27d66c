/-
The command line: two arguments, the kind of the input and where it stands, and options anywhere
between them.

An argument that starts with a minus is an option, with these exceptions: a minus alone, a
negative number, and an unknown option with a space in it are arguments.  A long option may be
shortened as long as only one option starts that way; short options may be written together.
After a double minus every argument counts as one; the double minus itself is left out, and a
second one in the place of the input says that there is none.
-/
import Diagrams.Drawing

namespace Diagrams.CommandLine

/-- An option. -/
inductive Flag
  | json
  | verbose
  | help
  deriving DecidableEq, Repr

/-- The long name of an option. -/
def Flag.long : Flag → Text
  | json => "--json".toList
  | verbose => "--verbose".toList
  | help => "--help".toList

/-- The letter of an option. -/
def Flag.letter? : Flag → Option Char
  | json => none
  | verbose => some 'v'
  | help => some 'h'

/-- All options. -/
def Flag.all : List Flag := [json, verbose, help]

/-- Where the input stands. -/
inductive Source
  | standardInput
  | path (path : Text)
  /-- A second double minus stands in the place of the input. -/
  | nowhere
  deriving DecidableEq, Repr

/-- The source that an argument names; a minus is the standard input. -/
def Source.ofText (text : Text) : Source :=
  if text = ['-'] then standardInput else path text

/-- What the command line asks for. -/
structure Arguments where
  /-- The kind of the input. -/
  kind : InputKind
  /-- Where the input stands. -/
  input : Source
  /-- Whether a document is printed. -/
  asJson : Bool
  /-- Whether all notices are shown. -/
  verbose : Bool
  deriving DecidableEq, Repr

/-- Why nothing is run. -/
inductive Refusal
  /-- Help is asked for. -/
  | help
  /-- The command line is not understood. -/
  | usage
  deriving DecidableEq, Repr

/-- One word of the command line. -/
inductive Word
  /-- An argument. -/
  | value (text : Text)
  /-- Options; after those that are known an unknown one may stand. -/
  | options (known : List Flag) (hasUnknown : Bool)
  /-- A known option that is given a value. -/
  | overfull
  /-- The beginning of several long options. -/
  | ambiguous
  deriving DecidableEq, Repr

/-- Whether a text is a negative number: a minus and digits, or a minus, digits that may be
missing, a point and digits. -/
def isNegativeNumber (text : Text) : Bool :=
  match text with
  | '-' :: rest =>
    let body := if rest.getLast? = some '\n' then rest.dropLast else rest
    let whole := body.takeWhile isDecimalDigit
    match body.dropWhile isDecimalDigit with
    | [] => !whole.isEmpty
    | '.' :: fraction => !fraction.isEmpty && fraction.all isDecimalDigit
    | _ => false
  | _ => false

/-- The option that a letter stands for. -/
def Flag.ofLetter? (letter : Char) : Option Flag :=
  all.find? fun flag => flag.letter? = some letter

/-- Read the letters of short options that are written together.  The first letter that stands for
no option ends them, but an equals sign or a minus in its place would give the option before it a
value. -/
def Word.ofLetters (known : List Flag) : Text → Word
  | [] => options known false
  | letter :: letters =>
    match Flag.ofLetter? letter with
    | some flag => ofLetters (known ++ [flag]) letters
    | none => if letter = '=' || letter = '-' then overfull else options known true

/-- Read one word in front of a double minus. -/
def Word.ofText (text : Text) : Word :=
  match text with
  | '-' :: '-' :: _ =>
    let name := text.takeWhile (· != '=')
    match Flag.all.filter fun flag => name.isPrefixOf flag.long with
    | [] => if text.contains ' ' then value text else options [] true
    | [flag] => if text.contains '=' then overfull else options [flag] false
    | _ => ambiguous
  | '-' :: letter :: letters =>
    match Flag.ofLetter? letter with
    | some flag => ofLetters [flag] letters
    | none =>
      if isNegativeNumber text || text.contains ' ' then value text else options [] true
  | _ => value text

/-- What has been read of the command line. -/
structure Taken where
  /-- The kind of the input. -/
  kind : Option InputKind := none
  /-- Where the input stands. -/
  input : Option Source := none
  /-- Whether a document is printed. -/
  asJson : Bool := false
  /-- Whether all notices are shown. -/
  verbose : Bool := false
  /-- Whether there are words that belong nowhere. -/
  hasExtra : Bool := false

/-- The kind of input that a word names. -/
def kindOf? (word : Text) : Option InputKind :=
  if word = "sql".toList then some .schema
  else if word = "java".toList then some .code
  else none

namespace Taken

/-- Whether both arguments are there. -/
def isFull (state : Taken) : Bool := state.kind.isSome && state.input.isSome

/-- Remember that a word belongs nowhere. -/
def addExtra (state : Taken) : Taken := { state with hasExtra := true }

/-- Take the next argument. -/
def takeValue (state : Taken) (text : Text) : Except Refusal Taken :=
  match state.kind, state.input with
  | none, _ =>
    match kindOf? text with
    | some kind => .ok { state with kind := some kind }
    | none => .error .usage
  | some _, none => .ok { state with input := some (.ofText text) }
  | some _, some _ => .ok state.addExtra

/-- Take an option. -/
def takeFlag (state : Taken) : Flag → Except Refusal Taken
  | .json => .ok { state with asJson := true }
  | .verbose => .ok { state with verbose := true }
  | .help => .error .help

/-- Take a word. -/
def takeWord (state : Taken) : Word → Except Refusal Taken
  | .value text => state.takeValue text
  | .options known hasUnknown =>
    known.foldlM takeFlag (if hasUnknown then state.addExtra else state)
  | .overfull => .error .usage
  | .ambiguous => .error .usage

/-- Take an argument after the double minus.  Directly after it any text is an argument, but a
second double minus further on stands for no input. -/
def takeLate (state : Taken) (text : Text) : Except Refusal Taken :=
  if text = ['-', '-'] && state.kind.isSome && state.input.isNone then
    .ok { state with input := some .nowhere }
  else state.takeValue text

/-- What the command line asks for, if it is complete and nothing is left over. -/
def finish (state : Taken) : Except Refusal Arguments :=
  match state.kind, state.input with
  | some kind, some input =>
    if state.hasExtra then .error .usage
    else .ok { kind, input, asJson := state.asJson, verbose := state.verbose }
  | _, _ => .error .usage

end Taken

/-- Whether a word is an argument. -/
def Word.isValue : Word → Bool
  | value _ => true
  | _ => false

/-- Read a command line.  An ambiguous word makes the rest of the line count for nothing.  A double
minus belongs to the arguments after the last option; if both arguments stand in front of that
option, it belongs nowhere. -/
def read (line : List Text) : Except Refusal Arguments := do
  let words := (line.takeWhile (· ≠ ['-', '-'])).map Word.ofText
  if words.contains .ambiguous then throw .usage
  let late := (line.dropWhile (· ≠ ['-', '-'])).drop 1
  let hasSeparator := line.contains ['-', '-']
  let values := (words.reverse.takeWhile Word.isValue).reverse
  let front := words.take (words.length - values.length)
  let afterFront ← front.foldlM Taken.takeWord {}
  let start := if hasSeparator && afterFront.isFull then afterFront.addExtra else afterFront
  let afterValues ← values.foldlM Taken.takeWord start
  let afterFirst ← match values, late with
    | [], text :: _ => afterValues.takeValue text
    | _, _ => pure afterValues
  let remaining := if values.isEmpty then late.drop 1 else late
  (← remaining.foldlM Taken.takeLate afterFirst).finish

end Diagrams.CommandLine
