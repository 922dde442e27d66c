/-
The body of a type, cut into the declarations of its members.

A declaration ends at a semicolon or at the brace that opens a block, and the block is passed
over.  A block after an equals sign belongs to the value of a field, which goes on to its
semicolon; an empty block is left in its place.
-/
import Diagrams.Brackets

namespace Diagrams.Code

/-- What ends a declaration. -/
inductive Terminator
  | semicolon
  | block
  deriving DecidableEq, Repr

/-- The character that ends a declaration. -/
def Terminator.char : Terminator → Char
  | semicolon => ';'
  | block => '\x7b'

/-- The declaration of a member. -/
structure Declaration where
  /-- Its text, up to what ends it. -/
  text : Text
  /-- What ends it. -/
  terminator : Terminator
  deriving DecidableEq, Repr

/-- The block that a declaration leaves behind in the value of a field. -/
def emptyBlock : Text := [' ', '\x7b', '\x7d', ' ']

/-- The declarations in a body.  The first argument is the text in front of the body since the
last declaration, nearest character first. -/
def declarationsAfter (before : Text) : Text → List Declaration
  | [] => []
  | c :: rest =>
    if c = ';' then ⟨Text.trim before.reverse, .semicolon⟩ :: declarationsAfter [] rest
    else if c = '\x7b' then
      let blockEnd := Brackets.curly.closing? (c :: rest) 0
      if before.contains '=' then
        match blockEnd with
        | some stop => declarationsAfter (emptyBlock.reverse ++ before) (rest.drop stop)
        | none => []
      else
        ⟨Text.trim before.reverse, .block⟩ ::
          match blockEnd with
          | some stop => declarationsAfter [] (rest.drop stop)
          | none => []
    else if c = '\x7d' then declarationsAfter [] rest
    else declarationsAfter (c :: before) rest
termination_by body => body.length

/-- The declarations of the members in a body, without the blank ones. -/
def memberDeclarations (body : Text) : List Declaration :=
  (declarationsAfter [] body).filter fun declaration => !declaration.text.isEmpty

end Diagrams.Code
