/-
How a body is cut into declarations.

The cut reads a body from left to right and keeps the text since the last declaration.  Of this text
only one thing is asked, whether there is an equals sign in it: then a block belongs to a value, and
otherwise it ends the declaration.  In both cases the block is jumped over by a scan for its closing
brace, so nothing in it is seen, be it semicolons, braces in quotes or other blocks.

So the kept text is empty at the start of every member, and a body made of members falls apart into
exactly their declarations (`memberDeclarations_flatMap`).
-/
import Mathlib.Data.Bool.AllAny
import Diagrams.Code.Body
import Diagrams.Proofs.Brackets

namespace Diagrams.Code

section

variable {front inside : Text}

/-! ### One step of the cut -/

/-- What ends no declaration and opens no block goes on with the text in front of it. -/
theorem declarationsAfter_plain (h : ∀ c ∈ front, c ≠ ';' ∧ c ≠ '\x7b' ∧ c ≠ '\x7d')
    (before rest : Text) :
    declarationsAfter before (front ++ rest)
      = declarationsAfter (front.reverse ++ before) rest := by
  induction front generalizing before with
  | nil => rfl
  | cons c front ih =>
      obtain ⟨⟨semicolon, opening, closing⟩, hfront⟩ := List.forall_mem_cons.mp h
      rw [List.cons_append, declarationsAfter, if_neg semicolon, if_neg opening, if_neg closing,
        ih hfront, List.reverse_cons, List.append_assoc, List.singleton_append]

theorem declarationsAfter_semicolon (before rest : Text) :
    declarationsAfter before (';' :: rest)
      = ⟨Text.trim before.reverse, .semicolon⟩ :: declarationsAfter [] rest := by
  rw [declarationsAfter, if_pos rfl]

/-- A block that closes does so in front of any text. -/
theorem closing?_block
    (h : Brackets.curly.closing? ('\x7b' :: (inside ++ ['\x7d'])) 0 = some (inside.length + 1))
    (rest : Text) :
    Brackets.curly.closing? ('\x7b' :: (inside ++ '\x7d' :: rest)) 0
      = some (inside.length + 1) := by
  simpa using Brackets.closing?_append h rest

theorem drop_block (inside rest : Text) :
    (inside ++ '\x7d' :: rest).drop (inside.length + 1) = rest := by
  rw [← List.drop_drop, List.drop_left]
  rfl

section

variable {before : Text}
  (hclosed : Brackets.curly.closing? ('\x7b' :: (inside ++ ['\x7d'])) 0 = some (inside.length + 1))

include hclosed

/-- A block behind a text without an equals sign ends the declaration. -/
theorem declarationsAfter_closed (hequals : '=' ∉ before) (rest : Text) :
    declarationsAfter before ('\x7b' :: (inside ++ '\x7d' :: rest))
      = ⟨Text.trim before.reverse, .block⟩ :: declarationsAfter [] rest := by
  have hcontains : before.contains '=' = false := by simpa using hequals
  rw [declarationsAfter, if_neg (by decide), if_pos rfl, closing?_block hclosed, hcontains]
  simp only [Bool.false_eq_true, if_false, drop_block]

/-- A block behind an equals sign leaves an empty block in its place. -/
theorem declarationsAfter_value (hequals : '=' ∈ before) (rest : Text) :
    declarationsAfter before ('\x7b' :: (inside ++ '\x7d' :: rest))
      = declarationsAfter (emptyBlock.reverse ++ before) rest := by
  have hcontains : before.contains '=' = true := List.contains_iff_mem.mpr hequals
  rw [declarationsAfter, if_neg (by decide), if_pos rfl, closing?_block hclosed, hcontains]
  simp only [if_true, drop_block]

end

end

/-! ### Members -/

/-- A member of a body, by what its declaration goes up to. -/
inductive BodyMember
  /-- It goes up to a semicolon. -/
  | plain (text : Text)
  /-- It goes up to a block, as that of a method or of a declared type. -/
  | block (text inside : Text)
  /-- It has a block in its value and goes up to the semicolon behind that. -/
  | value (text inside after : Text)

namespace BodyMember

/-- How a member is written. -/
def text : BodyMember → Text
  | plain text => text ++ [';']
  | block text inside => text ++ '\x7b' :: (inside ++ ['\x7d'])
  | value text inside after => text ++ '\x7b' :: (inside ++ '\x7d' :: (after ++ [';']))

/-- The declaration of a member.  What stands in its block is no part of it. -/
def declaration : BodyMember → Declaration
  | plain text => ⟨Text.trim text, .semicolon⟩
  | block text _ => ⟨Text.trim text, .block⟩
  | value text _ after => ⟨Text.trim (text ++ emptyBlock ++ after), .semicolon⟩

/-- What a member is made of: texts without semicolons and braces, and a block whose opening brace
is closed by its last character.  A block belongs to a value if there is an equals sign in front. -/
inductive WellFormed : BodyMember → Prop
  | plain {text : Text} (level : ∀ c ∈ text, c ≠ ';' ∧ c ≠ '\x7b' ∧ c ≠ '\x7d') :
      WellFormed (.plain text)
  | block {text inside : Text} (level : ∀ c ∈ text, c ≠ ';' ∧ c ≠ '\x7b' ∧ c ≠ '\x7d')
      (equals : '=' ∉ text)
      (closed : Brackets.curly.closing? ('\x7b' :: (inside ++ ['\x7d'])) 0
        = some (inside.length + 1)) :
      WellFormed (.block text inside)
  | value {text inside after : Text} (level : ∀ c ∈ text, c ≠ ';' ∧ c ≠ '\x7b' ∧ c ≠ '\x7d')
      (equals : '=' ∈ text)
      (closed : Brackets.curly.closing? ('\x7b' :: (inside ++ ['\x7d'])) 0
        = some (inside.length + 1))
      (levelAfter : ∀ c ∈ after, c ≠ ';' ∧ c ≠ '\x7b' ∧ c ≠ '\x7d') :
      WellFormed (.value text inside after)

/-- A member is cut out as its declaration, and behind it the cut starts anew. -/
theorem declarationsAfter_text {member : BodyMember} (h : member.WellFormed) (rest : Text) :
    declarationsAfter [] (member.text ++ rest)
      = member.declaration :: declarationsAfter [] rest := by
  cases h with
  | @plain text level =>
      have htext : (BodyMember.plain text).text ++ rest = text ++ ';' :: rest := by
        simp [BodyMember.text]
      rw [htext, declarationsAfter_plain level, declarationsAfter_semicolon, List.append_nil,
        List.reverse_reverse]
      rfl
  | @block text inside level equals closed =>
      have htext : (BodyMember.block text inside).text ++ rest
          = text ++ '\x7b' :: (inside ++ '\x7d' :: rest) := by simp [BodyMember.text]
      have hequals : '=' ∉ text.reverse := fun hmem => equals (List.mem_reverse.mp hmem)
      rw [htext, declarationsAfter_plain level, List.append_nil,
        declarationsAfter_closed closed hequals, List.reverse_reverse]
      rfl
  | @value text inside after level equals closed levelAfter =>
      have htext : (BodyMember.value text inside after).text ++ rest
          = text ++ '\x7b' :: (inside ++ '\x7d' :: (after ++ ';' :: rest)) := by
            simp [BodyMember.text]
      have hequals : '=' ∈ text.reverse := List.mem_reverse.mpr equals
      -- The text that is kept behind the block, read forwards.
      have hkept : (after.reverse ++ (emptyBlock.reverse ++ text.reverse)).reverse
          = text ++ emptyBlock ++ after := by
        rw [List.reverse_append, List.reverse_append, List.reverse_reverse, List.reverse_reverse,
          List.reverse_reverse]
      rw [htext, declarationsAfter_plain level, List.append_nil,
        declarationsAfter_value closed hequals, declarationsAfter_plain levelAfter,
        declarationsAfter_semicolon, hkept]
      rfl

end BodyMember

theorem declarationsAfter_flatMap_text {members : List BodyMember}
    (h : ∀ member ∈ members, member.WellFormed) :
    declarationsAfter [] (members.flatMap BodyMember.text)
      = members.map BodyMember.declaration := by
  induction members with
  | nil =>
      rw [List.flatMap_nil, declarationsAfter]
      rfl
  | cons member members ih =>
      obtain ⟨hfirst, hothers⟩ := List.forall_mem_cons.mp h
      rw [List.flatMap_cons, BodyMember.declarationsAfter_text hfirst, ih hothers, List.map_cons]

/-- **A body is cut into the declarations of its members, in their order and without the blank
ones.**  What stands in the blocks has no part in it. -/
theorem memberDeclarations_flatMap {members : List BodyMember}
    (h : ∀ member ∈ members, member.WellFormed) :
    memberDeclarations (members.flatMap BodyMember.text)
      = (members.map BodyMember.declaration).filter fun declaration =>
        !declaration.text.isEmpty := by
  rw [memberDeclarations, declarationsAfter_flatMap_text h]

/-- A method with a brace and a semicolon in quotes, an array, an initializer and a field. -/
def fourMembers : List BodyMember :=
  [.block "void f() ".toList " g('\x7d'); ".toList,
    .value " int[][] a =".toList "\x7b1\x7d, \x7b2\x7d".toList [],
    .block [' '] " h(); ".toList, .plain " int n".toList]

theorem memberDeclarations_flatMap_four :
    (∀ member ∈ fourMembers, member.WellFormed) ∧
      memberDeclarations (fourMembers.flatMap BodyMember.text)
        = [⟨"void f()".toList, .block⟩, ⟨"int[][] a = \x7b\x7d".toList, .semicolon⟩,
            ⟨"int n".toList, .semicolon⟩] := by
  have hmembers : ∀ member ∈ fourMembers, member.WellFormed := by
    refine List.forall_mem_cons.mpr ⟨?_, List.forall_mem_cons.mpr ⟨?_, List.forall_mem_cons.mpr ⟨?_,
      List.forall_mem_singleton.mpr ?_⟩⟩⟩
    · exact .block (List.all_iff_forall_prop.mp (by decide)) (by decide) (by decide)
    · exact .value (List.all_iff_forall_prop.mp (by decide)) (by decide) (by decide)
        (List.forall_mem_nil _)
    · exact .block (List.all_iff_forall_prop.mp (by decide)) (by decide) (by decide)
    · exact .plain (List.all_iff_forall_prop.mp (by decide))
  exact ⟨hmembers, (memberDeclarations_flatMap hmembers).trans (by decide +kernel)⟩

end Diagrams.Code
