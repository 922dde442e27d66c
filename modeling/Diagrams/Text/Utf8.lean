/-
Decoding UTF-8, strictly: the first byte that fits into no character ends the decoding with an
error that says where and why.

The first byte of a character fixes how many bytes follow, and in which range the second one has
to be; that range leaves out overlong forms and surrogates.
-/
import Diagrams.Text.Basic

namespace Diagrams.Utf8

/-- Why bytes are not UTF-8. -/
inductive Reason
  | invalidStart
  | invalidContinuation
  | unexpectedEnd
  deriving DecidableEq, Repr

/-- The wording of a reason. -/
def Reason.message : Reason → String
  | invalidStart => "invalid start byte"
  | invalidContinuation => "invalid continuation byte"
  | unexpectedEnd => "unexpected end of data"

/-- A place where bytes are not UTF-8. -/
structure DecodeError where
  /-- The place of the first byte that does not fit. -/
  position : Nat
  /-- How many bytes belong to the broken character. -/
  length : Nat
  /-- The first byte of the broken character. -/
  byte : UInt8
  /-- What is wrong with it. -/
  reason : Reason
  deriving DecidableEq, Repr

/-- The wording of an error. -/
def DecodeError.message (error : DecodeError) : String :=
  let place :=
    if error.length = 1 then
      "byte 0x" ++ String.ofList (Nat.toDigits 16 error.byte.toNat) ++ " in position " ++
        toString error.position
    else
      "bytes in position " ++ toString error.position ++ "-" ++
        toString (error.position + error.length - 1)
  "'utf-8' codec can't decode " ++ place ++ ": " ++ error.reason.message

/-- What a first byte says about the bytes after it. -/
structure Lead where
  /-- How many bytes follow. -/
  following : Nat
  /-- The bits of the code point that the first byte holds. -/
  bits : Nat
  /-- The least second byte. -/
  low : Nat := 0x80
  /-- The greatest second byte. -/
  high : Nat := 0xBF

/-- What a first byte says, if it can be one. -/
def lead? (byte : Nat) : Option Lead :=
  if byte < 0x80 then some { following := 0, bits := byte }
  else if byte < 0xC2 then none
  else if byte < 0xE0 then some { following := 1, bits := byte - 0xC0 }
  else if byte < 0xF0 then
    some
      { following := 2, bits := byte - 0xE0
        low := if byte = 0xE0 then 0xA0 else 0x80
        high := if byte = 0xED then 0x9F else 0xBF }
  else if byte < 0xF5 then
    some
      { following := 3, bits := byte - 0xF0
        low := if byte = 0xF0 then 0x90 else 0x80
        high := if byte = 0xF4 then 0x8F else 0xBF }
  else none

/-- The bytes that follow a first byte, as far as they fit. -/
def continuation (lead : Lead) (rest : List UInt8) : List UInt8 :=
  (rest.take lead.following).zipIdx.takeWhile
    (fun (byte, index) =>
      if index = 0 then lead.low ≤ byte.toNat && byte.toNat ≤ lead.high
      else 0x80 ≤ byte.toNat && byte.toNat ≤ 0xBF)
    |>.map (·.1)

/-- The code point with the bits of a first byte and of those that follow. -/
def codePoint (lead : Lead) (following : List UInt8) : Nat :=
  following.foldl (fun code byte => code * 64 + (byte.toNat - 0x80)) lead.bits

/-- Decode bytes in front of which `position` bytes lie that read as `before`, last character
first. -/
def decodeAfter (position : Nat) (before : Text) : List UInt8 → Except DecodeError Text
  | [] => .ok before.reverse
  | byte :: rest =>
    match lead? byte.toNat with
    | none => .error { position, length := 1, byte, reason := .invalidStart }
    | some lead =>
      let following := continuation lead rest
      let count := following.length
      if count = lead.following then
        decodeAfter (position + 1 + count) (Char.ofNat (codePoint lead following) :: before)
          (rest.drop count)
      else
        .error
          { position, length := 1 + count, byte
            reason := if count < rest.length then .invalidContinuation else .unexpectedEnd }
termination_by bytes => bytes.length

/-- The text that bytes encode. -/
def decode (bytes : List UInt8) : Except DecodeError Text := decodeAfter 0 [] bytes

/-- A text in which every line ends with a line feed: a carriage return becomes one, together
with a line feed after it. -/
def unifyNewlines (text : Text) : Text :=
  (text.foldl
    (fun (state : Bool × Text) c =>
      let (afterReturn, done) := state
      if c = '\r' then (true, '\n' :: done)
      else if c = '\n' && afterReturn then (false, done)
      else (false, c :: done))
    (false, [])).2.reverse

end Diagrams.Utf8
