import CodeNav.Text.Quoted

namespace CodeNav

inductive Utf8Fault where
  | invalidStart
  | invalidContinuation
  | unexpectedEnd
  deriving DecidableEq, Repr

namespace Utf8Fault

def message : Utf8Fault → Text
  | invalidStart => "invalid start byte"
  | invalidContinuation => "invalid continuation byte"
  | unexpectedEnd => "unexpected end of data"

end Utf8Fault

/-- Why bytes are no text: the first byte and the number of bytes that are at fault, how many bytes
stand before them, and the fault. -/
structure Utf8Error where
  byte : UInt8
  position : Nat
  length : Nat
  fault : Utf8Fault
  deriving DecidableEq, Repr

namespace Utf8Error

def message (e : Utf8Error) : Text :=
  let place : Text :=
    if e.length = 1 then
      "byte 0x" ++ hexDigits 2 e.byte.toNat ++ " in position " ++ Text.ofInt e.position
    else
      "bytes in position " ++ Text.ofInt e.position ++ "-" ++
        Text.ofInt ((e.position + e.length - 1 : Nat) : Int)
  "'utf-8' codec can't decode " ++ place ++ ": " ++ e.fault.message

end Utf8Error

namespace Utf8

def isContinuation (b : UInt8) : Bool := 0x80 ≤ b && b < 0xC0

/-- Whether the second byte of a character fits the first one: no longer form than needed, no
surrogate and nothing beyond the last character. -/
def isSecond (first b : UInt8) : Bool :=
  isContinuation b && (first != 0xE0 || 0xA0 ≤ b) && (first != 0xED || b < 0xA0) &&
    (first != 0xF0 || 0x90 ≤ b) && (first != 0xF4 || b < 0x90)

/-- How many bytes a character has that starts with a byte; none when no character does. -/
def size? (first : UInt8) : Option Nat :=
  if first < 0x80 then some 1
  else if first < 0xC2 then none
  else if first < 0xE0 then some 2
  else if first < 0xF0 then some 3
  else if first < 0xF5 then some 4
  else none

def charOf (size : Nat) (first : UInt8) (more : List UInt8) : Char :=
  let lead := if size = 1 then first.toNat else first.toNat % Nat.pow 2 (7 - size)
  Char.ofNat (more.foldl (fun n b => n * 64 + b.toNat % 64) lead)

def goodBytes (first : UInt8) : List UInt8 → Nat
  | [] => 0
  | b :: bs => if isSecond first b then (bs.takeWhile isContinuation).length + 1 else 0

def firstChar (first : UInt8) (rest : List UInt8) : Except (Nat × Utf8Fault) (Char × Nat) :=
  match size? first with
  | none => .error (1, .invalidStart)
  | some size =>
    let more := rest.take (size - 1)
    let good := goodBytes first more
    if good < more.length then .error (good + 1, .invalidContinuation)
    else if more.length < size - 1 then .error (more.length + 1, .unexpectedEnd)
    else .ok (charOf size first more, size - 1)

def decodeFrom (position : Nat) : List UInt8 → Except Utf8Error Text
  | [] => .ok []
  | b :: bs =>
    match firstChar b bs with
    | .error (length, fault) => .error ⟨b, position, length, fault⟩
    | .ok (c, n) => (decodeFrom (position + n + 1) (bs.drop n)).map (c :: ·)
termination_by bs => bs.length
decreasing_by simp only [List.length_drop, List.length_cons]; omega

def decode (bytes : List UInt8) : Except Utf8Error Text := decodeFrom 0 bytes

end Utf8

end CodeNav
