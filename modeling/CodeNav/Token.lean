import CodeNav.Text.Blank
import CodeNav.Text.Digit
import CodeNav.Text.Word

/-!
Tokens of a line as a code host renders them: runs of blanks, names with their leading dot and
trailing question mark, numbers, quoted literals and single characters.
-/

namespace CodeNav.Token

def isNameStart (c : Char) : Bool := c.isAlpha || c = '_' || c = '$'

def isNamePart (c : Char) : Bool := isWord c || c = '$'

/-- How many characters continue a name, with its question mark. -/
def nameTail (r : Text) : Nat :=
  let n := (r.takeWhile isNamePart).length
  if (r.drop n).head? = some '?' then n + 1 else n

def fractionLength : Text → Nat
  | '.' :: r =>
    match (r.takeWhile isDigit).length with
    | 0 => 0
    | n => n + 1
  | _ => 0

/-- How many characters continue a number, with its fraction and its type letter. -/
def numberTail (r : Text) : Nat :=
  let n := (r.takeWhile isDigit).length
  let n := n + fractionLength (r.drop n)
  if (r.drop n).head?.any ("fFlLdD".toList.contains ·) then n + 1 else n

/-- How many characters continue a literal up to its closing quote. A backslash takes the next
character with it; one that stands before a line feed or at the end stops the literal. -/
def literalTail (quote : Char) : Text → Nat
  | [] => 0
  | '\\' :: c :: r => if c = '\n' then 0 else literalTail quote r + 2
  | c :: r => if c = quote then 1 else if c = '\\' then 0 else literalTail quote r + 1

/-- How many characters after the first one belong to the token that starts with it. -/
def tailLength (c : Char) (r : Text) : Nat :=
  if isBlank c then (r.takeWhile isBlank).length
  else if c = '.' then
    match r with
    | d :: r => if isNameStart d then nameTail r + 1 else 0
    | [] => 0
  else if isNameStart c then nameTail r
  else if isDigit c then numberTail r
  else if c = '"' || c = '\x27' then literalTail c r
  else 0

def ofLine : Text → List Text
  | [] => []
  | c :: r => (c :: r.take (tailLength c r)) :: ofLine (r.drop (tailLength c r))
termination_by t => t.length
decreasing_by simp only [List.length_drop, List.length_cons]; omega

end CodeNav.Token
