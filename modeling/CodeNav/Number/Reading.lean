import CodeNav.Number.Binary64
import CodeNav.Text.Blank
import CodeNav.Text.Digit

namespace CodeNav.Number

/-- A blank that may stand around a number: any but the separators U+001C to U+001F. -/
def isOuterBlank (c : Char) : Bool := isBlank c && !(0x1C ≤ c.toNat && c.toNat ≤ 0x1F)

def trimOuter (t : Text) : Text :=
  ((t.dropWhile isOuterBlank).reverse.dropWhile isOuterBlank).reverse

/-- The text with the digits of every script written as 0 to 9. -/
def plainDigits (t : Text) : Text :=
  t.map fun c => match digitValue? c with
    | some v => Char.ofNat (48 + v)
    | none => c

/-- The text without its low lines, each of which has to stand between two digits. -/
def dropSeparators? (previous : Option Char) : Text → Option Text
  | [] => some []
  | c :: r =>
    if c = '_' then
      if previous.any Char.isDigit && r.head?.any Char.isDigit then dropSeparators? (some c) r
      else none
    else (dropSeparators? (some c) r).map (c :: ·)

def natOfDigits (ds : Text) : Nat := ds.foldl (fun n c => 10 * n + (c.toNat - 48)) 0

def cutSign : Text → Bool × Text
  | '-' :: r => (true, r)
  | '+' :: r => (false, r)
  | r => (false, r)

/-- The longest whole number that is read, in digits. -/
def maxDigits : Nat := 4300

def readInt? (t : Text) : Option Int := do
  let (negative, ds) := cutSign (← dropSeparators? none (plainDigits (trimOuter t)))
  guard (!ds.isEmpty && ds.all Char.isDigit && ds.length ≤ maxDigits)
  return if negative then -(natOfDigits ds : Int) else natOfDigits ds

def readExponent? : Text → Option Int
  | [] => some 0
  | c :: r => do
    guard (c = 'e' || c = 'E')
    let (negative, ds) := cutSign r
    guard (!ds.isEmpty && ds.all Char.isDigit)
    return if negative then -(natOfDigits ds : Int) else natOfDigits ds

def readDecimal? (negative : Bool) (t : Text) : Option Float := do
  let whole := t.takeWhile Char.isDigit
  let t := t.drop whole.length
  let (fraction, t) :=
    match t with
    | '.' :: r => (r.takeWhile Char.isDigit, r.dropWhile Char.isDigit)
    | t => ([], t)
  guard (!(whole ++ fraction).isEmpty)
  let e ← readExponent? t
  return Binary64.ofDecimal negative (natOfDigits (whole ++ fraction)) (e - fraction.length)

def readFloat? (t : Text) : Option Float := do
  let (negative, t) := cutSign (← dropSeparators? none (plainDigits (trimOuter t)))
  let name := t.map Char.toLower
  if name = "inf".toList || name = "infinity".toList then
    return if negative then -1.0 / 0.0 else 1.0 / 0.0
  else if name = "nan".toList then return 0.0 / 0.0
  else readDecimal? negative t

end CodeNav.Number
