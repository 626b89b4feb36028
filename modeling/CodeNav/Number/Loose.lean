import CodeNav.Number.Reading

/-!
Whole numbers where a number, a truth value or a text may stand for one. A text may hold blanks
around the number, a plus sign, zeros before it, low lines between its digits and a fraction of
zeros.
-/

namespace CodeNav.Number

def readPlain? (t : Text) : Option Int :=
  let ds := if t.head? = some '-' then t.drop 1 else t
  if !ds.isEmpty && ds.all Char.isDigit && (ds.head? != some '0' || ds.length = 1) then
    some (if t.head? = some '-' then -(natOfDigits ds : Int) else natOfDigits ds)
  else none

/-- Drops a plus sign, which no other sign follows. -/
def dropPlus? : Text → Option Text
  | '+' :: '-' :: _ => none
  | '+' :: r => some r
  | t => some t

/-- Drops zeros, and low lines between them, at the start of a number; a zero stays where no other
digit follows. -/
def dropZeros? : Text → Option Text
  | '0' :: r =>
    let zeros := '0' :: r.takeWhile fun c => c = '0' || c = '_'
    match r.drop (zeros.length - 1) with
    | [] => zeros.getLast?.map fun c => [c]
    | '.' :: ds => zeros.getLast?.map fun c => c :: '.' :: ds
    | c :: ds => if c.isDigit then some (c :: ds) else none
  | '-' :: r => some ('-' :: r)
  | c :: r => if c.isDigit then some (c :: r) else none
  | [] => none

def dropZeroFraction (t : Text) : Text :=
  match Text.cut? ['.'] t with
  | some (a, b) => if b.all (· == '0') then a else t
  | none => t

def joinGroups? (t : Text) : Option Text :=
  if (Text.parts '_' t).any (·.isEmpty) then none else some (Text.erase '_' t)

def readLoose? (t : Text) : Option Int :=
  (readPlain? t).or do
    let t ← dropZeros? (← dropPlus? (trimOuter t))
    readPlain? (← joinGroups? (dropZeroFraction t))

end CodeNav.Number
