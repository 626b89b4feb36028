namespace CodeNav

abbrev Text := List Char

instance : Coe String Text := ⟨String.toList⟩

namespace Text

def cut? (needle : Text) : Text → Option (Text × Text)
  | [] => if needle.isEmpty then some ([], []) else none
  | c :: r =>
    if needle.isPrefixOf (c :: r) then some ([], (c :: r).drop needle.length)
    else (cut? needle r).map fun (a, b) => (c :: a, b)

def cutLast? (c : Char) : Text → Option (Text × Text)
  | [] => none
  | x :: r =>
    match cutLast? c r with
    | some (a, b) => some (x :: a, b)
    | none => if x = c then some ([], r) else none

/-- The part before the first occurrence of the character, or the whole text. -/
def before (c : Char) (t : Text) : Text := t.takeWhile (· != c)

def beforeLast (c : Char) (t : Text) : Text := ((cutLast? c t).map (·.1)).getD t

def afterLast (c : Char) (t : Text) : Text := ((cutLast? c t).map (·.2)).getD t

def trimChar (c : Char) (t : Text) : Text :=
  ((t.dropWhile (· == c)).reverse.dropWhile (· == c)).reverse

def trimRightChar (c : Char) (t : Text) : Text := (t.reverse.dropWhile (· == c)).reverse

def swap (old new : Char) (t : Text) : Text := t.map fun c => if c = old then new else c

def erase (c : Char) (t : Text) : Text := t.filter (· != c)

/-- The parts between the occurrences of a character; at least one part. -/
def parts (c : Char) : Text → List Text
  | [] => [[]]
  | x :: r =>
    if x = c then [] :: parts c r
    else
      match parts c r with
      | [] => [[x]]
      | p :: ps => (x :: p) :: ps

def join (sep : Text) (ts : List Text) : Text := sep.intercalate ts

def ofInt : Int → Text
  | .ofNat n => Nat.toDigits 10 n
  | .negSucc n => '-' :: Nat.toDigits 10 (n + 1)

end Text

end CodeNav
