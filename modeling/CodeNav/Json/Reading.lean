import CodeNav.Json
import CodeNav.Number.Reading

/-!
Reading JSON values. Beside the standard forms, the names of infinity and of no number are read.
A text that is no JSON value is refused with the place where reading stopped.
-/

namespace CodeNav

inductive JsonError where
  /-- The text is no JSON value; reading stopped after so many characters. -/
  | malformed (position : Nat)
  | numberTooLong
  deriving DecidableEq, Repr

namespace Json

/-- Where reading stops: with what rest of the text, or at a number that is too long. -/
inductive Stop where
  | before (rest : Text)
  | numberTooLong
  deriving DecidableEq, Repr

def isSpace (c : Char) : Bool := c = ' ' || c = '\t' || c = '\n' || c = '\r'

def dropSpace (t : Text) : Text := t.dropWhile isSpace

def hexValue? (c : Char) : Option Nat :=
  if c.isDigit then some (c.toNat - 48)
  else if 'a' ≤ c && c ≤ 'f' then some (c.toNat - 87)
  else if 'A' ≤ c && c ≤ 'F' then some (c.toNat - 55)
  else none

def readUnit? : Text → Option (Nat × Text)
  | a :: b :: c :: d :: e :: r => do
    let n := ((← hexValue? a) * 16 + (← hexValue? b)) * 256 + (← hexValue? c) * 16 + (← hexValue? d)
    return (n, e :: r)
  | _ => none

def escapedChar? (c : Char) : Option Char :=
  match c with
  | '"' => some '"'
  | '\\' => some '\\'
  | '/' => some '/'
  | 'b' => some '\x08'
  | 'f' => some '\x0c'
  | 'n' => some '\n'
  | 'r' => some '\r'
  | 't' => some '\t'
  | _ => none

/-- Reads the escape of a 16-bit unit after its "u", with a second one when the two make up a single
character. Half a pair alone makes up none. -/
def readUnitEscape (r : Text) : Except Stop (Option Char × Text) := do
  let some (n, s) := readUnit? r | throw (.before ('u' :: r))
  if 0xD800 ≤ n && n < 0xDC00 then
    match s with
    | '\\' :: 'u' :: s' =>
      if (s'.take 5).length < 5 then return (none, s)
      let some (m, s'') := readUnit? s' | throw (.before ('u' :: s'))
      if 0xDC00 ≤ m && m < 0xE000 then
        return (Char.ofNat (0x10000 + (n - 0xD800) * 0x400 + (m - 0xDC00)), s'')
      else return (none, s)
    | _ => return (none, s)
  else if 0xDC00 ≤ n && n < 0xE000 then return (none, s)
  else return (Char.ofNat n, s)

def isPlain (c : Char) : Bool := c != '"' && c != '\\' && 0x20 ≤ c.toNat

/-- Reads the rest of a text after its opening quote; `whole` starts with that quote. The text is
none where it holds half a pair. -/
def readText (whole : Text) : Nat → Text → Except Stop (Option Text × Text)
  | 0, _ => throw (.before whole)
  | fuel + 1, t =>
    let plain := t.takeWhile isPlain
    match t.drop plain.length with
    | '"' :: r => return (some plain, r)
    | [] | ['\\'] => throw (.before whole)
    | '\\' :: 'u' :: s => do
      let (d, s) ← readUnitEscape s
      let (more, s) ← readText whole fuel s
      return (d.bind fun d => more.map (plain ++ d :: ·), s)
    | '\\' :: e :: s => do
      let some d := escapedChar? e | throw (.before ('\\' :: e :: s))
      let (more, s) ← readText whole fuel s
      return (more.map (plain ++ d :: ·), s)
    | r => throw (.before r)

/-- The digits of a whole part: a zero alone, or digits that start with another one. -/
def wholePart (t : Text) : Text :=
  match t with
  | '0' :: _ => ['0']
  | _ => t.takeWhile Char.isDigit

def fractionPart : Text → Text
  | '.' :: r => if r.head?.any Char.isDigit then '.' :: r.takeWhile Char.isDigit else []
  | _ => []

def exponentPart : Text → Text
  | c :: r =>
    if c = 'e' || c = 'E' then
      let sign := (r.take 1).filter fun d => d = '+' || d = '-'
      let ds := (r.drop sign.length).takeWhile Char.isDigit
      if ds.isEmpty then [] else c :: sign ++ ds
    else []
  | [] => []

def readNumber (t : Text) : Except Stop (Json × Text) := do
  let sign := (t.take 1).filter (· = '-')
  let r := t.drop sign.length
  let whole := wholePart r
  if whole.isEmpty then throw (.before t)
  let r := r.drop whole.length
  let fraction := fractionPart r
  let r := r.drop fraction.length
  let exponent := exponentPart r
  let r := r.drop exponent.length
  if fraction.isEmpty && exponent.isEmpty then
    if whole.length ≤ Number.maxDigits then
      let n : Int := Number.natOfDigits whole
      return (int (if sign.isEmpty then n else -n), r)
    else throw .numberTooLong
  else
    let x := Number.readDecimal? (!sign.isEmpty) (whole ++ fraction ++ exponent)
    return (float (x.getD 0.0), r)

def named : List (Text × Json) :=
  [("null", null), ("true", bool true), ("false", bool false), ("NaN", float (0.0 / 0.0)),
    ("Infinity", float (1.0 / 0.0)), ("-Infinity", float (-1.0 / 0.0))]

def readSimple (t : Text) : Except Stop (Json × Text) :=
  match named.find? fun (n, _) => n.isPrefixOf t with
  | some (n, v) => return (v, t.drop n.length)
  | none => readNumber t

mutual

def readValue : Nat → Text → Except Stop (Json × Text)
  | 0, t => throw (.before t)
  | fuel + 1, t =>
    match t with
    | '"' :: r => do
      let (s, r) ← readText t fuel r
      return (s.elim halfPair text, r)
    | '[' :: r =>
      match dropSpace r with
      | ']' :: r => return (list [], r)
      | r => do
        let (vs, r) ← readItems fuel r
        return (list vs, r)
    | '\x7b' :: r =>
      match dropSpace r with
      | '\x7d' :: r => return (record [], r)
      | r => do
        let (fs, r) ← readFields fuel [] r
        return (record fs, r)
    | _ => readSimple t

def readItems : Nat → Text → Except Stop (List Json × Text)
  | 0, t => throw (.before t)
  | fuel + 1, t => do
    let (v, r) ← readValue fuel t
    match dropSpace r with
    | ']' :: r => return ([v], r)
    | ',' :: r =>
      let (vs, r) ← readItems fuel (dropSpace r)
      return (v :: vs, r)
    | r => throw (.before r)

/-- Reads the fields of a record from its first one on, and adds them to those read before, except
for those with half a pair in their names, which no field that is asked for has. -/
def readFields : Nat → List (Text × Json) → Text → Except Stop (List (Text × Json) × Text)
  | 0, _, t => throw (.before t)
  | fuel + 1, fields, t =>
    match t with
    | '"' :: r => do
      let (name, r) ← readText t fuel r
      match dropSpace r with
      | ':' :: r =>
        let (v, r) ← readValue fuel (dropSpace r)
        let fields := name.elim fields fun name => putField fields name v
        match dropSpace r with
        | '\x7d' :: r => return (fields, r)
        | ',' :: r => readFields fuel fields (dropSpace r)
        | r => throw (.before r)
      | r => throw (.before r)
    | t => throw (.before t)

end

def ofText (t : Text) : Except JsonError Json :=
  let position (rest : Text) : JsonError := .malformed (t.length - rest.length)
  match readValue (2 * t.length + 2) (dropSpace t) with
  | .ok (v, r) =>
    match dropSpace r with
    | [] => .ok v
    | rest => .error (position rest)
  | .error (.before rest) => .error (position rest)
  | .error .numberTooLong => .error .numberTooLong

end Json

end CodeNav
