import CodeNav.Number.Binary64
import CodeNav.Text.Quoted

namespace CodeNav

/-- A JSON value; whole numbers and numbers with a fraction or an exponent are told apart. -/
inductive Json where
  | null
  | bool (b : Bool)
  | int (n : Int)
  | float (x : Float)
  | text (t : Text)
  /-- A text in which half a pair of units stands alone, which makes up no character. What else it
  holds does not count. -/
  | halfPair
  | list (items : List Json)
  | record (fields : List (Text × Json))

namespace Json

def field? (name : Text) : Json → Option Json
  | record fields => fields.lookup name
  | _ => none

/-- The fields with one more, which replaces an earlier one of the same name. -/
def putField (fields : List (Text × Json)) (name : Text) (v : Json) : List (Text × Json) :=
  if (fields.lookup name).isSome then
    fields.map fun (n, w) => if n = name then (n, v) else (n, w)
  else fields ++ [(name, v)]

def ofText? : Option Text → Json
  | some t => text t
  | none => null

def unitEscape (n : Nat) : Text := '\\' :: 'u' :: hexDigits 4 n

/-- The form of a character in a text: printable ASCII as it is, all else as escapes. -/
def writtenChar (c : Char) : Text :=
  if c = '"' || c = '\\' then ['\\', c]
  else if c = '\n' then ['\\', 'n']
  else if c = '\r' then ['\\', 'r']
  else if c = '\t' then ['\\', 't']
  else if 0x20 ≤ c.toNat && c.toNat < 0x7F then [c]
  else if c.toNat ≤ 0xFFFF then unitEscape c.toNat
  else
    let n := c.toNat - 0x10000
    unitEscape (0xD800 + n / 0x400) ++ unitEscape (0xDC00 + n % 0x400)

def writtenText (t : Text) : Text := '"' :: t.flatMap writtenChar ++ ['"']

def writtenFloat (x : Float) : Text :=
  if x.isNaN then "NaN"
  else if x.isInf then if x < 0 then "-Infinity" else "Infinity"
  else Binary64.text x

mutual

def written : Json → Text
  | null => "null"
  | bool true => "true"
  | bool false => "false"
  | int n => Text.ofInt n
  | float x => writtenFloat x
  | text t => writtenText t
  | halfPair => '"' :: unitEscape 0xD800 ++ ['"']
  | list items => '[' :: writtenItems items
  | record fields => '\x7b' :: writtenFields fields

def writtenItems : List Json → Text
  | [] => [']']
  | [v] => v.written ++ [']']
  | v :: vs => v.written ++ ',' :: writtenItems vs

def writtenFields : List (Text × Json) → Text
  | [] => ['\x7d']
  | [(n, v)] => writtenText n ++ ':' :: v.written ++ ['\x7d']
  | (n, v) :: fs => writtenText n ++ ':' :: v.written ++ ',' :: writtenFields fs

end

end Json

end CodeNav
