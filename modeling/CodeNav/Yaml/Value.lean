import CodeNav.Yaml.Moment
import CodeNav.Yaml.Node

namespace CodeNav.Yaml

inductive Value where
  | null
  | bool (b : Bool)
  | int (n : Int)
  | float (x : Float)
  | text (t : Text)
  /-- A point in time, or another value that no setting takes. -/
  | time
  | list (items : List Value)
  | record (fields : List (Value × Value))

/-- Why a document has no value: it is malformed, a whole number has too many digits or none, or
the reader fails on it in a way of its own. -/
inductive Fault where
  | malformed
  | numberTooLong (digits : Nat)
  | noDigits (base : Nat)
  | other (message : Text)
  deriving DecidableEq, Repr

namespace Value

def truths : List (Text × Bool) :=
  ([("yes", true), ("Yes", true), ("YES", true), ("no", false), ("No", false), ("NO", false),
    ("true", true), ("True", true), ("TRUE", true), ("false", false), ("False", false),
    ("FALSE", false), ("on", true), ("On", true), ("ON", true), ("off", false), ("Off", false),
    ("OFF", false)] : List (String × Bool)).map fun (s, b) => (s.toList, b)

def nulls : List Text := ["", "~", "null", "Null", "NULL"]

def isDigitOrLow (c : Char) : Bool := c.isDigit || c = '_'

def areSixtieths (parts : List Text) : Bool :=
  !parts.isEmpty && parts.all fun p =>
    match p with
    | [a] => a.isDigit
    | [a, b] => '0' ≤ a && a ≤ '5' && b.isDigit
    | _ => false

def isExponent : Text → Bool
  | [] => true
  | c :: s :: d :: ds => (c = 'e' || c = 'E') && (s = '+' || s = '-') && (d :: ds).all Char.isDigit
  | _ => false

def isPointForm (t : Text) (signed : Bool) : Bool :=
  let whole := t.takeWhile isDigitOrLow
  match t.drop whole.length with
  | '.' :: r =>
    let fraction := r.takeWhile isDigitOrLow
    isExponent (r.drop fraction.length) &&
      (whole.head?.any Char.isDigit ||
        (whole.isEmpty && !signed && fraction.head?.any Char.isDigit))
  | _ => false

def isSixtiethPointForm (t : Text) : Bool :=
  match Text.cut? ['.'] t with
  | some (a, fraction) =>
    match Text.parts ':' a with
    | whole :: parts =>
      whole.head?.any Char.isDigit && whole.all isDigitOrLow && areSixtieths parts &&
        fraction.all isDigitOrLow
    | [] => false
  | none => false

/-- The values of numbers in sixtieths, the last one counting once. -/
def ofSixtieths (parts : List Float) : Float :=
  (parts.reverse.foldl (fun (acc : Float × Float) d => (acc.1 + d * acc.2, acc.2 * 60.0))
    (0.0, 1.0)).1

def float? (t : Text) : Option Float :=
  let signed := t.head?.any fun c => c = '-' || c = '+'
  let negative := t.head? = some '-'
  let u := if signed then t.drop 1 else t
  let sign (x : Float) : Float := if negative then -x else x
  if u ∈ [".inf", ".Inf", ".INF"].map String.toList then some (sign (1.0 / 0.0))
  else if !signed && u ∈ [".nan", ".NaN", ".NAN"].map String.toList then some (0.0 / 0.0)
  else if isPointForm u signed then (Number.readDecimal? false (Text.erase '_' u)).map sign
  else if isSixtiethPointForm u then
    ((Text.parts ':' (Text.erase '_' u)).mapM (Number.readDecimal? false)).map fun ps =>
      sign (ofSixtieths ps)
  else none

def ofDigits (base : Nat) (ds : Text) : Nat :=
  ds.foldl (fun n c => base * n + (Json.hexValue? c).getD 0) 0

/-- Reads the digits of a number in binary or hexadecimal form, without low lines. -/
def natInBase (base : Nat) (ds : Text) : Except Fault Nat :=
  if ds.isEmpty then .error (.noDigits base) else .ok (ofDigits base ds)

def natOfDigits (ds : Text) : Except Fault Nat :=
  if ds.length ≤ Number.maxDigits then .ok (Number.natOfDigits ds)
  else .error (.numberTooLong ds.length)

/-- Reads a whole number without a sign: binary, octal, hexadecimal, decimal or in sixtieths. -/
def nat? (t : Text) : Option (Except Fault Nat) :=
  let bare := Text.erase '_' t
  let isDigitOf (base : Nat) (c : Char) : Bool :=
    c = '_' || (Json.hexValue? c).any (· < base)
  match t with
  | '0' :: 'b' :: ds =>
    if !ds.isEmpty && ds.all (isDigitOf 2) then some (natInBase 2 (bare.drop 2)) else none
  | '0' :: 'x' :: ds =>
    if !ds.isEmpty && ds.all (isDigitOf 16) then some (natInBase 16 (bare.drop 2)) else none
  | ['0'] => some (.ok 0)
  | '0' :: ds => if ds.all (isDigitOf 8) then some (.ok (ofDigits 8 bare)) else none
  | c :: _ =>
    match Text.parts ':' t with
    | whole :: parts =>
      if c.isDigit && whole.all isDigitOrLow then
        if parts.isEmpty then some (natOfDigits bare)
        else if areSixtieths parts then
          some ((natOfDigits (Text.erase '_' whole)).map fun n =>
            parts.foldl (fun n p => 60 * n + Number.natOfDigits p) n)
        else none
      else none
    | [] => none
  | [] => none

def int? (t : Text) : Option (Except Fault Int) :=
  let (negative, u) := Number.cutSign t
  (nat? u).map fun r => r.map fun n => if negative then -(n : Int) else n

/-- The value of a plain scalar. The sign "=" alone has none. -/
def ofPlain (t : Text) : Except Fault Value :=
  match truths.lookup t with
  | some b => .ok (bool b)
  | none =>
    match float? t, int? t with
    | some x, _ => .ok (float x)
    | none, some n => n.map int
    | none, none =>
      if nulls.contains t then .ok null
      else if t = ['='] then .error .malformed
      else
        match Moment.ofText? t with
        | some m => m.fault?.elim (.ok time) fun message => .error (.other message)
        | none => .ok (text t)

def isKey : Value → Bool
  | list _ | record _ => false
  | _ => true

def ofKey (v : Node) (value : Except Fault Value) : Except Fault Value :=
  match v with
  | .scalar ['='] true => .ok (text ['='])
  | _ => value.bind fun v => if v.isKey then .ok v else .error .malformed

/-- Whether a key asks for the pairs of its value to be merged in. -/
def isMerge : Node → Bool
  | .scalar t true => t = "<<".toList
  | _ => false

/-- The pairs that a merged value stands for: its own, or those of its items, the last one first. -/
def merged : Value → Except Fault (List (Value × Value))
  | record fields => .ok fields
  | list items =>
    items.reverse.foldlM (fun ps v =>
      match v with
      | record fields => .ok (ps ++ fields)
      | _ => .error .malformed) []
  | _ => .error .malformed

mutual

/-- The value of a node. Merged pairs come before a mapping's own. -/
def ofNode : Node → Except Fault Value
  | .scalar t plain => if plain then ofPlain t else .ok (text t)
  | .sequence items => (ofNodes items).map list
  | .mapping pairs => do
    let (merged, own) ← ofPairs pairs
    return record (merged ++ own)

def ofNodes : List Node → Except Fault (List Value)
  | [] => .ok []
  | v :: vs => do
    let w ← ofNode v
    return w :: (← ofNodes vs)

def ofPairs : List (Node × Node) → Except Fault (List (Value × Value) × List (Value × Value))
  | [] => .ok ([], [])
  | (k, v) :: ps => do
    let w ← ofNode v
    if isMerge k then
      let inner ← merged w
      let (ms, own) ← ofPairs ps
      return (inner ++ ms, own)
    else
      let key ← ofKey k (ofNode k)
      let (ms, own) ← ofPairs ps
      return (ms, (key, w) :: own)

end

/-- The value of the only document in a text; nothing for a text without one. -/
def ofText (t : Text) : Except Fault Value :=
  match (tokens? t).bind Node.ofTokens? with
  | some (some root) => ofNode root
  | some none => .ok null
  | none => .error .malformed

def field? (v : Value) (name : Text) : Option Value :=
  match v with
  | record fields =>
    (fields.reverse.find? fun (k, _) =>
      match k with
      | text t => t = name
      | _ => false).map (·.2)
  | _ => none

end Value

end CodeNav.Yaml
