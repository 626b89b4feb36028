import CodeNav.Json
import CodeNav.Number.Loose

/-!
Reading the fields of a request. All that is wrong with a request is reported at once, each fault
with its place.
-/

namespace CodeNav

inductive FieldStep where
  | field (name : Text)
  | item (index : Nat)
  deriving DecidableEq, Repr

inductive FieldFault where
  | missing
  | noText
  /-- A text that is no sequence of characters. -/
  | noCharacters
  | noList
  | noRecord
  /-- Neither a number nor a text or truth value that may stand for one. -/
  | noNumber
  | unreadableNumber
  | fraction
  | infinite
  | tooLong
  | noJson
  deriving DecidableEq, Repr

namespace FieldFault

def name : FieldFault → Text
  | missing => "missing"
  | noText => "string_type"
  | noCharacters => "string_unicode"
  | noList => "list_type"
  | noRecord => "model_attributes_type"
  | noNumber => "int_type"
  | unreadableNumber => "int_parsing"
  | fraction => "int_from_float"
  | infinite => "finite_number"
  | tooLong => "int_parsing_size"
  | noJson => "json_invalid"

end FieldFault

structure FieldError where
  place : List FieldStep
  fault : FieldFault
  deriving DecidableEq, Repr

inductive Checked (α : Type) where
  | valid (a : α)
  | invalid (errors : List FieldError)

namespace Checked

variable {α β : Type}

/-- What was read with a function that was read, where the errors of both count. -/
def apply : Checked (α → β) → Checked α → Checked β
  | valid f, valid a => valid (f a)
  | valid _, invalid es => invalid es
  | invalid es, valid _ => invalid es
  | invalid es, invalid fs => invalid (es ++ fs)

instance : Applicative Checked where
  pure := valid
  seq f x := apply f (x ())

def under (step : FieldStep) : Checked α → Checked α
  | valid a => valid a
  | invalid es => invalid (es.map fun e => { e with place := step :: e.place })

def fault (f : FieldFault) : Checked α := invalid [⟨[], f⟩]

def items (read : Json → Checked α) (index : Nat) : List Json → Checked (List α)
  | [] => valid []
  | v :: vs => List.cons <$> under (.item index) (read v) <*> items read (index + 1) vs

end Checked

namespace Json

def readAsText : Json → Checked Text
  | text t => .valid t
  | halfPair => .fault .noCharacters
  | _ => .fault .noText

def readAsList {α : Type} (read : Json → Checked α) : Json → Checked (List α)
  | list vs => Checked.items read 0 vs
  | _ => .fault .noList

/-- A whole number of at most so many digits; a fraction is refused, and so is a number with a point
that has no exact place among the 64-bit ones. -/
def readAsInt : Json → Checked Int
  | int n => .valid n
  | bool b => .valid (if b then 1 else 0)
  | float x =>
    if x.isNaN || x.isInf then .fault .infinite
    else
      match Binary64.toInt? x with
      | some n => if n.natAbs < Nat.pow 2 63 then .valid n else .fault .tooLong
      | none => .fault .fraction
  | text t =>
    match Number.readLoose? t with
    | some n => if n.natAbs < Nat.pow 10 Number.maxDigits then .valid n else .fault .tooLong
    | none => .fault .unreadableNumber
  | halfPair => .fault .noCharacters
  | _ => .fault .noNumber

def readOrNull {α : Type} (read : Json → Checked α) : Json → Checked (Option α)
  | null => .valid none
  | v => some <$> read v

def required {α : Type} (j : Json) (name : Text) (read : Json → Checked α) : Checked α :=
  Checked.under (.field name) <|
    match j.field? name with
    | some v => read v
    | none => .fault .missing

def optional {α : Type} (j : Json) (name : Text) (read : Json → Checked α) : Checked (Option α) :=
  Checked.under (.field name) (readOrNull read ((j.field? name).getD null))

end Json

end CodeNav
