import CodeNav.Document
import CodeNav.Service.Field
import CodeNav.Token.Context

namespace CodeNav

structure Query where
  url : Text
  text : Text
  lineNumber : Int
  column : Option Int := none
  siblings : Option (List Text) := none
  index : Option Int := none
  cssClass : Option Text := none
  lines : Option (List CodeLine) := none
  deriving DecidableEq, Repr

inductive QueryError where
  | noIndex
  | indexOutside (index : Int) (count : Nat)
  | noPlace
  | noLine (number : Int)
  deriving DecidableEq, Repr

namespace QueryError

def message : QueryError → Text
  | noIndex => "index is required when siblings are given"
  | indexOutside index count =>
    "Token index " ++ Text.ofInt index ++ " outside of " ++ Text.ofInt count ++ " siblings"
  | noPlace => "Either column or siblings must be provided"
  | noLine number => "Line " ++ Text.ofInt number ++ " is not part of the document"

end QueryError

namespace Query

def lineOfJson : Json → Checked CodeLine
  | .record fs =>
    let j := Json.record fs
    CodeLine.mk <$> j.required "line_number" Json.readAsInt <*> j.required "text" Json.readAsText
  | _ => .fault .noRecord

def ofJson : Json → Checked Query
  | .record fs =>
    let j := Json.record fs
    Query.mk <$> j.required "url" Json.readAsText <*> j.required "text" Json.readAsText
      <*> j.required "line_number" Json.readAsInt <*> j.optional "column" Json.readAsInt
      <*> j.optional "siblings" (Json.readAsList Json.readAsText)
      <*> j.optional "index" Json.readAsInt <*> j.optional "css_class" Json.readAsText
      <*> j.optional "lines" (Json.readAsList lineOfJson)
  | _ => .fault .noRecord

/-- The document of a query: its lines where it names any, else those of its text. -/
def document (q : Query) : Document :=
  match q.lines with
  | some (l :: ls) => ⟨q.url, q.text, l :: ls, []⟩
  | _ => .ofText q.text q.url []

/-- The click of a query; none on a blank and outside of the line. Tokens count before a column. -/
def context (q : Query) : Except QueryError (Option TokenContext) :=
  match q.siblings, q.index, q.column with
  | some siblings, some i, _ =>
    match TokenContext.ofSiblings? siblings i q.cssClass (some q.lineNumber) with
    | some c => .ok (some c)
    | none => .error (.indexOutside i siblings.length)
  | some _, none, _ => .error .noIndex
  | none, _, none => .error .noPlace
  | none, _, some column =>
    match q.document.line? q.lineNumber with
    | some l => .ok (TokenContext.atColumn? l.text column q.cssClass (some q.lineNumber))
    | none => .error (.noLine q.lineNumber)

end Query

end CodeNav
