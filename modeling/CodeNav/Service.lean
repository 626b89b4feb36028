import CodeNav.Json.Reading
import CodeNav.Navigator
import CodeNav.Remote.GitHub
import CodeNav.Service.Query

namespace CodeNav

structure ServiceRequest where
  method : Text := "POST"
  path : Text := "/resolve"
  body : Text := []
  deriving DecidableEq, Repr

structure ServiceTarget where
  url : Option Text := none
  newTab : Bool := false
  diagnostic : Option Text := none
  deriving DecidableEq, Repr

inductive ServiceAnswer where
  | healthy
  | resolved (t : ServiceTarget)
  | refused (message : Text)
  | invalid (errors : List FieldError)
  | unknownPath
  | unknownMethod
  | failed
  deriving DecidableEq, Repr

namespace ServiceAnswer

def status : ServiceAnswer → Nat
  | healthy | resolved _ => 200
  | refused _ => 400
  | unknownPath => 404
  | unknownMethod => 405
  | invalid _ => 422
  | failed => 500

end ServiceAnswer

namespace FieldError

def stepJson : FieldStep → Json
  | .field name => .text name
  | .item index => .int index

def json (e : FieldError) : Json :=
  .record [("loc", .list (e.place.map stepJson)), ("type", .text e.fault.name)]

end FieldError

namespace ServiceAnswer

def detail (j : Json) : Json := .record [("detail", j)]

def body : ServiceAnswer → Json
  | healthy => .record [("status", .text "ok")]
  | resolved t =>
    .record [("url", .ofText? t.url), ("open_in_new_tab", .bool t.newTab),
      ("diagnostic", .ofText? t.diagnostic)]
  | refused message => detail (.text message)
  | invalid errors => detail (.list (errors.map (·.json)))
  | unknownPath => detail (.text "Not Found")
  | unknownMethod => detail (.text "Method Not Allowed")
  | failed => detail (.text "Internal Server Error")

end ServiceAnswer

structure ServiceRun where
  requests : List Text := []
  answer : ServiceAnswer
  deriving DecidableEq, Repr

namespace Service

def bodyField : FieldStep := .field "body"

/-- Reads the query of a request. A mark of the byte order before it does not count. -/
def query (body : Text) : Except ServiceAnswer Query :=
  let invalid (place : List FieldStep) (f : FieldFault) : Except ServiceAnswer Query :=
    .error (.invalid [⟨bodyField :: place, f⟩])
  if body.isEmpty then invalid [] .missing
  else
    match Json.ofText (if body.head?.any (·.toNat = 0xFEFF) then body.drop 1 else body) with
    | .error (.malformed position) => invalid [.item position] .noJson
    | .error .numberTooLong => .error (.refused "There was an error parsing the body")
    | .ok j =>
      match (Query.ofJson j).under bodyField with
      | .valid q => .ok q
      | .invalid errors => .error (.invalid errors)

def targetOf (r : Option Resolution) : ServiceTarget :=
  match r with
  | some r => ⟨r.target.url, r.target.newTab, r.diagnostic⟩
  | none => {}

def answerOf (e : NavigationError) : ServiceAnswer :=
  if e.isRefusal then .refused e.message else .failed

/-- Resolves the click of a query with a navigator of its own. -/
def resolveWith (start : Navigator) (remote : Remote) (q : Query) : ServiceRun :=
  match q.context with
  | .error e => { answer := .refused e.message }
  | .ok none => { answer := .resolved {} }
  | .ok (some c) =>
    match start.activate q.document with
    | .error e => { answer := answerOf (.catalog e) }
    | .ok n =>
      if n.engine.isNone then { answer := .resolved {} }
      else
        let o := n.navigate (some remote) (n.tag (Request.ofContext c))
        match o.result with
        | .ok r => { requests := o.requests, answer := .resolved (targetOf r) }
        | .error e => { requests := o.requests, answer := answerOf e }

def resolve (s : Settings) (web : Web) (q : Query) : ServiceRun :=
  resolveWith { settings := s, hasSink := false } (GitHub.remote web) q

def answer (s : Settings) (web : Web) (r : ServiceRequest) : ServiceRun :=
  if r.path = "/health".toList then
    { answer := if r.method = "GET".toList then .healthy else .unknownMethod }
  else if r.path = "/resolve".toList then
    if r.method = "POST".toList then
      match query r.body with
      | .ok q => resolve s web q
      | .error a => { answer := a }
    else { answer := .unknownMethod }
  else { answer := .unknownPath }

end Service

end CodeNav
