import CodeNav.Language
import CodeNav.Resource

/-!
Which kind of reference a clicked token is. The rules are tried in order and the first that applies
counts: what the token and its neighbours say comes before what the document says, and taking the
token for the name of a class comes last.
-/

namespace CodeNav.Classifier

/-- The highlighting class the host gives to names that are called. -/
def callClass : Text := "pl-en"

/-- What stands before a menu name also where no menu kind is in use. -/
def menuMarker : Text := ".menu"

def feature? (features : List ResourceFeature) (r : Request) : Option ResourceFeature :=
  features.find? (·.recognizes r.token r.context)

/-- Whether the token, with a parenthesis right after it and nothing right before it, is called. -/
def isInternalCall (r : Request) : Bool :=
  r.context.next.any ("(".toList.isPrefixOf ·) && r.context.cssClass != some callClass &&
    r.context.previous.all Text.isBlank

def isVariable (r : Request) : Bool :=
  r.context.cssClass != some callClass && isWordRun r.token.trim &&
    r.context.nextNonBlank.any (".".toList.isPrefixOf ·)

def receiver? (token : Text) : Option Text :=
  let t := token.trim
  let name := t.takeWhile isWord
  let rest := t.drop name.length
  if !name.isEmpty && (rest.isEmpty || rest = ['?']) then some name else none

/-- The method name of a called token and the token it is called on: the token is an accessor such
as ".load", or a word after a dot of its own. -/
def calledOn? (r : Request) : Option (Text × Option Text) :=
  let t := r.token.trim
  match t with
  | '.' :: name =>
    if isWordRun name then some (name, r.context.previousNonBlank 1) else none
  | _ =>
    if isWordRun t && r.context.previousNonBlank 1 = some ['.'] then
      some (t, r.context.previousNonBlank 2)
    else none

def externalCall? (r : Request) : Option Reference := do
  guard (r.context.nextNonBlank.any ("(".toList.isPrefixOf ·))
  let (method, on) ← calledOn? r
  return .externalCall (← receiver? (← on)) method

def classify (l : Language) (features : List ResourceFeature) (r : Request) (d : Document) :
    Reference :=
  let token := r.token.trim
  if l.isPrimitive token then .primitive (Text.erase '?' token)
  else
    match feature? features r with
    | some f => .resource f.subkind ((f.name? token).getD [])
    | none =>
      if r.context.previous = some menuMarker then
        .resource "menu" ((resourceName? token "menu").getD [])
      else if isImportLine r.context.lineText then .importLine
      else if isInternalCall r then .internalCall token
      else if isVariable r then .variableUse token
      else
        match externalCall? r with
        | some e => e
        | none => if d.imports.statements.isEmpty then .unclassified else .symbol token

end CodeNav.Classifier
