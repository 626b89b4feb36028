import CodeNav.Engine
import CodeNav.Log
import CodeNav.Text.Quoted

/-!
What the engine reports about the way to an answer, for troubleshooting. The answers themselves do
not depend on it.
-/

namespace CodeNav

namespace Reference

def shown : Reference → Text
  | resource s n =>
    "ResourceReference(subkind=" ++ s.quoted ++ ", name=" ++ n.quoted ++ ")"
  | importLine => "ImportStatementSelf()"
  | internalCall m => "InternalCall(method_name=" ++ m.quoted ++ ")"
  | variableUse n => "VariableUse(variable_name=" ++ n.quoted ++ ")"
  | externalCall r m =>
    "ExternalCallOnVariable(variable_name=" ++ r.quoted ++ ", method_name=" ++ m.quoted ++ ")"
  | symbol n => "BareSymbol(name=" ++ n.quoted ++ ")"
  | primitive n => "PrimitiveType(name=" ++ n.quoted ++ ")"
  | unclassified => "Unclassified()"

end Reference

def Text.bracketed (items : List Text) : Text := "[" ++ Text.join ", " items ++ "]"

namespace ImportRules

def fullNameTrace (symbol : Text) (d : Document) : List LogEntry :=
  let name := Language.bareName symbol
  let found := d.imports.matching name
  .debug ("Matching imports for " ++ name ++ ": " ++ Text.bracketed (found.map (·.quoted))) ::
    if found.isEmpty && name.isCapitalized then
      [.debug ("No import matched " ++ name ++ ", assuming package " ++ d.package.quoted)]
    else []

/-- The report of a package path that the address does not hold. -/
def sourceRootTrace (d : Document) : List LogEntry :=
  match sourceRoot? d with
  | some _ => []
  | none =>
    [.debug ("Package path /" ++ Text.swap '.' '/' d.package ++ "/ not found in " ++
      Url.stripAnchor d.url)]

def classTrace (r : ImportRules) (symbol : Text) (d : Document) (c : TokenContext) :
    List LogEntry :=
  let name := Language.bareName symbol
  let here := if name.isEmpty then none else Locator.anchor? d.lines (r.language.classPattern name)
  match here with
  | some line => [.debug (name ++ " is declared locally on line " ++ Text.ofInt line)]
  | none =>
    fullNameTrace name d ++
      match r.fullName? name d c with
      | none => []
      | some full =>
        if r.isDenied full then [.debug (name ++ " resolves to denied import " ++ full)]
        else sourceRootTrace d

def importLineTrace (r : ImportRules) (d : Document) (c : TokenContext) : List LogEntry :=
  match (r.clickedName? c).filter isQualifiedName with
  | none => []
  | some name =>
    if r.isDenied name then []
    else
      match (r.importLineTarget d c).1.url with
      | some url =>
        let directory : Text := if r.language.isOnLastSegment c then "False" else "True"
        [.debug ("Import line resolved to " ++ url ++ " (directory: " ++ directory ++ ")")]
      | none => sourceRootTrace d

end ImportRules

namespace Engine

def internalCallTrace (e : Engine) (req : Request) (method : Text) : List LogEntry :=
  match Locator.all e.document.lines (e.language.methodPattern method) with
  | [_] => []
  | a :: b :: more =>
    [.debug (method ++ " is defined on lines " ++
      Text.bracketed ((a :: b :: more).map Text.ofInt))]
  | [] => if method.isCapitalized then e.imports.classTrace method e.document req.context else []

def variableTrace (e : Engine) (req : Request) (name : Text) : List LogEntry :=
  match e.variableLine? name with
  | some _ => []
  | none => if name.isCapitalized then e.imports.classTrace name e.document req.context else []

def externalCallTrace (e : Engine) (req : Request) (receiver : Text) : List LogEntry :=
  match Binding.declaredType? e.language receiver e.document.text with
  | some type =>
    .debug (receiver ++ " is a " ++ type) :: e.imports.classTrace type e.document req.context
  | none =>
    let found := Binding.assignedFrom? e.language (Language.bareName receiver) e.document.text
    let shown : Text := (found.map (·.quoted)).getD "None"
    [.debug (receiver ++ " is not bound to a class name (" ++ shown ++ ")")]

def referenceTrace (e : Engine) (req : Request) : Reference → List LogEntry
  | .importLine => e.imports.importLineTrace e.document req.context
  | .internalCall method => e.internalCallTrace req method
  | .variableUse name => e.variableTrace req name
  | .externalCall receiver _ => e.externalCallTrace req receiver
  | .symbol name => e.imports.classTrace name e.document req.context
  | .primitive _ | .resource .. | .unclassified => []

def trace (e : Engine) (req : Request) : List LogEntry :=
  let r := e.classify req
  (if r = .unclassified then [.debug ("No reference kind matched " ++ req.token.trim.quoted)]
    else []) ++
    .debug ("Classified " ++ req.token.quoted ++ " as " ++ r.shown) :: e.referenceTrace req r

def openTrace (d : Document) : List LogEntry :=
  match Language.ofUrl? d.url with
  | some _ => []
  | none => [.debug ("No language support for " ++ d.url)]

end Engine

def Resolution.refineTrace (r : Resolution) (fetched : Text) : List LogEntry :=
  match r.refinement, r.target.url with
  | some f, some _ =>
    match Locator.anchor? (CodeLine.ofText fetched) f.pattern with
    | some _ => []
    | none => [.debug ("No line in " ++ f.fetchUrl ++ " matched " ++ f.pattern.written)]
  | _, _ => []

end CodeNav
