import CodeNav.Classifier
import CodeNav.Definition
import CodeNav.Resource.Catalog
import CodeNav.Settings

namespace CodeNav

/-- All that an answer depends on, apart from the request. -/
structure Engine where
  document : Document
  language : Language
  features : List ResourceFeature
  settings : Settings := {}

namespace Engine

def multipleDefinitions : Text := "Selected method has multiple definitions"

def imports (e : Engine) : ImportRules := ⟨e.language, e.settings.deniedPrefixes⟩

/-- The resource kind that answers for a reference; of several, the last one in order. The menu kind
answers also where it is not in use. -/
def feature? (e : Engine) (subkind : Text) : Option ResourceFeature :=
  match e.features.reverse.find? (·.subkind = subkind) with
  | some f => some f
  | none => if subkind = "menu".toList then some .menu else none

def onLine (e : Engine) (r : Reference) (line : Int) : Resolution where
  target := ⟨some (Url.withLine e.document.url line), false⟩
  reference := r
  status := .resolved

def onClass (e : Engine) (r : Reference) (name : Text) (c : TokenContext) : Resolution :=
  let (target, status) := e.imports.classTarget name e.document c
  { target, reference := r, status }

def unresolved (r : Reference) : Resolution where
  target := .nowhere
  reference := r
  status := .unresolvedDefinition

/-- The file of a resource, and its entry where one file holds many. -/
def resolveResource (e : Engine) (req : Request) (subkind name : Text) : Resolution :=
  let r := Reference.resource subkind name
  match e.feature? subkind with
  | none => { target := .nowhere true, reference := r, status := .unclassified }
  | some f =>
    let target := f.target req.token e.document.url e.settings.rootSegment
    if target.isClickable then
      { target, reference := r, status := .resolved,
        refinement := if e.settings.followMethods then f.refinement? req.token target else none }
    else { target, reference := r, status := .unresolvedDefinition }

/-- The only line that declares a method of the document. A capitalized name without a declaration
is taken for a class. -/
def resolveInternalCall (e : Engine) (req : Request) (method : Text) : Resolution :=
  let r := Reference.internalCall method
  match Locator.all e.document.lines (e.language.methodPattern method) with
  | [line] => e.onLine r line
  | _ :: _ :: _ =>
    { target := .nowhere, reference := r, status := .ambiguousDefinition,
      diagnostic := some multipleDefinitions }
  | [] => if method.isCapitalized then e.onClass r method req.context else unresolved r

/-- The line where a variable is first assigned or, if it never is, declared. -/
def variableLine? (e : Engine) (name : Text) : Option Int :=
  (Locator.anchor? e.document.lines (Locator.assignmentPattern name)).or
    (Locator.anchor? e.document.lines (e.language.declarationPattern name))

/-- The line of a variable. A capitalized name without one is taken for a class. -/
def resolveVariable (e : Engine) (req : Request) (name : Text) : Resolution :=
  let r := Reference.variableUse name
  match e.variableLine? name with
  | some line => e.onLine r line
  | none => if name.isCapitalized then e.onClass r name req.context else unresolved r

/-- The class a variable is bound to and, as a second step, the method in its file. -/
def resolveExternalCall (e : Engine) (req : Request) (receiver method : Text) : Resolution :=
  let r := Reference.externalCall receiver method
  match Binding.declaredType? e.language receiver e.document.text with
  | none => unresolved r
  | some type =>
    let a := e.onClass r type req.context
    let refinement :=
      if e.settings.followMethods then
        a.target.url.map fun url => ⟨url, e.language.methodPattern method⟩
      else none
    { a with refinement }

def resolveReference (e : Engine) (req : Request) : Reference → Resolution
  | .primitive name =>
    { target := .nowhere true, reference := .primitive name, status := .primitive }
  | .resource subkind name => e.resolveResource req subkind name
  | .importLine =>
    let (target, status) := e.imports.importLineTarget e.document req.context
    { target, reference := .importLine, status }
  | .internalCall method => e.resolveInternalCall req method
  | .variableUse name => e.resolveVariable req name
  | .externalCall receiver method => e.resolveExternalCall req receiver method
  | .symbol name => e.onClass (.symbol name) name req.context
  | .unclassified =>
    { target := .nowhere true, reference := .unclassified, status := .unclassified }

def classify (e : Engine) (req : Request) : Reference :=
  Classifier.classify e.language e.features req e.document

def resolve (e : Engine) (req : Request) : Resolution :=
  { e.resolveReference req (e.classify req) with snapshot := some e.document.snapshot }

def open? (extensions : List Extension) (s : Settings) (d : Document) :
    Except CatalogError (Option Engine) :=
  match Language.ofUrl? d.url with
  | none => .ok none
  | some l => (Catalog.features extensions s.enabled).map fun fs => some ⟨d, l, fs, s⟩

end Engine

/-- The answer with its target moved to the first line of the fetched text that matches; the answer
itself when no line does. -/
def Resolution.refine (r : Resolution) (fetched : Text) : Resolution :=
  match r.refinement, r.target.url with
  | some f, some url =>
    match Locator.anchor? (CodeLine.ofText fetched) f.pattern with
    | some line => { r with target := { r.target with url := some (Url.withLine url line) } }
    | none => r
  | _, _ => r

end CodeNav
