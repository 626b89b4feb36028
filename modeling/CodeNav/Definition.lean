import CodeNav.Binding
import CodeNav.Locator
import CodeNav.Resolution

namespace CodeNav

structure ImportRules where
  language : Language
  denied : List Text := []

/-- Definitions under these prefixes lie outside of the repository. -/
def alwaysDenied : List Text :=
  ["android.", "java.", "androidx.", "kotlinx.android.synthetic.", "com.google.android.material."]

def isDataBinding (name : Text) : Bool :=
  match Text.cut? ".databinding." name with
  | some (_, r) => !name.contains '\n' && "Binding".toList.isSuffixOf r && 7 < r.length
  | none => false

/-- One or more words with single dots between them. -/
def isQualifiedName (name : Text) : Bool := (Text.parts '.' name).all isWordRun

/-- The tokens up to the clicked one as a name, without the keywords of an import line. -/
def directoryPackage (tokens : List Text) : Text :=
  Text.trim (tokens.filter fun t =>
    t.trim != "import".toList && t.trim != "static".toList).flatten

namespace ImportRules

def isDenied (r : ImportRules) (name : Text) : Bool :=
  (alwaysDenied ++ r.denied).any (·.isPrefixOf name) || isDataBinding name

/-- The full name a symbol most likely stands for: that of the first import that declares it, or,
for a capitalized symbol, one of the document's own package. -/
def fullName? (r : ImportRules) (symbol : Text) (d : Document) (c : TokenContext) :
    Option Text :=
  let name := Language.bareName symbol
  match d.imports.matching name with
  | m :: _ => some m
  | [] =>
    if name.isCapitalized then
      some (if d.package.isEmpty then name else d.package ++ "." ++ name)
    else if c.lineText = r.language.importLine name then some name
    else none

/-- The directory that the package of a document starts from: the address up to the path of the
package, or the directory of the file when it declares no package. -/
def sourceRoot? (d : Document) : Option Text :=
  let url := Url.stripAnchor d.url
  if d.package.isEmpty then some (Text.beforeLast '/' url)
  else (Text.cut? ("/" ++ Text.swap '.' '/' d.package ++ "/") url).map (·.1)

def directoryUrl? (d : Document) (name : Text) : Option Text :=
  (sourceRoot? d).map fun root => root ++ "/" ++ Text.swap '.' '/' name

/-- The address of a line of the file that a class of this name lies in, a file like the
document's own. -/
def fileUrl? (d : Document) (name : Text) (line : Int) : Option Text := do
  let path ← directoryUrl? d name
  let extension ← Url.extension? (Url.stripAnchor d.url)
  return path ++ "." ++ extension ++ "#L" ++ Text.ofInt line

/-- The definition of a class: a declaration in the document, else the file of its full name. -/
def classTarget (r : ImportRules) (symbol : Text) (d : Document) (c : TokenContext) :
    Target × Status :=
  let name := Language.bareName symbol
  let here := if name.isEmpty then none else Locator.anchor? d.lines (r.language.classPattern name)
  match here with
  | some line => (⟨some (Url.withLine d.url line), false⟩, .resolved)
  | none =>
    match r.fullName? name d c with
    | none => (.nowhere true, .unresolvedImport)
    | some full =>
      if r.isDenied full then (.nowhere true, .deniedImport)
      else
        match fileUrl? d full 1 with
        | none => (.nowhere true, .unresolvedImport)
        | some url => (⟨some url, true⟩, .resolved)

/-- The name a click on an import line stands for: the whole name on its last segment, else the
package up to the clicked segment. -/
def clickedName? (r : ImportRules) (c : TokenContext) : Option Text :=
  if r.language.isOnLastSegment c then importName? c.lineText
  else some (directoryPackage (c.preceding ++ [c.token]))

def importLineTarget (r : ImportRules) (d : Document) (c : TokenContext) : Target × Status :=
  match (r.clickedName? c).filter isQualifiedName with
  | none => (.nowhere, .unresolvedImport)
  | some name =>
    if r.isDenied name then (.nowhere, .deniedImport)
    else
      let url :=
        if r.language.isOnLastSegment c then fileUrl? d name 1 else directoryUrl? d name
      match url with
      | none => (.nowhere, .unresolvedImport)
      | some url => (⟨some url, true⟩, .resolved)

end ImportRules

end CodeNav
