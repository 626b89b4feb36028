import CodeNav.Resolution
import CodeNav.Url

namespace CodeNav

/-- The words right after the first occurrence of `start` that a word character follows. -/
def Text.wordAfter? (start : Text) : Text → Option Text
  | [] => none
  | c :: r =>
    if start.isPrefixOf (c :: r) && ((c :: r).drop start.length).head?.any isWord then
      some (((c :: r).drop start.length).takeWhile isWord)
    else wordAfter? start r

/-- The word of a token that is nothing else but a leading dot and a closing parenthesis. -/
def Text.bareWord? (token : Text) : Option Text :=
  let t := Url.skip "." token.trim
  let name := t.takeWhile isWord
  let rest := t.drop name.length
  if !name.isEmpty && (rest.isEmpty || rest = [')']) then some name else none

/-- The name of a resource in a token such as "R.layout.name" or ".name". -/
def resourceName? (token subkind : Text) : Option Text :=
  (Text.wordAfter? (subkind ++ ".") token).or (Text.bareWord? token)

/-- The address of a resource file: the file's own address up to the first root segment, and the
path from there. Without that segment the resource is taken to lie beside the file. -/
def resourceUrl (url rootSegment path : Text) : Text :=
  let url := Url.stripAnchor url
  let segment := "/" ++ Text.trimChar '/' rootSegment ++ "/"
  match Text.cut? segment url with
  | some (base, _) => base ++ segment ++ path
  | none => Text.beforeLast '/' url ++ segment ++ path

/-- One kind of resource. Extensions bring kinds of their own, so the second step from a token and
the target it leads to may be any. -/
structure ResourceFeature where
  subkind : Text
  /-- Where the file for a name lies under the root segment. -/
  path : Text → Text
  refinement? : Text → Target → Option Refinement := fun _ _ => none

namespace ResourceFeature

def marker (f : ResourceFeature) : Text := '.' :: f.subkind

/-- Whether a token refers to a resource of this kind: the marker stands just before it or,
followed by a name, inside it. -/
def recognizes (f : ResourceFeature) (token : Text) (c : TokenContext) : Bool :=
  c.previous = some f.marker || (Text.wordAfter? (f.marker ++ ".") token).isSome

def name? (f : ResourceFeature) (token : Text) : Option Text := resourceName? token f.subkind

def target (f : ResourceFeature) (token url rootSegment : Text) : Target :=
  match f.name? token with
  | some name => ⟨some (resourceUrl url rootSegment (f.path name)), true⟩
  | none => .nowhere true

def ofFiles (subkind directory extension : Text) : ResourceFeature where
  subkind := subkind
  path name := directory ++ "/" ++ name ++ "." ++ extension

def layout : ResourceFeature := ofFiles "layout" "res/layout" "xml"

def menu : ResourceFeature := ofFiles "menu" "res/menu" "xml"

def stringEntry (name : Text) : Pattern :=
  .many .any ++ "<string" ++ .several .blank ++ "name=\"" ++ .chars name ++ "\"" ++ .many .any

/-- String resources share one file, so a second step points at the entry in it. -/
def string : ResourceFeature where
  subkind := "string"
  path _ := "res/values/strings.xml"
  refinement? token target := do
    let name ← resourceName? token "string"
    return ⟨← target.url, stringEntry name⟩

/-- The kinds that are always known, in the order they are tried. -/
def builtIn : List (Text × ResourceFeature) :=
  [("layout", layout), ("menu", menu), ("string", string)]

end ResourceFeature

end CodeNav
