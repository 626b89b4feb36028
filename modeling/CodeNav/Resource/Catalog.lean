import CodeNav.Resource
import CodeNav.Text.Case

namespace CodeNav

/-- What an extension offers under a name: loading it fails with a reason, or gives something that
is a resource kind or is none. -/
structure Extension where
  name : Text
  load : Except Text (Option ResourceFeature)

inductive CatalogError where
  | loadFailed (name reason : Text)
  | notAFeature
  | unknown (names : List Text)
  | overlapping (marker other : Text)
  deriving DecidableEq, Repr

namespace CatalogError

def message : CatalogError → Text
  | loadFailed name reason =>
    "Failed to load feature entry point '" ++ name ++ "': " ++ reason
  | notAFeature => "Feature entry point must be a ResourceFeature subclass or factory"
  | unknown names => "Unknown resource features requested: " ++ Text.join ", " names
  | overlapping marker other =>
    "Resource features claim overlapping markers: " ++ marker ++ ", " ++ other

end CatalogError

namespace Catalog

/-- The kinds found so far, in order, and the lower-case names they were found under. -/
structure Found where
  features : List ResourceFeature := []
  names : List Text := []

/-- Whether a lower-case name is to be used: it is enabled, and no kind was found under it yet. -/
def isWanted (enabled : Option (List Text)) (f : Found) (key : Text) : Bool :=
  enabled.all (·.contains key) && !f.names.contains key

def take (enabled : Option (List Text)) (f : Found) (name : Text)
    (offer : Option ResourceFeature) : Except CatalogError Found :=
  if isWanted enabled f name.lower then
    match offer with
    | some feature => .ok ⟨f.features ++ [feature], f.names ++ [name.lower]⟩
    | none => .error .notAFeature
  else .ok f

/-- Loads an extension, also one that is not wanted, and takes what it offers. -/
def takeExtension (enabled : Option (List Text)) (f : Found) (e : Extension) :
    Except CatalogError Found :=
  match e.load with
  | .ok offer => take enabled f e.name offer
  | .error reason => .error (.loadFailed e.name reason)

/-- The enabled names under which nothing was found, each once, in order. -/
def missing (enabled found : List Text) : List Text :=
  ((enabled.filter fun n => !found.contains n).eraseDups).mergeSort fun a b => !(b < a)

/-- Whether two markers cannot be told apart: one is the other or starts with it and a dot. -/
def overlap (a b : Text) : Bool :=
  a = b || (b ++ ['.']).isPrefixOf a || (a ++ ['.']).isPrefixOf b

def firstOverlap? : List Text → Option (Text × Text)
  | [] => none
  | m :: ms => ((ms.find? (overlap m)).map fun o => (m, o)).or (firstOverlap? ms)

/-- The resource kinds in use: the built-in ones, then those of the extensions, each lower-case name
once. All of them are used when no names are given, else those with an enabled name. -/
def features (extensions : List Extension) (enabled : Option (List Text)) :
    Except CatalogError (List ResourceFeature) := do
  let enabled := enabled.map (·.map Text.lower)
  let found ← ResourceFeature.builtIn.foldlM (fun f (name, feature) => take enabled f name feature)
    ({} : Found)
  let found ← extensions.foldlM (takeExtension enabled) found
  match enabled.map (missing · found.names) with
  | some (n :: ns) => throw (.unknown (n :: ns))
  | _ => pure ()
  match firstOverlap? (found.features.map (·.marker)) with
  | some (a, b) => throw (.overlapping a b)
  | none => return found.features

end Catalog

end CodeNav
