import CodeNav.Text.Basic

/-!
Paths of files: segments after an optional root. Empty segments and dots do not count; two dots lead
to the directory above.
-/

namespace CodeNav

/-- A path as its segments, from the current directory where the root is empty. -/
structure FilePath where
  root : Text := []
  segments : List Text
  deriving DecidableEq, Repr

inductive PathError where
  | noHome
  | nullCharacter
  deriving DecidableEq, Repr

def PathError.message : PathError → Text
  | noHome => "Could not determine home directory."
  | nullCharacter => "embedded null byte"

namespace FilePath

/-- The root that a text begins with: two slashes are one of their own, more are a single one. -/
def rootOf (t : Text) : Text :=
  match (t.takeWhile (· == '/')).length with
  | 0 => []
  | 2 => "//"
  | _ => "/"

def ofText (t : Text) : FilePath :=
  ⟨rootOf t, (Text.parts '/' t).filter fun s => !s.isEmpty && s != ['.']⟩

def text (p : FilePath) : Text :=
  if p.root.isEmpty && p.segments.isEmpty then ['.'] else p.root ++ Text.join "/" p.segments

def child (p : FilePath) (name : Text) : FilePath := { p with segments := p.segments ++ [name] }

/-- The segments with each ".." taken together with the segment before it. Those that lead above the
start remain, unless the path has a root. -/
def resolveSegments (rooted : Bool) : (before : List Text) → List Text → List Text
  | before, [] => before
  | before, s :: r =>
    let next :=
      if s != "..".toList then before ++ [s]
      else if before.getLast?.all (· == "..".toList) then
        if rooted then before else before ++ [s]
      else before.dropLast
    resolveSegments rooted next r

def resolve (p : FilePath) : FilePath :=
  { p with segments := resolveSegments (!p.root.isEmpty) [] p.segments }

def parent (p : FilePath) : FilePath := (p.child "..").resolve

/-- The path that starts at a home directory in place of a first segment that stands for one: a
tilde and the name of a user, or no name for the current one. `home?` tells the directories; none of
them may start with a tilde in turn. No user has a null character in the name. -/
def expandHome (home? : Text → Option Text) (p : FilePath) : Except PathError FilePath :=
  match p.root, p.segments with
  | [], ('~' :: user) :: rest =>
    if user.contains '\x00' then .ok p
    else
      match home? user with
      | none | some ('~' :: _) => .error .noHome
      | some directory =>
        let start := Text.trimRightChar '/' directory
        let home := ofText (if start.isEmpty then "/" else start)
        .ok { home with segments := home.segments ++ rest }
  | _, _ => .ok p

/-- The last segment of a path; empty for the current directory and for a root. -/
def name (p : FilePath) : Text := p.segments.getLast?.getD []

end FilePath

end CodeNav
