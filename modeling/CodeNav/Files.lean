import CodeNav.FilePath
import CodeNav.Text.Lines
import CodeNav.Text.Utf8

namespace CodeNav

inductive FileState where
  | missing
  /-- A file stands where the path goes through a directory. -/
  | blocked
  | directory
  | file (bytes : List UInt8)
  deriving DecidableEq, Repr

abbrev Files := FilePath → FileState

inductive FileError where
  | missing (path : FilePath)
  | blocked (path : FilePath)
  | directory (path : FilePath)
  | encoding (e : Utf8Error)
  deriving DecidableEq, Repr

namespace FileError

def report (number : Int) (reason : Text) (path : FilePath) : Text :=
  "[Errno " ++ Text.ofInt number ++ "] " ++ reason ++ ": " ++ path.text.quoted

def message : FileError → Text
  | missing p => report 2 "No such file or directory" p
  | blocked p => report 20 "Not a directory" p
  | directory p => report 21 "Is a directory" p
  | encoding e => e.message

end FileError

namespace Files

def isDirectory (files : Files) (p : FilePath) : Bool := files p = .directory

/-- The text of a file, with all line ends read as line feeds. -/
def read (files : Files) (p : FilePath) : Except FileError Text :=
  match files p with
  | .missing => .error (.missing p)
  | .blocked => .error (.blocked p)
  | .directory => .error (.directory p)
  | .file bytes =>
    match Utf8.decode bytes with
    | .ok t => .ok t.unifyLineEnds
    | .error e => .error (.encoding e)

end Files

inductive FileEntry where
  | directory
  | file (bytes : List UInt8)
  deriving DecidableEq, Repr

/-- The entries below the current directory, by their segments. -/
structure FileTree where
  entries : List (List Text × FileEntry)
  deriving DecidableEq, Repr

namespace FileTree

/-- What stands at segments without dots. The current directory, those above it and those that hold
an entry are directories. -/
def entry? (t : FileTree) (segments : List Text) : Option FileEntry :=
  match t.entries.lookup segments with
  | some e => some e
  | none =>
    if segments.all (· == "..".toList) || t.entries.any fun (s, _) => segments.isPrefixOf s then
      some .directory
    else none

def follow (t : FileTree) : (here : List Text) → List Text → FileState
  | here, [] =>
    match t.entry? here with
    | some (.file bytes) => .file bytes
    | some .directory => .directory
    | none => .missing
  | here, s :: r =>
    match t.entry? here with
    | some (.file _) => .blocked
    | some .directory => t.follow (FilePath.resolveSegments false here [s]) r
    | none => .missing

def files (t : FileTree) : Files := fun p =>
  if p.root.isEmpty then t.follow [] p.segments else .missing

end FileTree

end CodeNav
