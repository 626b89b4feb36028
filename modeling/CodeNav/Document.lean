import CodeNav.Import

namespace CodeNav

/-- A visible line and the number the host anchors it with. -/
structure CodeLine where
  number : Int
  text : Text
  deriving DecidableEq, Repr

namespace CodeLine

def numberedFrom (n : Int) : List Text → List CodeLine
  | [] => []
  | t :: ts => ⟨n, t⟩ :: numberedFrom (n + 1) ts

def ofText (t : Text) : List CodeLine := numberedFrom 1 t.lines

end CodeLine

/-- One view of a hosted file. The snapshot tells two views apart, also of the same file. -/
structure Document where
  url : Text
  text : Text
  lines : List CodeLine
  snapshot : Text
  deriving DecidableEq, Repr

namespace Document

def ofText (text url snapshot : Text) : Document := ⟨url, text, CodeLine.ofText text, snapshot⟩

def ofLines (lines : List CodeLine) (url snapshot : Text) : Document :=
  ⟨url, Text.join "\n" (lines.map (·.text)), lines, snapshot⟩

def imports (d : Document) : Imports := .ofText d.text

def line? (d : Document) (number : Int) : Option CodeLine := d.lines.find? (·.number = number)

def package (d : Document) : Text := d.imports.package

end Document

end CodeNav
