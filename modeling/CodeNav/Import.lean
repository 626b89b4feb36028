import CodeNav.Pattern
import CodeNav.Text.Lines

namespace CodeNav

structure ImportStatement where
  name : Text
  alias? : Option Text := none
  deriving DecidableEq, Repr

namespace ImportStatement

def pattern : Pattern :=
  .many .blank ++ "import" ++ .several .blank ++
    .optional (.group ("static" ++ .several .blank)) ++
    .capture "name" (.several (.oneOf [.word, .char '.']) ++ .optional (.group ".*")) ++
    .optional (.group (.several .blank ++ "as" ++ .several .blank ++
      .capture "alias" (.several .word))) ++
    .many .blank ++ .optional ";" ++ .many .blank

def ofLine? (line : Text) : Option ImportStatement :=
  match pattern.fullMatch? line with
  | some m => some ⟨(m.text? "name").getD [], m.text? "alias"⟩
  | none => none

/-- Whether the import declares a symbol: as its alias or as the last part of its name. -/
def declares (i : ImportStatement) (symbol : Text) : Bool :=
  i.alias? = some symbol || ('.' :: symbol).isSuffixOf i.name

end ImportStatement

def isImportLine (line : Text) : Bool := (ImportStatement.ofLine? line).isSome

def importName? (line : Text) : Option Text := (ImportStatement.ofLine? line).map (·.name)

def packagePattern : Pattern :=
  .many .blank ++ "package" ++ .several .blank ++
    .capture "name" (.several (.oneOf [.word, .char '.'])) ++
    .many .blank ++ .optional ";" ++ .many .blank

def packageName? (line : Text) : Option Text :=
  match packagePattern.fullMatch? line with
  | some m => m.text? "name"
  | none => none

/-- The package of a file, empty when it declares none, and its imports in the order of the
text. -/
structure Imports where
  package : Text
  statements : List ImportStatement
  deriving DecidableEq, Repr

namespace Imports

/-- Reads the first package declaration and every import. -/
def ofText (t : Text) : Imports where
  package := (t.lines.findSome? packageName?).getD []
  statements := t.lines.filterMap ImportStatement.ofLine?

def matching (i : Imports) (symbol : Text) : List Text :=
  (i.statements.filter (·.declares symbol)).map (·.name)

end Imports

end CodeNav
