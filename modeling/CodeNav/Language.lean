import CodeNav.Document
import CodeNav.Text.Case
import CodeNav.Token.Context
import CodeNav.Url

namespace CodeNav

inductive Language where
  | kotlin
  | java
  deriving DecidableEq, Repr

namespace Language

def extension : Language → Text
  | kotlin => "kt"
  | java => "java"

def ofExtension? (extension : Text) : Option Language :=
  let e := extension.lower
  if e = "kt".toList || e = "kts".toList then some kotlin
  else if e = "java".toList then some java
  else none

def ofUrl? (url : Text) : Option Language := (Url.extension? url).bind ofExtension?

def primitives : Language → List Text
  | kotlin => ["Boolean", "Long", "Float", "Double", "Char", "Int", "String"]
  | java => ["boolean", "byte", "char", "short", "int", "long", "float", "double", "void",
      "Boolean", "Byte", "Character", "Short", "Integer", "Long", "Float", "Double", "String",
      "Object"]

/-- A name as it is looked up: without surrounding blanks and without nullability marks. -/
def bareName (token : Text) : Text := Text.erase '?' token.trim

def isPrimitive (l : Language) (token : Text) : Bool := l.primitives.contains (bareName token)

def importTerminators : Language → List Text
  | kotlin => ["as"]
  | java => [";"]

def importLine : Language → Text → Text
  | kotlin, name => "import " ++ name
  | java, name => "import " ++ name ++ ";"

def isOnLastSegment (l : Language) (c : TokenContext) : Bool :=
  match c.nextNonBlank with
  | none => true
  | some t => l.importTerminators.contains t.trim

def modifierWords : List Text :=
  ["public", "protected", "private", "static", "final", "abstract", "synchronized", "native",
    "default"]

def javaModifiers : Pattern := .repeated (.group (.words modifierWords ++ .several .blank))

def statementKeywords : List Text := ["return", "new", "else", "throw", "case"]

def notJavaKeyword : Pattern := .notAhead (.words statementKeywords ++ .wordEdge)

def javaTypeChars : CharClass :=
  .oneOf [.word, .char '.', .char '<', .char '>', .char '[', .char ']', .char '?']

/-- A type; blanks stand only around the commas of its arguments. -/
def javaType : Pattern :=
  notJavaKeyword ++ .several javaTypeChars ++
    .repeated (.group (.many .blank ++ "," ++ .many .blank ++ .several javaTypeChars))

def dottedName : Pattern := .capture "type" (.several (.oneOf [.word, .char '.']))

def methodPattern : Language → Text → Pattern
  | kotlin, name =>
    .many .any ++ .wordEdge ++ "fun" ++ .several .blank ++
      .optional (.group ("<" ++ .several (.noneOf [.char '>']) ++ ">" ++ .many .blank)) ++
      .optional (.group (.several (.oneOf [.word, .char '.']) ++ ".")) ++
      .chars name ++ .many .blank ++ "(" ++ .many .any
  | java, name =>
    .many .blank ++ javaModifiers ++
      .optional (.group ("<" ++ .several (.noneOf [.char '>']) ++ ">" ++ .several .blank)) ++
      javaType ++ .several .blank ++ .chars name ++ .many .blank ++ "(" ++ .many .any

def classPattern (l : Language) (name : Text) : Pattern :=
  let keywords : List Text :=
    match l with
    | kotlin => ["interface", "class", "object"]
    | java => ["interface", "class", "enum", "record"]
  .many .any ++ .wordEdge ++ .words keywords ++ .several .blank ++ .chars name ++ .wordEdge ++
    .many .any

def declarationPattern : Language → Text → Pattern
  | kotlin, name =>
    .many .any ++ .wordEdge ++ .words ["val", "var"] ++ .several .blank ++ .chars name ++
      .wordEdge ++ .many .any
  | java, name =>
    .many .blank ++ javaModifiers ++ javaType ++ .several .blank ++ .chars name ++
      .many .blank ++ ";" ++ .many .any

/-- What binds a variable to a type or a value, which is captured as "type". The patterns are
tried in order on the whole text, and the first one that matches anywhere counts. -/
def bindingPatterns : Language → Text → List Pattern
  | kotlin, name =>
    [ .wordEdge ++ .words ["val", "var"] ++ .several .blank ++ .chars name ++ .many .blank ++
        ":" ++ .many .blank ++ dottedName,
      .wordEdge ++ .words ["val", "var"] ++ .several .blank ++ .chars name ++ .many .blank ++
        "=" ++ .many .blank ++ dottedName,
      .lineStart ++ .many .blank ++ .chars name ++ .many .blank ++ "=" ++ .many .blank ++
        dottedName ]
  | java, name =>
    [ .wordEdge ++ .chars name ++ .many .blank ++ "=" ++ .many .blank ++ "new" ++
        .several .blank ++ dottedName,
      .notAfter (.oneOf [.word, .char '.']) ++ notJavaKeyword ++ dottedName ++
        .optional (.group ("<" ++
          .many (.noneOf [.char '=', .char ';', .char '(', .char ')']) ++ ">")) ++
        .several .blank ++ .chars name ++ .many .blank ++ .one (.oneOf [.char '=', .char ';']) ]

end Language

end CodeNav
