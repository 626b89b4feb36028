import CodeNav.Document

namespace CodeNav.Locator

/-- Whether a line shows something and matches the pattern. -/
def lineMatches (p : Pattern) (l : CodeLine) : Bool := !Text.isBlank l.text && p.matchesAll l.text

def first? (lines : List CodeLine) (p : Pattern) : Option Int :=
  (lines.find? (lineMatches p)).map (·.number)

def all (lines : List CodeLine) (p : Pattern) : List Int :=
  (lines.filter (lineMatches p)).map (·.number)

/-- The number of the first matching line, when an anchor can name it. -/
def anchor? (lines : List CodeLine) (p : Pattern) : Option Int :=
  (first? lines p).filter (0 < ·)

/-- The name, with or without a type, followed by an assignment sign. Comparisons and writes to
members of other objects do not count. -/
def assignmentPattern (name : Text) : Pattern :=
  .many .any ++ .notAfter (.oneOf [.word, .char '.']) ++ .chars name ++ .many .blank ++
    .optional (.group (":" ++ .many .blank ++
      .fewest (.oneOf
        [.word, .char '.', .char '<', .char '>', .char '?', .char ',', .char ' ']))) ++
    .many .blank ++ "=" ++ .notAhead "=" ++ .many .any

end CodeNav.Locator
