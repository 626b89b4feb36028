import CodeNav.Text.Spans

namespace CodeNav

def blankSpans : List Nat := [
  9, 14, 28, 33, 133, 134, 160, 161, 5760, 5761, 8192, 8203, 8232, 8234, 8239, 8240, 8287, 8288,
  12288, 12289
]

/-- A space, a line end or one of the separators U+001C to U+001F. -/
def isBlank (c : Char) : Bool := withinSpans blankSpans c.toNat

/-- Whether a text shows nothing: it is empty or all blank. -/
def Text.isBlank (t : Text) : Bool := t.all CodeNav.isBlank

def Text.trim (t : Text) : Text :=
  ((t.dropWhile CodeNav.isBlank).reverse.dropWhile CodeNav.isBlank).reverse

end CodeNav
