import CodeNav.Text.Basic

namespace CodeNav

/-- Whether `n` lies in one of the spans whose ascending borders are listed; a span holds its lower
border and not its upper one. -/
def withinSpans : List Nat → Nat → Bool
  | lo :: hi :: r, n => if n < lo then false else n < hi || withinSpans r n
  | _, _ => false

end CodeNav
