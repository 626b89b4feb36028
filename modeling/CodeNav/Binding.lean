import CodeNav.Language

namespace CodeNav.Binding

def assignedFrom? (l : Language) (name text : Text) : Option Text :=
  (l.bindingPatterns name).findSome? fun p => (p.search? text).map fun m =>
    (m.text? "type").getD []

/-- The type or value a variable is bound to, when it is a single word. -/
def declaredType? (l : Language) (name text : Text) : Option Text :=
  (assignedFrom? l (Language.bareName name) text).filter isWordRun

end CodeNav.Binding
