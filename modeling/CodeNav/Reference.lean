import CodeNav.Token.Context

namespace CodeNav

/-- A click to resolve: the token as it is looked up, where it stands, and the snapshot it was
made on, when it is tied to one. -/
structure Request where
  token : Text
  context : TokenContext
  snapshot : Option Text := none
  deriving DecidableEq, Repr

namespace Request

def ofContext (c : TokenContext) : Request := ⟨c.token, c, none⟩

end Request

inductive Reference where
  | resource (subkind name : Text)
  | importLine
  | internalCall (method : Text)
  | variableUse (name : Text)
  | externalCall (receiver method : Text)
  | symbol (name : Text)
  | primitive (name : Text)
  | unclassified
  deriving DecidableEq, Repr

end CodeNav
