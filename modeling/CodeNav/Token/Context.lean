import CodeNav.Token

namespace CodeNav

/-- A clicked token between the tokens before and after it, with the highlighting class the host
gives it and the number of its line. -/
structure TokenContext where
  preceding : List Text
  token : Text
  following : List Text
  cssClass : Option Text := none
  lineNumber : Option Int := none
  deriving DecidableEq, Repr

namespace TokenContext

def siblings (c : TokenContext) : List Text := c.preceding ++ c.token :: c.following

def index (c : TokenContext) : Nat := c.preceding.length

def lineText (c : TokenContext) : Text := c.siblings.flatten

def previous (c : TokenContext) : Option Text := c.preceding.getLast?

def next (c : TokenContext) : Option Text := c.following.head?

/-- The `k`-th token before this one that shows something, counted from one. -/
def previousNonBlank (c : TokenContext) : Nat → Option Text
  | 0 => none
  | k + 1 => (c.preceding.reverse.filter fun t => !Text.isBlank t)[k]?

def nextNonBlank (c : TokenContext) : Option Text := c.following.find? fun t => !Text.isBlank t

/-- The click on the token at a place among its siblings; none when there is no such place. -/
def ofSiblings? (siblings : List Text) (index : Int) (cssClass : Option Text)
    (lineNumber : Option Int) : Option TokenContext :=
  match index with
  | .ofNat i =>
    match siblings.drop i with
    | t :: r => some ⟨siblings.take i, t, r, cssClass, lineNumber⟩
    | [] => none
  | .negSucc _ => none

def covering? : List Text → Nat → Option (List Text × Text × List Text)
  | [], _ => none
  | t :: ts, column =>
    if column < t.length then some ([], t, ts)
    else (covering? ts (column - t.length)).map fun (a, x, b) => (t :: a, x, b)

def occurrence? (token : Text) : List Text → Nat → Option (List Text × Text × List Text)
  | [], _ => none
  | t :: ts, k =>
    if t = token && k = 1 then some ([], t, ts)
    else (occurrence? token ts (if t = token then k - 1 else k)).map fun (a, x, b) =>
      (t :: a, x, b)

/-- The click on the token that covers a column, counted from zero; none outside of the line and
on blanks. -/
def atColumn? (line : Text) (column : Int) (cssClass : Option Text) (lineNumber : Option Int) :
    Option TokenContext :=
  match column with
  | .negSucc _ => none
  | .ofNat n =>
    match covering? (Token.ofLine line) n with
    | some (a, t, b) => if Text.isBlank t then none else some ⟨a, t, b, cssClass, lineNumber⟩
    | none => none

def ofToken? (line token : Text) (k : Int) (cssClass : Option Text) (lineNumber : Option Int) :
    Option TokenContext :=
  match k with
  | .ofNat (n + 1) =>
    (occurrence? token (Token.ofLine line) (n + 1)).map fun (a, t, b) =>
      ⟨a, t, b, cssClass, lineNumber⟩
  | _ => none

end TokenContext

end CodeNav
