import CodeNav.Number.Binary64

namespace CodeNav

/-- A length of time in seconds, as it was given. -/
inductive Seconds where
  | whole (n : Int)
  | float (x : Float)
  deriving Repr

namespace Seconds

def text : Seconds → Text
  | whole n => Text.ofInt n
  | float x => Binary64.text x

def standard : Seconds := float 10.0

def isZero : Seconds → Bool
  | whole n => n = 0
  | float x => x == 0.0

/-- The length, or the standard one in place of zero. -/
def orStandard (s : Seconds) : Seconds := if s.isZero then standard else s

end Seconds

structure Settings where
  rootSegment : Text := "main"
  /-- The names of the resource kinds in use; all of them when absent. -/
  enabled : Option (List Text) := none
  deniedPrefixes : List Text := []
  validateLinks : Bool := true
  followMethods : Bool := true
  requestTimeout : Seconds := .standard
  deriving Repr

end CodeNav
