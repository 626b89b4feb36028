import CodeNav.Pattern
import CodeNav.Reference

namespace CodeNav

/-- Where a click goes; without an address it goes nowhere. -/
structure Target where
  url : Option Text
  newTab : Bool := false
  deriving DecidableEq, Repr

namespace Target

def nowhere (newTab : Bool := false) : Target := ⟨none, newTab⟩

def isClickable (t : Target) : Bool := t.url.isSome

end Target

inductive Status where
  | resolved
  | unclassified
  | primitive
  | ambiguousDefinition
  | unresolvedImport
  | unresolvedDefinition
  | deniedImport
  | deadLink
  deriving DecidableEq, Repr

namespace Status

def label : Status → Text
  | resolved => "resolved"
  | unclassified => "unclassified"
  | primitive => "primitive"
  | ambiguousDefinition => "ambiguous_definition"
  | unresolvedImport => "unresolved_import"
  | unresolvedDefinition => "unresolved_definition"
  | deniedImport => "denied_import"
  | deadLink => "dead_link"

end Status

/-- A second step: fetch a file and point at its first line that matches the pattern. -/
structure Refinement where
  fetchUrl : Text
  pattern : Pattern
  deriving Repr

structure Resolution where
  target : Target
  reference : Reference
  status : Status
  diagnostic : Option Text := none
  refinement : Option Refinement := none
  snapshot : Option Text := none
  deriving Repr

end CodeNav
