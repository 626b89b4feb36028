import CodeNav.Text.Basic

/-!
Tokens of a settings document. Indentation becomes explicit: a collection in block form stands
between its own start and `blockEnd`, and each key of a mapping follows `key`.
-/

namespace CodeNav.Yaml

inductive Token where
  /-- A directive; one that asks for another major version of the format is not `readable`. -/
  | directive (isVersion readable : Bool)
  | documentStart
  | documentEnd
  | blockSequenceStart
  | blockMappingStart
  | blockEnd
  | flowSequenceStart
  | flowSequenceEnd
  | flowMappingStart
  | flowMappingEnd
  | flowEntry
  | blockEntry
  | key
  | value
  /-- A scalar; a plain one has no quotes. -/
  | scalar (text : Text) (plain : Bool)
  deriving DecidableEq, Repr

end CodeNav.Yaml
