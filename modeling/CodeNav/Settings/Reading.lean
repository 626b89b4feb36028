import CodeNav.Files
import CodeNav.Settings
import CodeNav.Text.Case
import CodeNav.Yaml.Value

namespace CodeNav

def settingsFileName : Text := ".sourcepilot.yml"

inductive SettingsError where
  | unreadable (e : FileError)
  | document (fileName : Text) (f : Yaml.Fault)
  | noMapping
  /-- A number has too many digits to be written. -/
  | tooManyDigits
  /-- A number is beyond the largest length of time. -/
  | tooLong
  deriving DecidableEq, Repr

namespace SettingsError

def digitLimit : Text := "Exceeds the limit (4300 digits) for integer string conversion"

def limitAdvice : Text := "; use sys.set_int_max_str_digits() to increase the limit"

def message : SettingsError → Text
  | unreadable e => e.message
  | document fileName .malformed => "Failed to parse " ++ fileName
  | document _ (.numberTooLong digits) =>
    digitLimit ++ ": value has " ++ Text.ofInt digits ++ " digits" ++ limitAdvice
  | document _ (.noDigits base) =>
    "invalid literal for int() with base " ++ Text.ofInt base ++ ": ''"
  | document _ (.other m) => m
  | noMapping => settingsFileName ++ " must contain a mapping at the root"
  | tooManyDigits => digitLimit ++ limitAdvice
  | tooLong => "int too large to convert to float"

end SettingsError

namespace Settings

open Yaml (Value)

/-- A value as a text, if it is a text, a number or a truth value. -/
def asText? : Value → Except SettingsError (Option Text)
  | .text t => .ok (some t)
  | .bool b => .ok (some (if b then "True" else "False"))
  | .int n =>
    if n.natAbs < Nat.pow 10 Number.maxDigits then .ok (some (Text.ofInt n))
    else .error .tooManyDigits
  | .float x => .ok (some (Binary64.text x))
  | _ => .ok none

/-- A value as a list of texts: a text stands for itself alone, and items that are no texts are left
out. -/
def asTexts : Value → Except SettingsError (List Text)
  | .text t => .ok [t]
  | .list items => (items.mapM asText?).map (·.filterMap id)
  | _ => .ok []

def asBool? : Value → Option Bool
  | .bool b => some b
  | .text t =>
    let t := t.trim.lower
    if (["true", "yes", "1"].map String.toList).contains t then some true
    else if (["false", "no", "0"].map String.toList).contains t then some false
    else none
  | _ => none

def asSeconds? : Value → Except SettingsError (Option Seconds)
  | .int n =>
    match Binary64.ofInt? n with
    | some x => .ok (some (.float x))
    | none => .error .tooLong
  | .float x => .ok (some (.float x))
  | .text t => .ok ((Number.readFloat? t).map .float)
  | _ => .ok none

def value? (v : Value) (part name : Text) : Option Value :=
  (v.field? part).bind (·.field? name)

/-- The segment for resource files: the slashes around it do not count, and an empty text says
nothing. -/
def rootSegmentOf (v : Value) : Except SettingsError Text := do
  match ← asText? v with
  | some (c :: cs) => return Text.trimChar '/' (c :: cs)
  | _ => return ({} : Settings).rootSegment

/-- The settings in the value of a document; nothing in a document leaves them as they are. -/
def ofValue (v : Value) : Except SettingsError Settings :=
  match v with
  | .null => .ok {}
  | .record _ => do
    let rootSegment ← rootSegmentOf ((value? v "resources" "root_segment").getD .null)
    let enabled ← (value? v "resources" "enabled").mapM asTexts
    let deniedPrefixes ← asTexts ((value? v "resolution" "denied_prefixes").getD .null)
    let timeout ← asSeconds? ((value? v "navigation" "request_timeout").getD .null)
    let truth (name : Text) : Bool := ((value? v "navigation" name).bind asBool?).getD true
    return {
      rootSegment, enabled, deniedPrefixes
      validateLinks := truth "validate_links"
      followMethods := truth "follow_methods"
      requestTimeout := timeout.getD .standard }
  | _ => .error .noMapping

def ofTextWith (read : Text → Except Yaml.Fault Value) (fileName t : Text) :
    Except SettingsError Settings :=
  if t.isBlank then .ok {}
  else
    match read t with
    | .ok v => ofValue v
    | .error f => .error (.document fileName f)

def withTimeout (s : Settings) (timeout : Option Text) : Settings :=
  match timeout.bind Number.readFloat? with
  | some x => { s with requestTimeout := .float x }
  | none => s

end Settings

end CodeNav
