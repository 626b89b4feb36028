import CodeNav.Command.Arguments
import CodeNav.Log.Setup
import CodeNav.Navigator
import CodeNav.Remote.GitHub
import CodeNav.Settings.File

namespace CodeNav

structure Surroundings where
  files : Files
  /-- The length of time that the environment names. -/
  timeout : Option Text := none
  web : Web

/-- What a command takes from the system that it runs on: how a document of settings is read, and
where the home directories of users are. -/
structure Platform where
  yaml : Text → Except Yaml.Fault Yaml.Value
  home? : Text → Option Text

/-- The path that a text stands for. One with a null character leads nowhere. -/
def Platform.path (y : Platform) (t : Text) : Except PathError FilePath := do
  let p ← (FilePath.ofText t).expandHome y.home?
  if p.segments.any (·.contains '\x00') then throw .nullCharacter
  return p

inductive CommandError where
  | settings (e : SettingsError)
  | source (e : FileError)
  | lineOutside (line : Int) (path : Text)
  | unsupported (url : Text)
  | navigation (e : NavigationError)
  deriving DecidableEq, Repr

namespace CommandError

def message : CommandError → Text
  | settings e => e.message
  | source e => e.message
  | lineOutside line path => "line " ++ Text.ofInt line ++ " is outside of " ++ path
  | unsupported url => "unsupported file type: " ++ url
  | navigation e => e.message

def failed (message : Text) : Text := "sourcepilot resolve failed: " ++ message

def failure (e : CommandError) : Text := failed e.message

/-- What the command says before it ends with an error of its own; nothing for errors that it does
not know how to report. -/
def report? (e : CommandError) : Option Text :=
  match e with
  | settings (.document _ .malformed) | settings .noMapping => some e.message
  | settings _ => none
  | source (.missing _) => some e.message
  | source (.encoding _) => some e.failure
  | source _ => none
  | lineOutside .. | unsupported _ => some e.failure
  | navigation cause => if cause.isRefusal then some e.failure else none

end CommandError

/-- Why a command does not come to the settings or to the source. -/
inductive StartError where
  | settings (e : PathError)
  | source (e : PathError)
  deriving DecidableEq, Repr

namespace StartError

def message : StartError → Text
  | settings e | source e => e.message

def report? : StartError → Option Text
  | source .nullCharacter => some (CommandError.failed PathError.nullCharacter.message)
  | settings _ | source .noHome => none

end StartError

structure CommandRun where
  requests : List Text := []
  timeout : Seconds := .standard
  log : List LogEntry := []
  result : Except CommandError Text

namespace CommandRun

/-- The status a command ends with; none when it ends with an error that it does not report. -/
def exitCode? (r : CommandRun) : Option Nat :=
  match r.result with
  | .ok _ => some 0
  | .error e => e.report?.map fun _ => 1

def output (r : CommandRun) : Text :=
  match r.result with
  | .ok line => line ++ "\n"
  | .error _ => []

def console (r : CommandRun) (verbose : Bool) : Text :=
  LogSetup.consoleText (some (LogSetup.standard verbose)) r.log ++
    match r.result with
    | .ok _ => []
    | .error e => (e.report?.map (· ++ ['\n'])).getD []

end CommandRun

def Resolution.line (r : Option Resolution) : Text :=
  match r.bind (·.target.url), r.bind (·.diagnostic) with
  | some url, _ => url ++ if r.any (·.target.newTab) then " (new tab)".toList else []
  | none, some (c :: cs) => "not clickable: " ++ (c :: cs)
  | none, _ => "not clickable"

namespace Command

def settingsFor (o : ResolveOptions) (s : Settings) : Settings :=
  { s with
    validateLinks := s.validateLinks && o.validate
    followMethods := s.followMethods && o.follow }

def click (n : Navigator) (web : Web) (line : CodeLine) (column : Int) : CommandRun :=
  match TokenContext.atColumn? line.text (column - 1) none (some line.number) with
  | none => { result := .ok (Resolution.line none) }
  | some c =>
    let o := n.navigate (some (GitHub.remote web)) (n.tag (Request.ofContext c))
    { requests := o.requests, timeout := n.settings.requestTimeout, log := o.log,
      result := (o.result.map Resolution.line).mapError .navigation }

def onDocument (o : ResolveOptions) (s : Settings) (web : Web) (d : Document) : CommandRun :=
  match d.line? o.line with
  | none => { result := .error (.lineOutside o.line o.path) }
  | some line =>
    let start : Navigator := { settings := s, hasSink := false }
    let log := start.activateLog d
    match start.activate d with
    | .error e => { log, result := .error (.navigation (.catalog e)) }
    | .ok n =>
      if n.engine.isNone then { log, result := .error (.unsupported o.url) }
      else
        let r := click n web line o.column
        { r with log := log ++ r.log }

def onFile (x : Surroundings) (o : ResolveOptions) (s : Settings) (p : FilePath) : CommandRun :=
  match x.files.read p with
  | .error e => { result := .error (.source e) }
  | .ok t => onDocument o (settingsFor o s) x.web (.ofText t o.url [])

/-- Resolves the token that the options name. The path of the source does not count without
settings. -/
def resolveOn (y : Platform) (x : Surroundings) (config : Text) (o : ResolveOptions) :
    Except StartError CommandRun := do
  let p ← (y.path config).mapError .settings
  match Settings.loadWith y.yaml x.files x.timeout p with
  | .error e => return { result := .error (.settings e) }
  | .ok s => return onFile x o s (← (y.path o.path).mapError .source)

/-- Resolves the token that the options name, with both paths as they are. -/
def resolve (x : Surroundings) (config : Text) (o : ResolveOptions) : CommandRun :=
  match Settings.load x.files x.timeout (.ofText config) with
  | .error e => { result := .error (.settings e) }
  | .ok s => onFile x o s (.ofText o.path)

def paths (y : Platform) (config : Text) (o : ResolveOptions) : List FilePath :=
  (y.path config).toOption.toList.flatMap
      (fun p => [p, p.resolve, (p.child settingsFileName).resolve]) ++
    (y.path o.path).toOption.toList

def exitCode? : Except StartError CommandRun → Option Nat
  | .ok r => r.exitCode?
  | .error e => e.report?.map fun _ => 1

def output : Except StartError CommandRun → Text
  | .ok r => r.output
  | .error _ => []

def console (verbose : Bool) : Except StartError CommandRun → Text
  | .ok r => r.console verbose
  | .error e => (e.report?.map (· ++ ['\n'])).getD []

def escaped : Except StartError CommandRun → Text
  | .ok { result := .error e, .. } => e.message
  | .ok _ => []
  | .error e => e.message

end Command

end CodeNav
