import CodeNav.Log

namespace CodeNav

def rootLogger : Text := "sourcepilot"

/-- The full name of a logger; without a name of its own it is the root logger. -/
def loggerName (name : Option Text) : Text :=
  match name with
  | some (c :: cs) => rootLogger ++ "." ++ (c :: cs)
  | _ => rootLogger

/-- Where messages go. Before anything is set up, only warnings and what is more urgent appear. -/
structure LogSetup where
  level : LogLevel
  file : Option Text := none
  deriving DecidableEq, Repr

namespace LogSetup

def standard (verbose : Bool) (file : Option Text := none) : LogSetup :=
  ⟨if verbose then .debug else .info, file⟩

def handlerCount (s : LogSetup) : Nat := if s.file.isSome then 2 else 1

def shows (s : LogSetup) (e : LogEntry) : Bool := e.level.isAtLeast s.level

end LogSetup

namespace LogEntry

def consoleText (e : LogEntry) : Text :=
  "[sourcepilot] " ++ e.level.name ++ " " ++ e.message ++ "\n"

def fileText (e : LogEntry) (logger : Text) : Text :=
  e.level.name ++ " " ++ logger ++ ": " ++ e.message ++ "\n"

end LogEntry

/-- What a list of messages, each of a logger, leaves in the files of one setup after another: each
file is there, and that of the last setup, which is in force, holds what it shows. -/
def LogSetup.fileTexts (setups : List LogSetup) (entries : List (Text × LogEntry)) :
    List (Text × Text) :=
  let shown (name : Text) : Text :=
    match setups.getLast? with
    | some s =>
      if s.file = some name then
        (entries.filter fun (_, e) => s.shows e).flatMap fun (logger, e) => e.fileText logger
      else []
    | none => []
  (setups.filterMap (·.file)).eraseDups.map fun name => (name, shown name)

def LogSetup.consoleText (setup : Option LogSetup) (entries : List LogEntry) : Text :=
  match setup with
  | some s => (entries.filter s.shows).flatMap (·.consoleText)
  | none =>
    (entries.filter fun e => e.level.isAtLeast .warning).flatMap fun e => e.message ++ "\n"

end CodeNav
