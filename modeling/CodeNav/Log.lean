import CodeNav.Text.Basic

namespace CodeNav

inductive LogLevel where
  | debug
  | info
  | warning
  | error
  | critical
  deriving DecidableEq, Repr

namespace LogLevel

def name : LogLevel → Text
  | debug => "DEBUG"
  | info => "INFO"
  | warning => "WARNING"
  | error => "ERROR"
  | critical => "CRITICAL"

def rank : LogLevel → Nat
  | debug => 0
  | info => 1
  | warning => 2
  | error => 3
  | critical => 4

def isAtLeast (level least : LogLevel) : Bool := least.rank ≤ level.rank

end LogLevel

structure LogEntry where
  level : LogLevel
  message : Text
  deriving DecidableEq, Repr

namespace LogEntry

def debug (message : Text) : LogEntry := ⟨.debug, message⟩

def info (message : Text) : LogEntry := ⟨.info, message⟩

def warning (message : Text) : LogEntry := ⟨.warning, message⟩

end LogEntry

end CodeNav
