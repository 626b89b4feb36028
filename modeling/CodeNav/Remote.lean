import CodeNav.Document
import CodeNav.Log

namespace CodeNav

inductive RemoteFault where
  | fetch (message : Text)
  | system (message : Text)
  | address (message : Text)
  deriving DecidableEq, Repr

namespace RemoteFault

def message : RemoteFault → Text
  | fetch m => m
  | system m => m
  | address m => m

end RemoteFault

/-- What may happen to the page while a call is under way. -/
inductive PageChange where
  | activate (d : Document)
  | deactivate
  deriving DecidableEq, Repr

/-- How a call goes: a change of the page first, then the requests made, what is logged and the
answer. -/
structure Reply (α : Type) where
  change : Option PageChange := none
  requests : List Text := []
  log : List LogEntry := []
  answer : Except RemoteFault α

/-- How the remote side behaves during one click. -/
structure Remote where
  lookUp : Text → Reply Bool
  fetch : Text → Reply Text

inductive RemoteCall where
  | lookUp (url : Text)
  | fetch (url : Text)
  deriving DecidableEq, Repr

end CodeNav
