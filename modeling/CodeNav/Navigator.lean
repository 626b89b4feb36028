import CodeNav.Engine.Trace
import CodeNav.Remote

/-!
The navigator keeps the engine of the page that is shown, answers clicks on it and hands each target
over once. Fetching and checking take a while, and the page may change meanwhile: an answer for a
page that is gone is dropped.
-/

namespace CodeNav

inductive NavigationError where
  | catalog (e : CatalogError)
  | remote (e : RemoteFault)
  deriving DecidableEq, Repr

namespace NavigationError

def message : NavigationError → Text
  | catalog e => e.message
  | remote e => e.message

/-- Whether what was asked for is at fault, and nothing around it. -/
def isRefusal : NavigationError → Bool
  | catalog (.unknown _) | catalog (.overlapping ..) | remote (.address _) => true
  | _ => false

end NavigationError

structure Navigator where
  settings : Settings := {}
  extensions : List Extension := []
  /-- Whether anyone takes the targets. -/
  hasSink : Bool := true
  engine : Option Engine := none

namespace Navigator

def activeSnapshot (n : Navigator) : Option Text := n.engine.map (·.document.snapshot)

def tag (n : Navigator) (r : Request) : Request := { r with snapshot := n.activeSnapshot }

/-- The engine for a page. Only views of files in a known language have one. -/
def engineFor (n : Navigator) (d : Document) : Except CatalogError (Option Engine) :=
  if Url.isFileView d.url then Engine.open? n.extensions n.settings d else .ok none

def activate (n : Navigator) (d : Document) : Except CatalogError Navigator :=
  (n.engineFor d).map fun e => { n with engine := e }

def activateLog (n : Navigator) (d : Document) : List LogEntry :=
  if Url.isFileView d.url then
    match n.engineFor d with
    | .ok (some _) => [.info ("Activated " ++ d.url)]
    | .ok none => Engine.openTrace d ++ [.info ("No language support for " ++ d.url)]
    | .error _ => []
  else [.info ("Not a file view: " ++ d.url)]

def deactivate (n : Navigator) : Navigator := { n with engine := none }

def change (n : Navigator) : PageChange → Except CatalogError Navigator
  | .activate d => n.activate d
  | .deactivate => .ok n.deactivate

def changeLog (n : Navigator) : PageChange → List LogEntry
  | .activate d => n.activateLog d
  | .deactivate => []

/-- One stage of a click: the navigator after it, what it did on the way, and its result. -/
structure Stage (α : Type) where
  navigator : Navigator
  calls : List RemoteCall := []
  requests : List Text := []
  log : List LogEntry := []
  result : Except NavigationError α

namespace Stage

/-- A stage followed by the next one, which does not take place after a failure. -/
def andThen {α β : Type} (s : Stage α) (next : Navigator → α → Stage β) : Stage β :=
  match s.result with
  | .error e => { s with result := .error e }
  | .ok a =>
    let t := next s.navigator a
    { navigator := t.navigator, calls := s.calls ++ t.calls, requests := s.requests ++ t.requests,
      log := s.log ++ t.log, result := t.result }

end Stage

/-- Makes a call of the remote side: the page changes first, then the answer comes. -/
def call {α : Type} (n : Navigator) (c : RemoteCall) (r : Reply α) :
    Stage (Except RemoteFault α) :=
  let log := (r.change.map n.changeLog).getD []
  match r.change.elim (Except.ok n) n.change with
  | .error e => { navigator := n, calls := [c], log, result := .error (.catalog e) }
  | .ok m =>
    { navigator := m, calls := [c], requests := r.requests, log := log ++ r.log,
      result := .ok r.answer }

/-- The second step of an answer: the file is fetched and the target moved to the matching line. A
failure to fetch keeps the target. -/
def followRefinement (n : Navigator) (remote : Option Remote) (r : Resolution) :
    Stage Resolution :=
  match r.refinement, remote with
  | some f, some remote =>
    if n.settings.followMethods then
      (n.call (.fetch f.fetchUrl) (remote.fetch f.fetchUrl)).andThen fun n answer =>
        match answer with
        | .ok t => { navigator := n, log := r.refineTrace t, result := .ok (r.refine t) }
        | .error (.address m) => { navigator := n, result := .error (.remote (.address m)) }
        | .error e =>
          { navigator := n, result := .ok r
            log := [.warning ("Secondary lookup in " ++ f.fetchUrl ++ " failed: " ++ e.message)] }
    else { navigator := n, result := .ok r }
  | _, _ => { navigator := n, result := .ok r }

def deadLink (r : Resolution) : Resolution :=
  { r with target := .nowhere r.target.newTab, status := .deadLink }

def validate (n : Navigator) (remote : Option Remote) (r : Resolution) : Stage Resolution :=
  match r.target.url, remote with
  | some url, some remote =>
    if n.settings.validateLinks then
      (n.call (.lookUp url) (remote.lookUp url)).andThen fun n answer =>
        let dead : LogEntry := .debug ("Dead link " ++ url)
        match answer with
        | .ok true => { navigator := n, result := .ok r }
        | .ok false => { navigator := n, log := [dead], result := .ok (deadLink r) }
        | .error (.system m) =>
          { navigator := n, result := .ok (deadLink r)
            log := [.warning ("Validating " ++ url ++ " failed: " ++ m), dead] }
        | .error e => { navigator := n, result := .error (.remote e) }
    else { navigator := n, result := .ok r }
  | _, _ => { navigator := n, result := .ok r }

/-- How a click goes: the navigator after it, what it did on the way, the targets handed over, and
the answer, which is absent when it was dropped. -/
structure Outcome where
  navigator : Navigator
  calls : List RemoteCall := []
  requests : List Text := []
  log : List LogEntry := []
  delivered : List Target := []
  result : Except NavigationError (Option Resolution)

def deliveries (n : Navigator) (r : Resolution) : List Target :=
  if n.hasSink then [r.target] else []

def inactive : Resolution where
  target := .nowhere
  reference := .unclassified
  status := .unclassified

def pursue (n : Navigator) (remote : Option Remote) (e : Engine) (req : Request) :
    Stage Resolution :=
  let first : Stage Resolution :=
    { navigator := n, log := e.trace req, result := .ok (e.resolve req) }
  (first.andThen fun n r => n.followRefinement remote r).andThen fun n r => n.validate remote r

/-- Answers a click, where the remote side behaves as given. A request for another snapshot than the
one shown, and an answer that comes when its snapshot is gone, are dropped. -/
def navigate (n : Navigator) (remote : Option Remote) (req : Request) : Outcome :=
  match n.engine with
  | none =>
    { navigator := n, delivered := n.deliveries inactive, result := .ok (some inactive) }
  | some e =>
    let snapshot := e.document.snapshot
    match req.snapshot.filter (· != snapshot) with
    | some other =>
      { navigator := n, result := .ok none
        log := [.debug ("Dropping request for stale snapshot " ++ other)] }
    | none =>
      let s := n.pursue remote e req
      let out (log : List LogEntry) (delivered : List Target)
          (result : Except NavigationError (Option Resolution)) : Outcome :=
        { navigator := s.navigator, calls := s.calls, requests := s.requests, log := s.log ++ log,
          delivered, result }
      match s.result with
      | .error e => out [] [] (.error e)
      | .ok r =>
        if s.navigator.activeSnapshot = some snapshot then
          out [] (s.navigator.deliveries r) (.ok (some r))
        else
          out [.debug ("Snapshot changed while resolving " ++ req.token.quoted ++ "; dropping")]
            [] (.ok none)

end Navigator

end CodeNav
