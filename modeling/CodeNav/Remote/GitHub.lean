import CodeNav.Remote
import CodeNav.Text.Utf8
import CodeNav.Url.Scheme

namespace CodeNav

inductive WebReply where
  | httpError (code : Int)
  | unreachable (reason : Text)
  | brokenResponse (message : Text)
  | refused (message : Text)
  | systemError (message : Text)
  /-- A response; without a status it counts as one with status 200. -/
  | response (status : Option Int) (body : List UInt8)
  deriving DecidableEq, Repr

abbrev Web := Text → WebReply

namespace GitHub

def requestUrl (url : Text) : Text := Text.trim url

/-- Whether a file exists: its address without anchor answers with status 200. A failure to reach it
counts as missing, except one that the system reports. -/
def lookUp (web : Web) (url : Text) : Reply Bool :=
  let target := Url.stripAnchor url
  match Url.isWeb target with
  | .error e => { answer := .error (.address e.message) }
  | .ok false =>
    { log := [.debug ("Existence check skipped for non-HTTP url " ++ url)], answer := .ok false }
  | .ok true =>
    let asked := requestUrl target
    let failed (level : LogLevel) (reason : Text) : Reply Bool :=
      { requests := [asked], log := [⟨level, "Existence check for " ++ url ++ reason⟩],
        answer := .ok false }
    match web asked with
    | .httpError code => failed .debug (" failed with " ++ Text.ofInt code)
    | .unreachable m | .brokenResponse m | .refused m => failed .warning (" failed: " ++ m)
    | .systemError m => { requests := [asked], answer := .error (.system m) }
    | .response status _ => { requests := [asked], answer := .ok (status.all (· == 200)) }

def fetch (web : Web) (url : Text) : Reply Text :=
  let target := Url.raw url
  match Url.isWeb target with
  | .error e => { answer := .error (.address e.message) }
  | .ok false =>
    { answer := .error (.fetch ("Refusing to fetch non-HTTP url '" ++ url ++ "'")) }
  | .ok true =>
    let asked := requestUrl target
    let failed (reason : Text) : Except RemoteFault Text :=
      .error (.fetch ("Fetching " ++ target ++ " failed" ++ reason))
    { requests := [asked]
      answer :=
        match web asked with
        | .httpError code => failed (" with status " ++ Text.ofInt code)
        | .unreachable m | .brokenResponse m | .refused m => failed (": " ++ m)
        | .systemError m => .error (.system m)
        | .response _ body =>
          match Utf8.decode body with
          | .ok t => .ok t
          | .error _ => .error (.fetch (target ++ " is not valid UTF-8 text")) }

def remote (web : Web) : Remote := ⟨lookUp web, fetch web⟩

end GitHub

end CodeNav
