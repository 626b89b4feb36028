import CodeNav.Text.Basic
import CodeNav.Text.Word

namespace CodeNav.Url

def stripAnchor (url : Text) : Text := url.before '#'

def withLine (url : Text) (line : Int) : Text := stripAnchor url ++ "#L" ++ Text.ofInt line

def after? (start url : Text) : Option Text :=
  if start.isPrefixOf url then some (url.drop start.length) else none

def skip (start url : Text) : Text := (after? start url).getD url

/-- A non-empty part up to the next slash, and what follows from that slash on. -/
def segment? (url : Text) : Option (Text × Text) :=
  let name := url.takeWhile (· != '/')
  if name.isEmpty then none else some (name, url.drop name.length)

/-- The view of one file on the code host: `rest` holds the revision and the path. -/
structure FileView where
  owner : Text
  repo : Text
  rest : Text
  deriving DecidableEq, Repr

/-- Reads the address of a file view; the view ends with its line. -/
def fileView? (url : Text) : Option FileView := do
  let host ← after? "://" (skip "s" (← after? "http" url))
  let path ← after? "github.com/" (skip "www." host)
  let (owner, path) ← segment? path
  let (repo, path) ← segment? (← after? "/" path)
  let rest := (← after? "/blob/" path).takeWhile (· != '\n')
  if rest.isEmpty then none else some ⟨owner, repo, rest⟩

def isFileView (url : Text) : Bool := (fileView? url).isSome

def rawHost : Text := "https://raw.githubusercontent.com"

/-- The address of a file's plain content; other addresses only lose their anchor. -/
def raw (url : Text) : Text :=
  match fileView? (stripAnchor url) with
  | some v => rawHost ++ "/" ++ v.owner ++ "/" ++ v.repo ++ "/" ++ v.rest
  | none => stripAnchor url

def dottedWords : Text → List Text
  | [] => []
  | c :: r =>
    if c = '.' && r.head?.any isWord then r.takeWhile isWord :: dottedWords r else dottedWords r

/-- The extension of the file an address points at, apart from anchor and query. -/
def extension? (url : Text) : Option Text :=
  let path := Text.before '?' (stripAnchor url)
  (dottedWords (Text.afterLast '/' (Text.trimRightChar '/' path))).getLast?

end CodeNav.Url
