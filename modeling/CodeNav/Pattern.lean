import CodeNav.Text.Blank
import CodeNav.Text.Word

/-!
Patterns over text: what a declaration, an import line or an assignment looks like. A pattern is
matched by trying its choices in order (`Pattern.run`), so the first way to match decides what is
captured, and it has a written form in the usual notation for regular expressions
(`Pattern.written`).
-/

namespace CodeNav

inductive ClassItem where
  | word
  | char (c : Char)
  deriving DecidableEq, Repr

inductive CharClass where
  /-- Anything but a line feed. -/
  | any
  | blank
  | word
  | oneOf (items : List ClassItem)
  | noneOf (items : List ClassItem)
  deriving DecidableEq, Repr

inductive Pattern where
  | chars (t : Text)
  /-- One of these words, tried in order. -/
  | words (ts : List Text)
  | one (s : CharClass)
  /-- Any number of characters of a class, as many as possible first. -/
  | many (s : CharClass)
  /-- One or more characters of a class, as many as possible first. -/
  | several (s : CharClass)
  /-- One or more characters of a class, as few as possible first. -/
  | fewest (s : CharClass)
  | seq (p q : Pattern)
  /-- The pattern or nothing, the pattern first. -/
  | optional (p : Pattern)
  /-- Any number of repetitions, as many as possible first. -/
  | repeated (p : Pattern)
  | group (p : Pattern)
  /-- The pattern as one unit whose text is kept under a name. -/
  | capture (name : Text) (p : Pattern)
  /-- Holds where the pattern does not match. -/
  | notAhead (p : Pattern)
  /-- Holds where the character just before is not of the class. -/
  | notAfter (s : CharClass)
  /-- Holds between a word character and one that is none. -/
  | wordEdge
  /-- Holds at the start of a line. -/
  | lineStart
  deriving Repr

instance : Append Pattern := ⟨.seq⟩

instance : Coe String Pattern := ⟨fun s => .chars s.toList⟩

namespace ClassItem

def holds : ClassItem → Char → Bool
  | word, c => isWord c
  | char d, c => c = d

end ClassItem

namespace CharClass

def holds : CharClass → Char → Bool
  | any, c => c != '\n'
  | blank, c => isBlank c
  | word, c => isWord c
  | oneOf items, c => items.any (·.holds c)
  | noneOf items, c => !items.any (·.holds c)

end CharClass

namespace Pattern

/-- A place in a text that is being matched: the character before it, the text from it on, how many
characters were passed since matching began, and what was captured so far, latest first. -/
structure Place where
  previous : Option Char
  rest : Text
  passed : Nat := 0
  captured : List (Text × Text) := []
  deriving DecidableEq, Repr

/-- What remains to be matched from a place on. -/
abbrev Continue := Place → Option Place

namespace Place

def start (t : Text) : Place := { previous := none, rest := t }

def after? (q : Place) : Text → Option Place
  | [] => some q
  | c :: t =>
    match q.rest with
    | d :: r =>
      if c = d then
        after? { q with previous := some d, rest := r, passed := q.passed + 1 } t
      else none
    | [] => none

def afterOne? (q : Place) (s : CharClass) : Option Place :=
  match q.rest with
  | d :: r =>
    if s.holds d then
      some { q with previous := some d, rest := r, passed := q.passed + 1 }
    else none
  | [] => none

def movedTo (q : Place) (previous : Option Char) (rest : Text) (passed : Nat) : Place :=
  { q with previous := previous, rest := rest, passed := passed }

def isWordEdge (q : Place) : Bool := q.previous.any isWord != q.rest.head?.any isWord

def isLineStart (q : Place) : Bool := q.previous.all (· == '\n')

end Place

/-- Matches characters of the class and goes on, after as many of them as possible first. -/
def runMany (s : CharClass) (k : Continue) (q : Place) : Option Char → Text → Nat → Option Place
  | b, [], n => k (q.movedTo b [] n)
  | b, c :: r, n =>
    if s.holds c then
      match runMany s k q (some c) r (n + 1) with
      | some e => some e
      | none => k (q.movedTo b (c :: r) n)
    else k (q.movedTo b (c :: r) n)

/-- Matches characters of the class and goes on, after as few of them as possible first. -/
def runFewest (s : CharClass) (k : Continue) (q : Place) : Option Char → Text → Nat → Option Place
  | b, [], n => k (q.movedTo b [] n)
  | b, c :: r, n =>
    match k (q.movedTo b (c :: r) n) with
    | some e => some e
    | none => if s.holds c then runFewest s k q (some c) r (n + 1) else none

/-- Repeats `step`, at most so many times, and goes on, after as many repetitions as possible
first. A repetition has to pass at least one character. -/
def runRepeated (step : Continue → Place → Option Place) (k : Continue) :
    Nat → Place → Option Place
  | 0, q => k q
  | n + 1, q =>
    match step (fun e => if q.passed < e.passed then runRepeated step k n e else none) q with
    | some e => some e
    | none => k q

/-- Matches from a place on and continues with `k`; the first choice that succeeds counts. -/
def run : Pattern → Continue → Place → Option Place
  | chars t, k, q => (q.after? t).bind k
  | words ts, k, q => ts.findSome? fun t => (q.after? t).bind k
  | one s, k, q => (q.afterOne? s).bind k
  | many s, k, q => runMany s k q q.previous q.rest q.passed
  | several s, k, q => (q.afterOne? s).bind fun e => runMany s k e e.previous e.rest e.passed
  | fewest s, k, q => (q.afterOne? s).bind fun e => runFewest s k e e.previous e.rest e.passed
  | seq p r, k, q => run p (run r k) q
  | optional p, k, q =>
    match run p k q with
    | some e => some e
    | none => k q
  | repeated p, k, q => runRepeated (run p) k q.rest.length q
  | group p, k, q => run p k q
  | capture name p, k, q =>
    run p (fun e =>
      k { e with captured := (name, q.rest.take (e.passed - q.passed)) :: e.captured }) q
  | notAhead p, k, q => if (run p some q).isSome then none else k q
  | notAfter s, k, q => if q.previous.any s.holds then none else k q
  | wordEdge, k, q => if q.isWordEdge then k q else none
  | lineStart, k, q => if q.isLineStart then k q else none

def atEnd : Continue := fun e => if e.rest.isEmpty then some e else none

def fullMatch? (p : Pattern) (t : Text) : Option Place := run p atEnd (.start t)

def matchesAll (p : Pattern) (t : Text) : Bool := (p.fullMatch? t).isSome

def searchFrom? (p : Pattern) (previous : Option Char) : Text → Option Place
  | [] => run p some { previous := previous, rest := [] }
  | c :: r =>
    match run p some { previous := previous, rest := c :: r } with
    | some e => some e
    | none => searchFrom? p (some c) r

def search? (p : Pattern) (t : Text) : Option Place := p.searchFrom? none t

def Place.text? (e : Place) (name : Text) : Option Text := e.captured.lookup name

end Pattern

def specialChars : Text := "()[]\x7b\x7d?*+-|^$\\.&~# \t\n\r\x0b\x0c"

def Text.escaped (t : Text) : Text :=
  t.flatMap fun c => if specialChars.contains c then ['\\', c] else [c]

namespace ClassItem

def written : ClassItem → Text
  | word => "\\w"
  | char c => if c = '[' || c = ']' || c = '\\' || c = '^' || c = '-' then ['\\', c] else [c]

end ClassItem

namespace CharClass

def written : CharClass → Text
  | any => "."
  | blank => "\\s"
  | word => "\\w"
  | oneOf items => "[" ++ items.flatMap (·.written) ++ "]"
  | noneOf items => "[^" ++ items.flatMap (·.written) ++ "]"

end CharClass

namespace Pattern

def written : Pattern → Text
  | chars t => t.escaped
  | words ts => "(?:" ++ Text.join "|" (ts.map (·.escaped)) ++ ")"
  | one s => s.written
  | many s => s.written ++ "*"
  | several s => s.written ++ "+"
  | fewest s => s.written ++ "+?"
  | seq p q => p.written ++ q.written
  | optional p => p.written ++ "?"
  | repeated p => p.written ++ "*"
  | group p => "(?:" ++ p.written ++ ")"
  | capture name p => "(?P<" ++ name ++ ">" ++ p.written ++ ")"
  | notAhead p => "(?!" ++ p.written ++ ")"
  | notAfter s => "(?<!" ++ s.written ++ ")"
  | wordEdge => "\\b"
  | lineStart => "^"

end Pattern

end CodeNav
