import CodeNav.Yaml.Token
import CodeNav.Yaml.Token.Scalar

/-!
Cutting a settings document into tokens. A scalar or a bracket may turn out to be a key only when
the colon after it is reached, so the places where a key may have begun are kept, and the tokens
that announce it are put in afterwards. Anchors, aliases, tags and block scalars are no part of
settings documents and are refused.
-/

namespace CodeNav.Yaml

/-- A place where a key may have begun: how many brackets are open there, how many tokens stand
before it, and whether only a key can stand there. -/
structure KeyMark where
  level : Nat
  place : Nat
  required : Bool
  index : Nat
  line : Nat
  column : Nat
  deriving DecidableEq, Repr

/-- Where cutting stands: the tokens so far, the number of open brackets, the columns of the open
block collections, innermost first, whether a key may begin here, and where one may have begun. -/
structure Lexer where
  cursor : Cursor
  tokens : List Token := []
  level : Nat := 0
  indents : List Nat := []
  keyAllowed : Bool := true
  marks : List KeyMark := []
  deriving DecidableEq, Repr

namespace Lexer

/-- The column of the innermost block collection; -1 outside of all. -/
def indent (l : Lexer) : Int := (l.indents.head?.map Int.ofNat).getD (-1)

def push (l : Lexer) (t : Token) : Lexer := { l with tokens := l.tokens ++ [t] }

def insert (l : Lexer) (place : Nat) (t : Token) : Lexer :=
  { l with tokens := l.tokens.take place ++ t :: l.tokens.drop place }

def dropMarks? (l : Lexer) (p : KeyMark → Bool) : Option Lexer :=
  if l.marks.any fun m => p m && m.required then none
  else some { l with marks := l.marks.filter fun m => !p m }

/-- A key stands on one line and has at most 1024 characters. -/
def dropStaleMarks? (l : Lexer) : Option Lexer :=
  l.dropMarks? fun m => m.line != l.cursor.line || 1024 < l.cursor.index - m.index

def dropMark? (l : Lexer) : Option Lexer := l.dropMarks? (·.level = l.level)

def mark? (l : Lexer) : Option Lexer :=
  if l.keyAllowed then
    l.dropMark?.map fun l =>
      let required := l.level = 0 && l.indent = l.cursor.column
      let m : KeyMark :=
        ⟨l.level, l.tokens.length, required, l.cursor.index, l.cursor.line, l.cursor.column⟩
      { l with marks := m :: l.marks }
  else some l

/-- Ends the block collections that are further in than a column, unless brackets are open. -/
def unwind (l : Lexer) (column : Int) : Lexer :=
  if l.level = 0 then
    let gone := l.indents.takeWhile fun (i : Nat) => column < (i : Int)
    { l with
      tokens := l.tokens ++ gone.map fun _ => Token.blockEnd
      indents := l.indents.drop gone.length }
  else l

def openBlock (l : Lexer) (column place : Nat) (t : Token) : Lexer :=
  if l.indent < column then { l.insert place t with indents := column :: l.indents } else l

def take (l : Lexer) (t : Token) : Lexer := { l.push t with cursor := l.cursor.next }

/-- Skips spaces, comments and line ends. At a new line a key may begin, unless brackets are open.
-/
def skipGap : Nat → Lexer → Lexer
  | 0, l => l
  | n + 1, l =>
    let c := l.cursor.skipWhile (· = ' ')
    let c := if c.rest.head? = some '#' then c.skipWhile fun d => !isBreak d else c
    match c.rest with
    | d :: _ =>
      if isBreak d then
        skipGap n { l with cursor := c.next, keyAllowed := l.keyAllowed || l.level = 0 }
      else { l with cursor := c }
    | [] => { l with cursor := c }

/-- Ends everything that is open before a document marker or a directive. -/
def closeAll? (l : Lexer) : Option Lexer :=
  (l.unwind (-1)).dropMark?.map fun l => { l with keyAllowed := false }

def versionNumber? (t : Text) : Option (Nat × Text) :=
  let ds := t.takeWhile Char.isDigit
  if ds.isEmpty then none else some (Number.natOfDigits ds, t.drop ds.length)

def directive? (line : Text) : Option Token := do
  let name := line.takeWhile fun c => c.isAlphanum || c = '-' || c = '_'
  let r := line.drop name.length
  guard (!name.isEmpty && r.head?.all (· = ' '))
  if name = "YAML".toList then
    let (major, r) ← versionNumber? (r.dropWhile (· = ' '))
    let (_, r) ← versionNumber? (← if r.head? = some '.' then some (r.drop 1) else none)
    guard (r.head?.all (· = ' '))
    guard ((r.dropWhile (· = ' ')).head?.all (· = '#'))
    return .directive true (major = 1)
  else
    guard (name != "TAG".toList)
    return .directive false true

def takeDirective? (l : Lexer) : Option Lexer := do
  let l ← l.closeAll?
  let line := l.cursor.rest.takeWhile fun c => !isBreak c
  let t ← directive? (line.drop 1)
  return { l.push t with cursor := l.cursor.skip line.length }

def takeMarker? (l : Lexer) (t : Token) : Option Lexer :=
  l.closeAll?.map fun l => { l.push t with cursor := l.cursor.skip 3 }

def takeOpening? (l : Lexer) (t : Token) : Option Lexer :=
  l.mark?.map fun l => { l.take t with level := l.level + 1, keyAllowed := true }

def takeClosing? (l : Lexer) (t : Token) : Option Lexer :=
  l.dropMark?.map fun l => { l.take t with level := l.level - 1, keyAllowed := false }

def takeFlowEntry? (l : Lexer) : Option Lexer :=
  l.dropMark?.map fun l => { l.take .flowEntry with keyAllowed := true }

/-- Takes the dash of an item, or the question mark of a key, in block form or, if brackets are
open, as it is. -/
def takeBlockSign? (l : Lexer) (start sign : Token) (keyAllowed : Bool) : Option Lexer := do
  guard (l.level != 0 || l.keyAllowed)
  let l := if l.level = 0 then l.openBlock l.cursor.column l.tokens.length start else l
  let l ← l.dropMark?
  return { l.take sign with keyAllowed }

/-- Takes the colon before a value, and announces the key before it. -/
def takeValue? (l : Lexer) : Option Lexer :=
  match l.marks.find? (·.level = l.level) with
  | some m =>
    let l := { l with marks := l.marks.filter (·.level != l.level) }
    let l := l.insert m.place .key
    let l := if l.level = 0 then l.openBlock m.column m.place .blockMappingStart else l
    some { l.take .value with keyAllowed := false }
  | none => l.takeBlockSign? .blockMappingStart .value (l.level = 0)

def takeQuoted? (l : Lexer) (quote : Char) : Option Lexer := do
  let l ← l.mark?
  let (t, c) ← quotedFrom? quote (l.cursor.rest.length + 1) l.cursor.next
  return { l.push (.scalar t false) with cursor := c, keyAllowed := false }

def takePlain? (l : Lexer) : Option Lexer := do
  let l ← l.mark?
  let (t, crossed, c) :=
    plainFrom (l.level != 0) (l.indent + 1) (l.cursor.rest.length + 1) [] false l.cursor
  return { l.push (.scalar t true) with cursor := c, keyAllowed := crossed }

def startsPlain (inFlow : Bool) : Text → Bool
  | [] => false
  | c :: r =>
    !(atGap [c] || "-?:,[]\x7b\x7d#&*!|>\x27\"%@\x60".toList.contains c) ||
      (!atGap r && (c = '-' || (!inFlow && (c = '?' || c = ':'))))

def takeToken? (l : Lexer) : Option Lexer :=
  let r := l.cursor.rest
  let inFlow := l.level != 0
  let signed := inFlow || atGap (r.drop 1)
  match r.head? with
  | none => none
  | some c =>
    if c = '%' && l.cursor.column = 0 then l.takeDirective?
    else if l.cursor.column = 0 && atMarker r then
      l.takeMarker? (if c = '-' then .documentStart else .documentEnd)
    else if c = '[' then l.takeOpening? .flowSequenceStart
    else if c = '\x7b' then l.takeOpening? .flowMappingStart
    else if c = ']' then l.takeClosing? .flowSequenceEnd
    else if c = '\x7d' then l.takeClosing? .flowMappingEnd
    else if c = ',' then l.takeFlowEntry?
    else if c = '-' && atGap (r.drop 1) then
      l.takeBlockSign? .blockSequenceStart .blockEntry true
    else if c = '?' && signed then l.takeBlockSign? .blockMappingStart .key (!inFlow)
    else if c = ':' && signed then l.takeValue?
    else if c = '\x27' || c = '"' then l.takeQuoted? c
    else if startsPlain inFlow r then l.takePlain?
    else none

def run? : Nat → Lexer → Option (List Token)
  | 0, _ => none
  | n + 1, l => do
    let l ← (skipGap (l.cursor.rest.length + 1) l).dropStaleMarks?
    let l := l.unwind l.cursor.column
    if l.cursor.rest.isEmpty then
      let l ← l.closeAll?
      return l.tokens
    else run? n (← l.takeToken?)

end Lexer

def isAllowed (c : Char) : Bool :=
  c = '\t' || c = '\n' || c = '\r' || (0x20 ≤ c.toNat && c.toNat ≤ 0x7E) || c.toNat = 0x85 ||
    (0xA0 ≤ c.toNat && c.toNat ≤ 0xFFFD) || 0x10000 ≤ c.toNat

/-- The tokens of a document; none when it cannot be cut into tokens. -/
def tokens? (t : Text) : Option (List Token) :=
  if t.all isAllowed then
    let start : Cursor := { rest := t }
    let start := if t.head?.any (·.toNat = 0xFEFF) then start.next else start
    Lexer.run? (t.length + 1) { cursor := start }
  else none

end CodeNav.Yaml
