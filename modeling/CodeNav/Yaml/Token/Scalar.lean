import CodeNav.Json.Reading

/-!
Reading scalars of a settings document: plain ones, which end where the structure goes on, and
quoted ones. Line breaks inside a scalar are folded: a single one becomes a space, and of several
all but the first are kept.
-/

namespace CodeNav.Yaml

/-- A place in a document: the text from there on, how many characters stand before it, and its line
and column. -/
structure Cursor where
  rest : Text
  index : Nat := 0
  line : Nat := 0
  column : Nat := 0
  deriving DecidableEq, Repr

/-- A character that ends a line. Carriage returns are read as line feeds before. -/
def isBreak (c : Char) : Bool :=
  c = '\n' || c.toNat = 0x85 || c.toNat = 0x2028 || c.toNat = 0x2029

def keptBreak (c : Char) : Char := if c.toNat = 0x85 then '\n' else c

def isSpaceOrTab (c : Char) : Bool := c = ' ' || c = '\t'

def atGap (t : Text) : Bool := t.head?.all fun c => isSpaceOrTab c || isBreak c

def atMarker (t : Text) : Bool :=
  ("---".toList.isPrefixOf t || "...".toList.isPrefixOf t) && atGap (t.drop 3)

namespace Cursor

def next (c : Cursor) : Cursor :=
  match c.rest with
  | [] => c
  | d :: r =>
    if isBreak d then ⟨r, c.index + 1, c.line + 1, 0⟩
    else ⟨r, c.index + 1, c.line, if d.toNat = 0xFEFF then c.column else c.column + 1⟩

def skip (c : Cursor) : Nat → Cursor
  | 0 => c
  | n + 1 => c.next.skip n

def skipWhile (c : Cursor) (p : Char → Bool) : Cursor := c.skip (c.rest.takeWhile p).length

end Cursor

/-- A fold: the first line break, those after it, and what remains of them. -/
def folded (first : Char) (more : Text) : Text :=
  if keptBreak first != '\n' then keptBreak first :: more
  else if more.isEmpty then [' ']
  else more

/-- How many characters of a plain scalar stand here without a space. Inside brackets, signs of the
structure end it. -/
def plainLength (inFlow : Bool) : Text → Nat
  | [] => 0
  | c :: r =>
    let ends :=
      atGap [c] ||
        (c = ':' && (atGap r || (inFlow && r.head?.any (",[]\x7b\x7d".toList.contains ·)))) ||
        (inFlow && ",?[]\x7b\x7d".toList.contains c)
    if ends then 0 else plainLength inFlow r + 1

/-- The line breaks and spaces here, up to a document marker: the breaks that are kept and the place
after them; no place to go on from when there is a marker. -/
def plainBreaks : Nat → Cursor → Text × Cursor × Bool
  | 0, c => ([], c, false)
  | n + 1, c =>
    match c.rest with
    | ' ' :: _ => plainBreaks n c.next
    | d :: _ =>
      if isBreak d then
        if atMarker c.next.rest then ([keptBreak d], c.next, true)
        else
          let (ds, e, stop) := plainBreaks n c.next
          (keptBreak d :: ds, e, stop)
      else ([], c, false)
    | [] => ([], c, false)

/-- The gap between two words of a plain scalar: what it stands for, the place after it, and whether
it crosses a line. It stands for nothing when the scalar ends there. -/
def plainGap (c : Cursor) : Text × Cursor × Bool :=
  let spaces := c.rest.takeWhile (· = ' ')
  let e := c.skip spaces.length
  match e.rest with
  | d :: _ =>
    if isBreak d then
      if atMarker e.next.rest then ([], e.next, true)
      else
        let (more, f, stop) := plainBreaks e.rest.length e.next
        (if stop then [] else folded d more, f, true)
    else (spaces, e, false)
  | [] => (spaces, e, false)

/-- Reads the words of a plain scalar and the gaps between them; `gap` is what stands before the
next word. Also tells whether the scalar ends at the start of a line. -/
def plainFrom (inFlow : Bool) (indent : Int) :
    Nat → (gap : Text) → (crossed : Bool) → Cursor → Text × Bool × Cursor
  | 0, _, crossed, c => ([], crossed, c)
  | n + 1, gap, crossed, c =>
    if c.rest.head? = some '#' then ([], crossed, c)
    else
      match plainLength inFlow c.rest with
      | 0 => ([], crossed, c)
      | k =>
        let word := gap ++ c.rest.take k
        let (gap, e, crossed) := plainGap (c.skip k)
        if gap.isEmpty || e.rest.head? = some '#' || (!inFlow && (e.column : Int) < indent) then
          (word, crossed, e)
        else
          let (t, crossed, e) := plainFrom inFlow indent n gap crossed e
          (word ++ t, crossed, e)

def escapes : List (Char × Nat) :=
  [('0', 0), ('a', 7), ('b', 8), ('t', 9), ('\t', 9), ('n', 10), ('v', 11), ('f', 12), ('r', 13),
    ('e', 27), (' ', 32), ('"', 34), ('\\', 92), ('/', 47), ('N', 0x85), ('_', 0xA0),
    ('L', 0x2028), ('P', 0x2029)]

def escapeDigits : List (Char × Nat) := [('x', 2), ('u', 4), ('U', 8)]

def escapedChar? (ds : Text) : Option Char :=
  (ds.mapM Json.hexValue?).bind fun vs =>
    let n := vs.foldl (fun n v => 16 * n + v) 0
    if n < 0x110000 then some (Char.ofNat n) else none

def quotedBreaks? : Nat → Cursor → Option (Text × Cursor)
  | 0, c => some ([], c)
  | n + 1, c =>
    if atMarker c.rest then none
    else
      let c := c.skipWhile isSpaceOrTab
      match c.rest with
      | d :: _ =>
        if isBreak d then (quotedBreaks? n c.next).map fun (ds, e) => (keptBreak d :: ds, e)
        else some ([], c)
      | [] => some ([], c)

def quotedGap? (c : Cursor) : Option (Text × Cursor) :=
  let spaces := c.rest.takeWhile isSpaceOrTab
  let e := c.skip spaces.length
  match e.rest with
  | [] => none
  | d :: _ =>
    if isBreak d then (quotedBreaks? e.rest.length e.next).map fun (ds, f) => (folded d ds, f)
    else some (spaces, e)

def escape? (c : Cursor) : Option (Text × Cursor) :=
  match c.rest with
  | [] => none
  | d :: r =>
    match escapes.lookup d, escapeDigits.lookup d with
    | some n, _ => some ([Char.ofNat n], c.next)
    | none, some k =>
      if (r.take k).length = k then
        (escapedChar? (r.take k)).map fun e => ([e], c.skip (k + 1))
      else none
    | none, none => if isBreak d then quotedBreaks? r.length c.next else none

def quotedFrom? (quote : Char) : Nat → Cursor → Option (Text × Cursor)
  | 0, _ => none
  | n + 1, c =>
    match c.rest with
    | [] => none
    | d :: r =>
      if d = quote then
        if quote = '\x27' && r.head? = some quote then
          (quotedFrom? quote n (c.skip 2)).map fun (t, e) => (quote :: t, e)
        else some ([], c.next)
      else
        let part :=
          if quote = '"' && d = '\\' then escape? c.next
          else if isSpaceOrTab d || isBreak d then quotedGap? c
          else some ([d], c.next)
        part.bind fun (p, e) => (quotedFrom? quote n e).map fun (t, e) => (p ++ t, e)

end CodeNav.Yaml
