import CodeNav.Yaml.Token.Lexer

namespace CodeNav.Yaml

inductive Node where
  | scalar (text : Text) (plain : Bool)
  | sequence (items : List Node)
  | mapping (pairs : List (Node × Node))
  deriving Repr

namespace Node

def empty : Node := .scalar [] true

def isNext (ts : List Token) (kinds : List Token) : Bool := ts.head?.any (kinds.contains ·)

mutual

/-- Reads a node. In block form it may be a block collection and, as part of a mapping, a sequence
whose dashes stand no further in than the key. -/
def read? (block dashes : Bool) : Nat → List Token → Option (Node × List Token)
  | 0, _ => none
  | n + 1, ts =>
    match ts with
    | .scalar t plain :: r => some (.scalar t plain, r)
    | .flowSequenceStart :: r => (readFlowItems? true n r).map fun (ns, r) => (.sequence ns, r)
    | .flowMappingStart :: r => (readFlowPairs? true n r).map fun (ps, r) => (.mapping ps, r)
    | .blockSequenceStart :: r =>
      if block then (readItems? n r).map fun (ns, r) => (.sequence ns, r) else none
    | .blockMappingStart :: r =>
      if block then (readPairs? n r).map fun (ps, r) => (.mapping ps, r) else none
    | .blockEntry :: _ =>
      if dashes then (readDashes? n ts).map fun (ns, r) => (.sequence ns, r) else none
    | _ => none

/-- Reads a node, or nothing where one of these tokens follows or the document ends. -/
def readUnless? (stops : List Token) (block dashes : Bool) :
    Nat → List Token → Option (Node × List Token)
  | 0, _ => none
  | n + 1, ts => if isNext ts stops then some (empty, ts) else read? block dashes n ts

def readItems? : Nat → List Token → Option (List Node × List Token)
  | 0, _ => none
  | n + 1, ts =>
    match ts with
    | .blockEntry :: r => do
      let (v, r) ← readUnless? [.blockEntry, .blockEnd] true false n r
      let (vs, r) ← readItems? n r
      return (v :: vs, r)
    | .blockEnd :: r => some ([], r)
    | _ => none

/-- Reads the items of a sequence that has no end of its own. -/
def readDashes? : Nat → List Token → Option (List Node × List Token)
  | 0, _ => none
  | n + 1, ts =>
    match ts with
    | .blockEntry :: r => do
      let (v, r) ← readUnless? [.blockEntry, .key, .value, .blockEnd] true false n r
      let (vs, r) ← readDashes? n r
      return (v :: vs, r)
    | _ => some ([], ts)

def readPairs? : Nat → List Token → Option (List (Node × Node) × List Token)
  | 0, _ => none
  | n + 1, ts => do
    match ts with
    | .key :: r =>
      let (k, r) ← readUnless? [.key, .value, .blockEnd] true true n r
      let (v, r) ← readValue? n r
      let (ps, r) ← readPairs? n r
      return ((k, v) :: ps, r)
    | .value :: _ => none
    | .blockEnd :: r => some ([], r)
    | _ => none

def readValue? : Nat → List Token → Option (Node × List Token)
  | 0, _ => none
  | n + 1, ts =>
    match ts with
    | .value :: r => readUnless? [.key, .value, .blockEnd] true true n r
    | _ => some (empty, ts)

def readFlowItems? (first : Bool) : Nat → List Token → Option (List Node × List Token)
  | 0, _ => none
  | n + 1, ts =>
    match ts, first with
    | .flowSequenceEnd :: r, _ => some ([], r)
    | .flowEntry :: .flowSequenceEnd :: r, false => some ([], r)
    | .flowEntry :: r, false => readFlowItem? n r
    | ts, true => readFlowItem? n ts
    | _, false => none

/-- Reads an item of a sequence in brackets, which may be a single pair, and those after it. -/
def readFlowItem? : Nat → List Token → Option (List Node × List Token)
  | 0, _ => none
  | n + 1, ts => do
    let (v, r) ←
      match ts with
      | .key :: r => do
        let (k, r) ← readUnless? [.value, .flowEntry, .flowSequenceEnd] false false n r
        let (v, r) ← readFlowValue? [.flowEntry, .flowSequenceEnd] n r
        some (.mapping [(k, v)], r)
      | _ => read? false false n ts
    let (vs, r) ← readFlowItems? false n r
    return (v :: vs, r)

def readFlowValue? (stops : List Token) : Nat → List Token → Option (Node × List Token)
  | 0, _ => none
  | n + 1, ts =>
    match ts with
    | .value :: r => readUnless? stops false false n r
    | _ => some (empty, ts)

def readFlowPairs? (first : Bool) : Nat → List Token → Option (List (Node × Node) × List Token)
  | 0, _ => none
  | n + 1, ts =>
    match ts, first with
    | .flowMappingEnd :: r, _ => some ([], r)
    | .flowEntry :: .flowMappingEnd :: r, false => some ([], r)
    | .flowEntry :: r, false => readFlowPair? n r
    | ts, true => readFlowPair? n ts
    | _, false => none

/-- Reads a pair of a mapping in brackets and those after it. A node without a colon is a key
without a value. -/
def readFlowPair? : Nat → List Token → Option (List (Node × Node) × List Token)
  | 0, _ => none
  | n + 1, ts => do
    let (p, r) ←
      match ts with
      | .key :: r => do
        let (k, r) ← readUnless? [.value, .flowEntry, .flowMappingEnd] false false n r
        let (v, r) ← readFlowValue? [.flowEntry, .flowMappingEnd] n r
        some ((k, v), r)
      | _ => do
        let (k, r) ← read? false false n ts
        some ((k, empty), r)
    let (ps, r) ← readFlowPairs? false n r
    return (p :: ps, r)

end

/-- Takes the directives of a document. Only one of them may name a version, a readable one. -/
def dropDirectives? (versionSeen : Bool) : List Token → Option (List Token)
  | .directive isVersion readable :: r =>
    if readable && !(isVersion && versionSeen) then dropDirectives? (versionSeen || isVersion) r
    else none
  | ts => some ts

def readContent? (ts : List Token) : Option (Node × List Token) :=
  match ts with
  | [] | .directive .. :: _ | .documentStart :: _ | .documentEnd :: _ => some (empty, ts)
  | _ => read? true false (4 * ts.length + 4) ts

/-- The root of the only document in a text; nothing when there is none. -/
def ofTokens? (ts : List Token) : Option (Option Node) := do
  if ts.isEmpty then return none
  let (root, r) ←
    match ts with
    | .directive .. :: _ | .documentStart :: _ => do
      match ← dropDirectives? false ts with
      | .documentStart :: r => readContent? r
      | _ => none
    | _ => read? true false (4 * ts.length + 4) ts
  guard ((r.dropWhile (· = .documentEnd)).isEmpty)
  return root

end Node

end CodeNav.Yaml
