import CodeNav.Json.Reading
import CodeNav.Url

namespace CodeNav.Url

/-- One of the four numbers of an address of version 4: at most 255, without leading zeros. -/
def isOctet (t : Text) : Bool :=
  !t.isEmpty && t.all Char.isDigit && t.length ≤ 3 && (t.head? != some '0' || t = ['0']) &&
    Number.natOfDigits t ≤ 255

def isIpv4 (t : Text) : Bool :=
  let ps := Text.parts '.' t
  ps.length = 4 && ps.all isOctet

def isHextet (t : Text) : Bool :=
  !t.isEmpty && t.length ≤ 4 && t.all fun c => (Json.hexValue? c).isSome

/-- The parts of an address of version 6, where a last part in the form of version 4 counts as two
numbers. -/
def ipv6Parts? (t : Text) : Option (List Text) :=
  let ps := Text.parts ':' t
  if ps.length < 3 then none
  else
    let last := ps.getLastD []
    if last.contains '.' then
      if isIpv4 last then some (ps.dropLast ++ [['0'], ['0']]) else none
    else some ps

/-- Whether parts with a gap stand for eight numbers, at least one of them left out at the gap. The
parts around the gap are numbers; at either end an empty part only belongs to the gap. -/
def isGapped (left right : List Text) : Bool :=
  let side (ps : List Text) : Option Nat :=
    if ps.all isHextet then some ps.length else if ps = [[]] then some 0 else none
  match side left, side right with
  | some m, some n => m + n < 8
  | _, _ => false

/-- An address of version 6 without a zone: eight numbers with colons between them, of which one run
may be left out. -/
def isPlainIpv6 (t : Text) : Bool :=
  match ipv6Parts? t with
  | none => false
  | some ps =>
    let inner := (ps.drop 1).dropLast
    match inner.findIdx? (·.isEmpty) with
    | some i =>
      ps.length ≤ 9 && (inner.filter (·.isEmpty)).length = 1 &&
        isGapped (ps.take (i + 1)) (ps.drop (i + 2))
    | none => ps.length = 8 && ps.all isHextet

def isIpv6 (t : Text) : Bool :=
  !t.contains '/' &&
    match Text.cut? ['%'] t with
    | none => isPlainIpv6 t
    | some (a, zone) => !zone.isEmpty && !zone.contains '%' && isPlainIpv6 a

/-- An address of a version to come: "v", its number, a dot and more. -/
def isFutureIp (t : Text) : Bool :=
  match after? "v" t with
  | none => false
  | some r =>
    let version := r.takeWhile fun c => (Json.hexValue? c).isSome
    !version.isEmpty &&
      match r.drop version.length with
      | '.' :: c :: cs => !(c :: cs).contains '\n'
      | _ => false

end CodeNav.Url
