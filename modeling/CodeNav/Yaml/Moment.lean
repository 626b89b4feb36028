import CodeNav.Number.Reading
import CodeNav.Yaml.Token.Scalar

/-!
Points in time in a settings document: a date, or a date with a time of day and a zone. The form
does not make sure that there is such a point.
-/

namespace CodeNav.Yaml

structure Moment where
  year : Nat
  month : Nat
  day : Nat
  hour : Nat := 0
  minute : Nat := 0
  second : Nat := 0
  /-- The minutes that the zone is ahead of the standard time. -/
  zone : Int := 0
  deriving DecidableEq, Repr

namespace Moment

def number? (least most : Nat) (t : Text) : Option (Nat × Text) :=
  let ds := (t.take most).takeWhile Char.isDigit
  if least ≤ ds.length then some (Number.natOfDigits ds, t.drop ds.length) else none

def after? (cs : Text) : Text → Option Text
  | c :: r => if cs.contains c then some r else none
  | [] => none

def date? (least : Nat) (t : Text) : Option (Moment × Text) := do
  let (year, t) ← number? 4 4 t
  let (month, t) ← number? least 2 (← after? ['-'] t)
  let (day, t) ← number? least 2 (← after? ['-'] t)
  return ({ year, month, day }, t)

def afterGap? : Text → Option Text
  | 'T' :: r | 't' :: r => some r
  | c :: r => if isSpaceOrTab c then some (r.dropWhile isSpaceOrTab) else none
  | [] => none

/-- The rest of a text after a fraction of a second, which does not count. -/
def afterFraction : Text → Text
  | '.' :: r => r.dropWhile Char.isDigit
  | t => t

def zone? (t : Text) : Option Int :=
  match t.dropWhile isSpaceOrTab with
  | [] | ['Z'] => some 0
  | c :: r => do
    let sign : Int ← if c = '+' then some 1 else if c = '-' then some (-1) else none
    let (hours, r) ← number? 1 2 r
    let minutes ← if r.isEmpty then some 0 else do
      let (minutes, r) ← number? 2 2 (← after? [':'] r)
      if r.isEmpty then some minutes else none
    return sign * (60 * hours + minutes)

def ofDate? (t : Text) : Option Moment :=
  match date? 2 t with
  | some (m, []) => some m
  | _ => none

def ofDateTime? (t : Text) : Option Moment := do
  let (m, t) ← date? 1 t
  let (hour, t) ← number? 1 2 (← afterGap? t)
  let (minute, t) ← number? 2 2 (← after? [':'] t)
  let (second, t) ← number? 2 2 (← after? [':'] t)
  let zone ← zone? (afterFraction t)
  return { m with hour, minute, second, zone }

def ofText? (t : Text) : Option Moment := (ofDate? t).orElse fun _ => ofDateTime? t

def daysIn (year month : Nat) : Nat :=
  if month = 2 then
    if year % 4 = 0 && (year % 100 != 0 || year % 400 = 0) then 29 else 28
  else if month ∈ [4, 6, 9, 11] then 30
  else 31

/-- A length of time as it is printed, in days and in seconds of the day that has begun. -/
def lengthText (minutes : Int) : Text :=
  let part (name : Text) (n : Int) : List Text :=
    if n = 0 then [] else [name ++ '=' :: Text.ofInt n]
  "datetime.timedelta(" ++
    Text.join ", " (part "days" (minutes / 1440) ++ part "seconds" (minutes % 1440 * 60)) ++ ")"

/-- Why there is no such point in time. A zone is looked at first. -/
def fault? (m : Moment) : Option Text :=
  if 1440 ≤ m.zone.natAbs then
    some ("offset must be a timedelta strictly between -timedelta(hours=24) and " ++
      "timedelta(hours=24), not " ++ lengthText m.zone ++ ".")
  else if m.year = 0 then some "year 0 is out of range"
  else if m.month = 0 || 12 < m.month then some "month must be in 1..12"
  else if m.day = 0 || daysIn m.year m.month < m.day then some "day is out of range for month"
  else if 23 < m.hour then some "hour must be in 0..23"
  else if 59 < m.minute then some "minute must be in 0..59"
  else if 59 < m.second then some "second must be in 0..59"
  else none

end Moment

end CodeNav.Yaml
