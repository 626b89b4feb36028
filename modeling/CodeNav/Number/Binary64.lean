import CodeNav.Text.Basic

/-!
Double-precision numbers through whole-number arithmetic: the number nearest to a fraction, and the
shortest decimal that reads back as a given number.
-/

namespace CodeNav.Binary64

/-- The quotient rounded to the nearest whole number, a tie to the even one. -/
def roundDiv (num den : Nat) : Nat :=
  let q := num / den
  let r := num % den
  if 2 * r < den then q else if den < 2 * r then q + 1 else q + q % 2

/-- The two factors that scale a fraction by a power: the one for its upper and the one for its
lower part. -/
def scale (base : Nat) (e : Int) : Nat × Nat := (Nat.pow base e.toNat, Nat.pow base (-e).toNat)

/-- The largest exponent `q`, not below -1074, for which the fraction holds at least 2^52 units of
size 2^q; -1074 when there is none. -/
def unitExponent (num den : Nat) : Int :=
  let q := (Nat.log2 num : Int) - (Nat.log2 den : Int) - 52
  let (up, down) := scale 2 q
  let q := if num * down < Nat.pow 2 52 * (den * up) then q - 1 else q
  max q (-1074)

/-- The bits of the positive number nearest to a fraction, a tie to the even one; those of infinity
beyond the largest number. -/
def nearestBits (num den : Nat) : Nat :=
  if num = 0 then 0
  else
    let q := unitExponent num den
    let (up, down) := scale 2 q
    let m := roundDiv (num * down) (den * up)
    let bits := if m < Nat.pow 2 52 then m else (q + 1074).toNat * Nat.pow 2 52 + m
    min bits (2047 * Nat.pow 2 52)

def ofDecimal (negative : Bool) (mantissa : Nat) (exponent : Int) : Float :=
  let size := (Nat.toDigits 10 mantissa).length + exponent
  let bits :=
    if mantissa = 0 || size < -400 then 0
    else if 400 < size then 2047 * Nat.pow 2 52
    else
      let (up, down) := scale 10 exponent
      nearestBits (mantissa * up) down
  Float.ofBits (bits + if negative then Nat.pow 2 63 else 0).toUInt64

/-- The number nearest to a whole number; none beyond the largest number. -/
def ofInt? (n : Int) : Option Float :=
  let bits := nearestBits n.natAbs 1
  if bits < 2047 * Nat.pow 2 52 then
    some (Float.ofBits (bits + if n < 0 then Nat.pow 2 63 else 0).toUInt64)
  else none

/-- A positive finite number as whole units: `units` times two to the power `exponent`. -/
structure Units where
  units : Nat
  exponent : Int

def Units.ofFloat (x : Float) : Units :=
  let bits := x.toBits.toNat % Nat.pow 2 63
  let e : Nat := bits / Nat.pow 2 52
  let m := bits % Nat.pow 2 52
  if e = 0 then ⟨m, -1074⟩ else ⟨m + Nat.pow 2 52, (e : Int) - 1075⟩

def toInt? (x : Float) : Option Int :=
  let u := Units.ofFloat x
  let (up, down) := scale 2 u.exponent
  let n := u.units * up
  if n % down = 0 then some (if x < 0 then -(n / down : Int) else n / down) else none

/-- How many digits stand before the point of a positive fraction: the least `k` with the fraction
below ten to the power `k`. It is found from the binary logarithm, within four places. -/
def pointPlace (num den : Nat) : Int :=
  let estimate := ((Nat.log2 num : Int) - (Nat.log2 den : Int) - 1) * 30103 / 100000 - 1
  let isAbove (k : Int) : Bool := num * (scale 10 k).2 < den * (scale 10 k).1
  (([0, 1, 2, 3, 4] : List Int).map (estimate + ·)).find? isAbove |>.getD estimate

/-- The nearer of the two neighbours of a number on the grid of steps ten to the power `step` among
those that read back as the number; a tie goes to the even one. The number is `v` quarter units,
and what reads back as it lies between `lo` and `hi` quarter units. -/
def onGrid? (v lo hi : Nat) (unit : Nat × Nat) (ends : Bool) (step : Int) : Option Nat :=
  let (up, down) := scale 10 step
  let a := unit.1 * down
  let b := unit.2 * up
  let low := v * a / b
  let fits (c : Nat) : Bool :=
    if ends then lo * a ≤ c * b && c * b ≤ hi * a else lo * a < c * b && c * b < hi * a
  let below := v * a - low * b
  let above := (low + 1) * b - v * a
  match fits low, fits (low + 1) with
  | false, false => none
  | true, false => some low
  | false, true => some (low + 1)
  | true, true =>
    some (if below < above || (below = above && low % 2 = 0) then low else low + 1)

/-- A decimal as its digits and the place of its point, counted from before the first digit. -/
structure Digits where
  digits : List Char
  point : Int

/-- The decimal with the fewest digits that reads back as the number; of several, the one nearest
to it. The number is positive and finite. -/
def shortest (x : Float) : Digits :=
  let u := Units.ofFloat x
  let v := 4 * u.units
  let lo := if u.units = Nat.pow 2 52 && -1074 < u.exponent then v - 1 else v - 2
  let hi := v + 2
  let unit := scale 2 (u.exponent - 2)
  let k := pointPlace (v * unit.1) unit.2
  let found := (List.range 17).findSome? fun n =>
    let step := k - ((n + 1 : Nat) : Int)
    (onGrid? v lo hi unit (u.units % 2 = 0) step).map fun c => (c, step)
  let (c, step) := found.getD (0, k)
  let ds := Nat.toDigits 10 c
  ⟨(ds.reverse.dropWhile (· == '0')).reverse, ds.length + step⟩

/-- The number as it is printed: the fewest digits that read back, positional from 0.0001 up to
below 10^16 with at least one digit on either side of the point, else with an exponent of at least
two digits. -/
def text (x : Float) : Text :=
  let sign : Text := if x.toBits.toNat < Nat.pow 2 63 then [] else ['-']
  if x.isNaN then "nan"
  else if x.isInf then sign ++ "inf"
  else if x.toBits.toNat % Nat.pow 2 63 = 0 then sign ++ "0.0"
  else
    let ⟨ds, point⟩ := shortest x
    if -4 < point && point ≤ 0 then sign ++ "0." ++ List.replicate (-point).toNat '0' ++ ds
    else if 0 < point && point ≤ 16 then
      let whole := ds.take point.toNat
      let rest := ds.drop point.toNat
      sign ++ whole ++ List.replicate (point.toNat - ds.length) '0' ++ "." ++
        (if rest.isEmpty then ['0'] else rest)
    else
      let e := Nat.toDigits 10 (point - 1).natAbs
      sign ++ ds.take 1 ++ (if ds.length = 1 then [] else '.' :: ds.drop 1) ++ "e" ++
        (if point - 1 < 0 then ['-'] else ['+']) ++ List.replicate (2 - e.length) '0' ++ e

end CodeNav.Binary64
