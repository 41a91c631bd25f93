import LookML.Text.Decimal

/-!
# Decimal text of real numbers

A binary floating-point number is written with the fewest digits that read back as
the same number, and among those with the ones nearest to it.  Numbers from
`0.0001` up to sixteen digits before the point are written positionally, all others
with an exponent of at least two digits.
-/

namespace LookML.Data

open Text

/-- A positive number as a quotient, with the bounds of the numbers that read as
the same binary number.  `closed` tells whether the bounds themselves do. -/
structure Interval where
  low : Nat
  value : Nat
  high : Nat
  denominator : Nat
  closed : Bool

namespace Interval

/-- The numbers that read as `mantissa * 2 ^ exponent`.  Below a power of two the
neighbour is only half as far, unless the power is the least one. -/
def ofBinary (mantissa : Nat) (exponent : Int) (atPower : Bool) : Interval :=
  let up := Nat.pow 2 (exponent - 2).toNat
  let down := Nat.pow 2 (2 - exponent).toNat
  { low := (4 * mantissa - if atPower then 1 else 2) * up
    value := 4 * mantissa * up
    high := (4 * mantissa + 2) * up
    denominator := down
    closed := mantissa % 2 = 0 }

/-- Whether `numerator / denominator` reads as the same number. -/
def holds (interval : Interval) (numerator denominator : Nat) : Bool :=
  let point := numerator * interval.denominator
  let low := interval.low * denominator
  let high := interval.high * denominator
  if interval.closed then low ≤ point && point ≤ high else low < point && point < high

/-- The number of digits before the point; zero or negative for numbers below
one, by the number of zeros behind the point.  `fuel` bounds those zeros. -/
def magnitude (interval : Interval) : Int :=
  let whole := interval.value / interval.denominator
  if whole = 0 then below 400 interval.value else (ofNat whole).length
where
  /-- The magnitude of a number below one. -/
  below : Nat → Nat → Int
    | 0, _ => 0
    | fuel + 1, numerator =>
      if numerator * 10 ≥ interval.denominator then 0 else below fuel (numerator * 10) - 1

/-- The number with the given count of digits that reads the same, if there is
one: the nearer of the two neighbours on that grid. -/
def onGrid? (interval : Interval) (magnitude : Int) (digits : Nat) : Option Nat :=
  let shift := magnitude - digits
  let up := Nat.pow 10 shift.toNat
  let down := Nat.pow 10 (-shift).toNat
  let scaled := interval.value * down
  let unit := interval.denominator * up
  let floor := scaled / unit
  let twice := 2 * (scaled % unit)
  let order :=
    if twice < unit ∨ (twice = unit ∧ floor % 2 = 0) then [floor, floor + 1]
    else [floor + 1, floor]
  order.find? fun candidate => interval.holds (candidate * up) down

/-- The digits and the magnitude of the shortest number that reads the same. -/
def shortest (interval : Interval) : Text × Int :=
  let magnitude := interval.magnitude
  let found := (List.range 17).findSome? fun count =>
    (interval.onGrid? magnitude (count + 1)).map fun digits => (digits, count + 1)
  match found with
  | some (digits, count) =>
    let text := ofNat digits
    let kept := (text.reverse.dropWhile (· == '0')).reverse
    (kept, magnitude + (text.length - count : Int))
  | none => (['0'], 1)

end Interval

/-- Digits written with a point, or with an exponent where the point is far from
them. -/
def writeDigits (digits : Text) (magnitude : Int) : Text :=
  if -4 < magnitude ∧ magnitude ≤ 16 then
    if magnitude ≤ 0 then
      "0.".toList ++ List.replicate (-magnitude).toNat '0' ++ digits
    else
      let whole := padRight '0' magnitude.toNat (digits.take magnitude.toNat)
      let fraction := digits.drop magnitude.toNat
      whole ++ ['.'] ++ (if fraction.isEmpty then ['0'] else fraction)
  else
    let exponent := magnitude - 1
    let fraction := digits.drop 1
    digits.take 1 ++ (if fraction.isEmpty then [] else '.' :: fraction)
      ++ (if exponent < 0 then ['e', '-'] else ['e', '+'])
      ++ padLeft '0' 2 (ofNat exponent.natAbs)

/-- The decimal text of a floating-point number. -/
def realText (number : Float) : Text :=
  let bits := number.toBits.toNat
  let sign := if bits / Nat.pow 2 63 = 1 then ['-'] else []
  let exponent : Nat := bits / Nat.pow 2 52 % Nat.pow 2 11
  let fraction : Nat := bits % Nat.pow 2 52
  if exponent = 2047 then
    if fraction = 0 then sign ++ "inf".toList else "nan".toList
  else if exponent = 0 ∧ fraction = 0 then
    sign ++ "0.0".toList
  else
    let interval :=
      if exponent = 0 then Interval.ofBinary fraction (-1074) false
      else Interval.ofBinary (Nat.pow 2 52 + fraction) ((exponent : Int) - 1075)
        (fraction = 0 && 1 < exponent)
    let shortest := interval.shortest
    sign ++ writeDigits shortest.1 shortest.2

/-- The number `mantissa * 10 ^ exponent`, rounded to the nearest one. -/
def realOfDecimal (mantissa : Nat) (exponent : Int) : Float :=
  let size := (ofNat mantissa).length + exponent
  if mantissa = 0 ∨ size < -400 then 0.0
  else if 400 < size then 1.0 / 0.0
  else Float.ofScientific mantissa (exponent < 0) exponent.natAbs

end LookML.Data
