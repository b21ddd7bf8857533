import ImageNaming.Number.Binary64
import ImageNaming.Text.Basic

/-!
# The shortest decimal of a number

A number in double precision is written with the fewest significant digits that are read back as
that number, and of those with the nearest. The decimals that are read back as a number fill an
interval around it; it reaches half way to the neighbours and contains its ends if the mantissa is
even. For each count of digits the candidates are the two multiples of a power of ten next to the
number.
-/

namespace ImageNaming.Binary64

/-- A positive number and the decimals that are read back as it, as fractions over one
denominator. -/
structure Interval where
  /-- The numerator of the lower end. -/
  low : Nat
  /-- The numerator of the number. -/
  value : Nat
  /-- The numerator of the upper end. -/
  high : Nat
  /-- The denominator of all three. -/
  den : Nat
  /-- Whether the ends are read back as the number as well. -/
  closed : Bool

namespace Interval

/-- The interval of a positive number. Below a power of two the neighbour is only half as far. -/
def around (mantissa : Nat) (exponent : Int) : Interval :=
  let below := if mantissa = mantissaLimit / 2 && leastExponent < exponent then 1 else 2
  let quarter := Nat.pow 2 (exponent - 2).natAbs
  let unit := if exponent < 2 then 1 else quarter
  { low := (4 * mantissa - below) * unit
    value := 4 * mantissa * unit
    high := (4 * mantissa + 2) * unit
    den := if exponent < 2 then quarter else 1
    closed := mantissa % 2 = 0 }

/-- The exponent of the leading decimal digit of the number. -/
def leadingPower (i : Interval) : Int :=
  if i.den ≤ i.value then (Nat.toDigits 10 (i.value / i.den)).length - 1
  else
    let digits := (Nat.toDigits 10 (i.den / i.value)).length
    if i.den ≤ i.value * Nat.pow 10 (digits - 1) then -(digits - 1 : Nat) else -digits

/-- The same interval with the number counted in units of a power of ten. -/
def inUnits (i : Interval) (power : Int) : Interval :=
  let factor := Nat.pow 10 power.natAbs
  if power < 0 then
    { i with low := i.low * factor, value := i.value * factor, high := i.high * factor }
  else { i with den := i.den * factor }

/-- Whether the integer `n` lies in the interval. -/
def contains (i : Interval) (n : Nat) : Bool :=
  let scaled := n * i.den
  (i.low < scaled && scaled < i.high) || (i.closed && (scaled = i.low || scaled = i.high))

/-- The integer in the interval that is nearest to the number, if the interval has one. -/
def nearest? (i : Interval) : Option Nat :=
  let down := i.value / i.den
  let up := down + 1
  match i.contains down, i.contains up with
  | true, true => some (roundedQuotient i.value i.den)
  | true, false => some down
  | false, true => some up
  | false, false => none

end Interval

/-- The significand and the power of ten of the shortest decimal, tried from `digits` digits on with
at most `fuel` further counts. Seventeen digits are always enough. -/
def shortestFrom (i : Interval) (digits : Nat) : Nat → Nat × Int
  | 0 => (0, 0)
  | fuel + 1 =>
    let power := i.leadingPower - (digits - 1 : Nat)
    match (i.inUnits power).nearest? with
    | some significand => (significand, power)
    | none => shortestFrom i (digits + 1) fuel

/-- The significand and the power of ten of the shortest decimal of a positive number. -/
def shortest (mantissa : Nat) (exponent : Int) : Nat × Int :=
  shortestFrom (Interval.around mantissa exponent) 1 17

/-- A decimal as text. The point stands among or next to the digits where the leading digit counts
at least a ten-thousandth and less than ten to the sixteenth; other decimals have one digit before
the point and an exponent of at least two digits. A whole number ends in `.0`. -/
def writeDecimal (significand : Nat) (power : Int) : Text :=
  let all := Text.ofNat significand
  let digits := (all.reverse.dropWhile (· = '0')).reverse
  let lead : Int := power + all.length - 1
  if lead < -4 || 16 ≤ lead then
    let mark : Text := if lead < 0 then "e-" else "e+"
    let exponent := Text.ofNat lead.natAbs
    let padded := if exponent.length < 2 then '0' :: exponent else exponent
    match digits with
    | first :: next :: rest => first :: '.' :: next :: rest ++ mark ++ padded
    | short => short ++ mark ++ padded
  else if lead < 0 then
    "0." ++ List.replicate (lead.natAbs - 1) '0' ++ digits
  else
    let whole := lead.natAbs + 1
    let fraction := digits.drop whole
    digits.take whole ++ List.replicate (whole - digits.length) '0' ++ "." ++
      (if fraction.isEmpty then ['0'] else fraction)

/-- A number as text. -/
def written : Binary64 → Text
  | finite negative mantissa exponent =>
    let sign : Text := if negative then "-" else ""
    if mantissa = 0 then sign ++ "0.0"
    else
      let (significand, power) := shortest mantissa exponent
      sign ++ writeDecimal significand power
  | infinity negative => if negative then "-inf" else "inf"
  | notANumber => "nan"

end ImageNaming.Binary64
