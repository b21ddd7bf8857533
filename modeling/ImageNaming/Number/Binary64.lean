/-!
# Binary floating-point numbers

A number of a document that is written with a decimal point is held in double precision: a sign, a
mantissa below `2 ^ 53` and a power of two, or one of the infinities, or no number at all. All
arithmetic on them is exact, on natural numbers.
-/

namespace ImageNaming

/-- A number in double precision. -/
inductive Binary64 where
  /-- The number `mantissa * 2 ^ exponent`, or its opposite. The mantissa is below `2 ^ 53`, the
  exponent at least `-1074`, and only with that least exponent is the mantissa below `2 ^ 52`, so
  each number has one such form; zero has two, one for each sign. -/
  | finite (negative : Bool) (mantissa : Nat) (exponent : Int)
  /-- The value beyond all finite ones, on either side. -/
  | infinity (negative : Bool)
  /-- The value of an operation without a result. There is only one such value. -/
  | notANumber
  deriving DecidableEq, Repr

namespace Binary64

/-- What every mantissa is below. -/
def mantissaLimit : Nat := Nat.pow 2 53

/-- The least exponent of a finite number. -/
def leastExponent : Int := -1074

/-- The quotient of two natural numbers, rounded to the nearest one and a half to the even one. -/
def roundedQuotient (num den : Nat) : Nat :=
  let quotient := num / den
  let twice := 2 * (num % den)
  if twice < den then quotient
  else if den < twice then quotient + 1
  else quotient + quotient % 2

end Binary64

end ImageNaming
