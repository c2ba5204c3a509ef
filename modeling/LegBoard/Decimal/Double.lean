/-!
Floating-point sizes with 53 significant bits, as exact integers. A size is `mantissa · 2^exponent`
with the exponents of the usual 64-bit format. Every operation forms the exact quotient first and
then takes the nearest size, the even mantissa of two that are equally near.
-/
namespace LegBoard.Decimal

/-- The number `mantissa · 2^exponent`. Sizes made by `Double.nearest?` have `mantissa < 2^53`,
`-1074 ≤ exponent ≤ 971`, and `2^52 ≤ mantissa` unless the exponent is the least one. -/
structure Double where
  mantissa : Nat
  exponent : Int
deriving DecidableEq, Repr

namespace Double

/-- The least exponent, that of sizes too small for a full mantissa. -/
def leastExponent : Int := -1074

def greatestExponent : Int := 971

def zero : Double := ⟨0, leastExponent⟩

/-- The quotient `num / (den · 2^exponent)` to the nearest integer, a half going to the even one. -/
def roundAt (num den : Nat) (exponent : Int) : Nat :=
  let num := num * Nat.pow 2 (-exponent).toNat
  let den := den * Nat.pow 2 exponent.toNat
  let whole := num / den
  let twice := 2 * (num % den)
  if twice < den then whole
  else if den < twice then whole + 1
  else if whole % 2 = 0 then whole else whole + 1

/-- The exponent at which `num / den` has a mantissa of 53 bits, or the least one. -/
def exponentOf (num den : Nat) : Int :=
  let guess : Int := (num.log2 : Int) - den.log2 - 53
  let whole := num * Nat.pow 2 (-guess).toNat / (den * Nat.pow 2 guess.toNat)
  max leastExponent (if whole < Nat.pow 2 53 then guess else guess + 1)

/-- The size nearest to `num / den`, or `none` when that is beyond the greatest one. -/
def nearest? (num den : Nat) : Option Double :=
  if num = 0 then some zero
  else
    let exponent := exponentOf num den
    let mantissa := roundAt num den exponent
    let size : Double :=
      if mantissa = Nat.pow 2 53 then ⟨Nat.pow 2 52, exponent + 1⟩ else ⟨mantissa, exponent⟩
    if size.exponent ≤ greatestExponent then some size else none

/-- The size as a fraction of two natural numbers. -/
def numerator (x : Double) : Nat := x.mantissa * Nat.pow 2 x.exponent.toNat

/-- The denominator that goes with `numerator`. -/
def denominator (x : Double) : Nat := Nat.pow 2 (-x.exponent).toNat

def ofNat? (n : Nat) : Option Double := nearest? n 1

/-- The size nearest to the product, or `none` when that is beyond the greatest one. -/
def mul? (x y : Double) : Option Double :=
  nearest? (x.numerator * y.numerator) (x.denominator * y.denominator)

/-- The size nearest to the quotient; the divisor is not zero. -/
def div? (x y : Double) : Option Double :=
  nearest? (x.numerator * y.denominator) (x.denominator * y.numerator)

end Double

end LegBoard.Decimal
