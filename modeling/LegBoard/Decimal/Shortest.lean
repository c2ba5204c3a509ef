import LegBoard.Decimal.Double

/-!
The shortest decimal text of a floating-point size. Among the decimals that lie closer to the
size than to its neighbours, the one with the fewest digits is taken, and of several of those the
nearest. Sizes from `10^-5` up to `10^16` are written with a point, all others with an exponent.
-/
namespace LegBoard.Decimal

/-- The decimal `digits · 10^exponent`. -/
structure Scaled where
  digits : Nat
  exponent : Int
deriving DecidableEq, Repr

/-- Half-way to the neighbours of a size, and the size itself, in quarters of its last place. -/
def Double.quarters (x : Double) : Nat × Nat × Nat :=
  let middle := 4 * x.mantissa
  let low :=
    if x.mantissa = Nat.pow 2 52 ∧ Double.leastExponent < x.exponent then middle - 1 else middle - 2
  (low, middle, middle + 2)

/-- How many digits a number has before its decimal point; zero or less counts the zeros that
follow the point. -/
def integerDigits (num den : Nat) : Int :=
  if den ≤ num then (Nat.toDigits 10 (num / den)).length
  else go 400 0 num
where
  go : Nat → Int → Nat → Int
    | 0, k, _ => k
    | fuel + 1, k, n => if den ≤ 10 * n then k else go fuel (k - 1) (10 * n)

/-- The decimal with `count` digits nearest to a positive size, if one lies between the half-way
points to its neighbours. A half-way point itself counts when the mantissa is even. -/
def Double.withDigits? (x : Double) (count : Nat) : Option Scaled :=
  let (low, middle, high) := x.quarters
  let unitNum := Nat.pow 2 (x.exponent - 2).toNat
  let unitDen := Nat.pow 2 (2 - x.exponent).toNat
  let exponent := integerDigits x.numerator x.denominator - count
  let gridNum := Nat.pow 10 exponent.toNat
  let gridDen := Nat.pow 10 (-exponent).toNat
  let part (quarters : Nat) : Nat := quarters * unitNum * gridDen
  let grid (digits : Nat) : Nat := digits * gridNum * unitDen
  let below := part middle / (gridNum * unitDen)
  let inside (digits : Nat) : Bool :=
    if x.mantissa % 2 = 0 then part low ≤ grid digits && grid digits ≤ part high
    else part low < grid digits && grid digits < part high
  let pick (digits : Nat) : Option Scaled :=
    if digits = Nat.pow 10 count then some ⟨Nat.pow 10 (count - 1), exponent + 1⟩
    else some ⟨digits, exponent⟩
  match inside below, inside (below + 1) with
  | false, false => none
  | true, false => pick below
  | false, true => pick (below + 1)
  | true, true =>
    let down := part middle - grid below
    let up := grid (below + 1) - part middle
    if down < up then pick below
    else if up < down then pick (below + 1)
    else if below % 2 = 0 then pick below else pick (below + 1)

/-- The shortest decimal of a positive size. Seventeen digits always suffice. -/
def Double.shortest (x : Double) : Scaled :=
  ((List.range 17).findSome? fun i => x.withDigits? (i + 1)).getD ⟨x.mantissa, 0⟩

/-- Digits with a decimal point after the first `before` of them. -/
def withPoint (digits : List Char) (before : Nat) : List Char :=
  digits.take before ++ '.' :: digits.drop before

/-- The text of a decimal: at least one digit on each side of a point, or an exponent. -/
def Scaled.text (d : Scaled) : List Char :=
  let digits := Nat.toDigits 10 d.digits
  let point : Int := digits.length + d.exponent
  if 0 ≤ d.exponent ∧ point ≤ 16 then
    digits ++ List.replicate d.exponent.toNat '0' ++ ['.', '0']
  else if 0 < point ∧ point ≤ 16 then withPoint digits point.toNat
  else if -5 < point ∧ point ≤ 0 then
    ['0', '.'] ++ List.replicate (-point).toNat '0' ++ digits
  else
    let fraction := if digits.length = 1 then digits else withPoint digits 1
    let sign := if 0 < point then '+' else '-'
    fraction ++ 'e' :: sign :: Nat.toDigits 10 (point - 1).natAbs

def Double.text (x : Double) : List Char :=
  if x.mantissa = 0 then ['0', '.', '0'] else x.shortest.text

end LegBoard.Decimal
