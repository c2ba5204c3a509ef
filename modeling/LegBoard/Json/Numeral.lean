import LegBoard.Json.Fault

/-!
Numbers of a JSON text. A `Numeral` is a number as it is spelt. `scan` takes one off a text;
`value` says what it counts as when a message has to name it: an integer of 64 bits, or a
floating-point number computed from its leading digits and its exponent.
-/
namespace LegBoard.Json

open LegBoard.Decimal (Double)

def isDigit (c : Char) : Bool := '0' ≤ c && c ≤ '9'

/-- A number as it is spelt, by the digits of its parts. -/
structure Numeral where
  negative : Bool
  whole : List Char
  fraction : Option (List Char)
  /-- Whether the exponent is negative, and its digits. -/
  exponent : Option (Bool × List Char)
deriving DecidableEq, Repr

namespace Numeral

/-- The digits ahead and the place behind them. -/
def digits (s : Cursor) : List Char × Cursor := (s.rest.takeWhile isDigit, s.dropWhile isDigit)

/-- The digits before the point. A zero stands alone. -/
def scanWhole (atEnd : Problem) (s : Cursor) : Except Fault (List Char × Cursor) :=
  match s.rest with
  | [] => .error (s.here atEnd)
  | '0' :: _ =>
    if s.step.nextIs isDigit then .error (s.step.ahead .invalidNumber) else .ok (['0'], s.step)
  | c :: _ => if isDigit c then .ok (digits s) else .error (s.ahead .invalidNumber)

/-- The point and at least one digit, if there is a point. -/
def scanFraction (atEnd : Problem) (s : Cursor) : Except Fault (Option (List Char) × Cursor) :=
  if s.nextIs (· == '.') then
    match s.step.rest with
    | [] => .error (s.step.here atEnd)
    | c :: _ =>
      if isDigit c then .ok ((digits s.step).map some id)
      else .error (s.step.ahead .invalidNumber)
  else .ok (none, s)

/-- The letter, a sign and at least one digit, if there is the letter. -/
def scanExponent (atEnd : Problem) (s : Cursor) :
    Except Fault (Option (Bool × List Char) × Cursor) :=
  if s.nextIs fun c => c == 'e' || c == 'E' then
    let s := s.step
    let negative := s.nextIs (· == '-')
    let s := if s.nextIs fun c => c == '+' || c == '-' then s.step else s
    match s.rest with
    | [] => .error (s.here atEnd)
    | c :: _ =>
      if isDigit c then .ok ((digits s).map (fun ds => some (negative, ds)) id)
      else .error (s.ahead .invalidNumber)
  else .ok (none, s)

/-- Takes a number off a text. `atEnd` is the cause if the text ends inside it. -/
def scan (atEnd : Problem) (s : Cursor) : Except Fault (Numeral × Cursor) := do
  let negative := s.nextIs (· == '-')
  let s := if negative then s.step else s
  let (whole, s) ← scanWhole atEnd s
  let (fraction, s) ← scanFraction atEnd s
  let (exponent, s) ← scanExponent atEnd s
  .ok (⟨negative, whole, fraction, exponent⟩, s)

/-- The digits of a number one after the other, as long as the number stays within `most`; with
it, the digits not taken. -/
def takeUpTo (most : Nat) : Nat → List Char → Nat × List Char
  | n, [] => (n, [])
  | n, c :: cs =>
    let next := 10 * n + (c.toNat - '0'.toNat)
    if most < next then (n, c :: cs) else takeUpTo most next cs

/-- The power of ten nearest to `10^k`, for `k` at most 308. -/
def powerOfTen (k : Nat) : Double := (Double.ofNat? (Nat.pow 10 k)).getD .zero

/-- Divides a size by a power of ten, in steps of at most `10^308`. Four steps reach zero from
every size. -/
def divideByPower : Nat → Double → Nat → Double
  | 0, _, _ => .zero
  | fuel + 1, size, k =>
    if size.mantissa = 0 then size
    else if k ≤ 308 then (size.div? (powerOfTen k)).getD .zero
    else divideByPower fuel ((size.div? (powerOfTen 308)).getD .zero) (k - 308)

/-- The size of `significand · 10^exponent`, rounded once for each factor, or `none` when that
is beyond the greatest one. -/
def scale? (significand : Nat) (exponent : Int) : Option Double := do
  let size ← Double.ofNat? significand
  if exponent < 0 then some (divideByPower 4 size exponent.natAbs)
  else if exponent ≤ 308 then size.mul? (powerOfTen exponent.natAbs)
  else if significand = 0 then some size
  else none

def greatestWord : Nat := Nat.pow 2 64 - 1

/-- The greatest exponent that is read digit by digit. -/
def greatestExponent : Nat := Nat.pow 2 31 - 1

/-- A whole number: a negative one of more than 64 bits, and a negative zero, is no integer. -/
def wholeValue (negative : Bool) (n : Nat) : Found :=
  if negative = false then .integer n
  else if n = 0 ∨ Nat.pow 2 63 < n then .fraction true ((Double.ofNat? n).getD .zero)
  else .integer (-n)

/-- What a number counts as. Digits beyond 64 bits only move the point. If the number is out of
range, the answer is how many digits of the exponent were not looked at to see that. -/
def value (n : Numeral) : Except Nat Found :=
  let (significand, untaken) := takeUpTo greatestWord 0 n.whole
  if untaken = [] ∧ n.fraction = none ∧ n.exponent = none then
    .ok (wholeValue n.negative significand)
  else
    let fraction := n.fraction.getD []
    let (significand, unread) := takeUpTo greatestWord significand fraction
    let point : Int := untaken.length - (fraction.length - unread.length : Nat)
    let (negative, digits) := n.exponent.getD (false, [])
    let (exponent, beyond) := takeUpTo greatestExponent 0 digits
    if beyond ≠ [] then
      if significand ≠ 0 ∧ negative = false then .error (beyond.length - 1)
      else .ok (.fraction n.negative .zero)
    else
      match scale? significand (if negative then point - exponent else point + exponent) with
      | some size => .ok (.fraction n.negative size)
      | none => .error 0

end Numeral

/-- Takes a number off a text and says what it counts as. -/
def readNumber (s : Cursor) : Except Fault (Found × Cursor) := do
  let (numeral, s) ← Numeral.scan .endInValue s
  match numeral.value with
  | .ok found => .ok (found, s)
  | .error unread =>
    .error ⟨.numberOutOfRange, ⟨s.position.line, s.position.column - unread⟩⟩

end LegBoard.Json
