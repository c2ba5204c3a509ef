import LegBoard.Decimal.Double
import LegBoard.Text.Hex
import LegBoard.Toml.Value

/-!
The values of a TOML document that are written without quotes or brackets: booleans, numbers, dates
and times. A spelling is one of them or none. A date has to be on the calendar. What number or date
it names is not kept, apart from whether an integer is within the range of 128 bits and a float
within that of 64 bits.
-/
namespace LegBoard.Toml

def isDigit (c : Char) : Bool := '0' ≤ c && c ≤ '9'

def isBinary (c : Char) : Bool := c == '0' || c == '1'

def isOctal (c : Char) : Bool := '0' ≤ c && c ≤ '7'

def isHex (c : Char) : Bool := (Text.Hex.value? c).isSome

/-- At least one digit, with an underscore allowed between two of them. -/
def isRun (digit : Char → Bool) : List Char → Bool
  | [] => false
  | [c] => digit c
  | c :: '_' :: cs => digit c && isRun digit cs
  | c :: cs => digit c && isRun digit cs

/-- What is left of a number without its sign. -/
def unsigned : List Char → List Char
  | '+' :: cs => cs
  | '-' :: cs => cs
  | cs => cs

/-- A decimal number without a sign. Only zero starts with a zero. -/
def isDecimal (cs : List Char) : Bool :=
  isRun isDigit cs && (cs == ['0'] || cs.head? != some '0')

/-- The number that digits of a base spell; underscores among them do not count. -/
def digitsValue (base : Nat) (cs : List Char) : Nat :=
  cs.foldl (fun n c => ((Text.Hex.value? c).map (base * n + ·)).getD n) 0

/-- One more than the greatest integer of 128 bits. Half of it, below zero, is the least one. -/
def integerBound : Nat := Nat.pow 2 128

/-- An integer: a decimal with or without a sign, or digits in another base without one. -/
def isInteger (cs : List Char) : Bool :=
  match cs with
  | '0' :: 'x' :: digits => isRun isHex digits
  | '0' :: 'o' :: digits => isRun isOctal digits
  | '0' :: 'b' :: digits => isRun isBinary digits
  | _ => isDecimal (unsigned cs)

/-- Whether an integer is less than a bound, and not less than the half of it below zero. -/
def integerFits (bound : Nat) (cs : List Char) : Bool :=
  match cs with
  | '0' :: 'x' :: digits => digitsValue 16 digits < bound
  | '0' :: 'o' :: digits => digitsValue 8 digits < bound
  | '0' :: 'b' :: digits => digitsValue 2 digits < bound
  | '-' :: digits => 2 * digitsValue 10 digits ≤ bound
  | _ => digitsValue 10 (unsigned cs) < bound

/-- Whether `digits · 10^exponent` is nearest to a floating-point number of 64 bits, and not beyond
the greatest one. -/
def isInRange (digits : Nat) (exponent : Int) : Bool :=
  let places : Int := (Nat.toDigits 10 digits).length + exponent
  if digits = 0 ∨ places ≤ 308 then true
  else if 310 ≤ places then false
  else
    (Decimal.Double.nearest? (digits * Nat.pow 10 exponent.toNat)
      (Nat.pow 10 (-exponent).toNat)).isSome

/-- The letter before an exponent. -/
def isExponentMark (c : Char) : Bool := c == 'e' || c == 'E'

/-- One of the floats that are no numbers of digits. -/
def isSpecial (cs : List Char) : Bool :=
  let cs := unsigned cs
  cs == ['i', 'n', 'f'] || cs == ['n', 'a', 'n']

/-- What stands between the point at the start of a text and an exponent, if there is a point. -/
def fraction? : List Char → Option (List Char)
  | '.' :: digits => some (digits.takeWhile (!isExponentMark ·))
  | _ => none

/-- What stands behind the letter of an exponent, if there is one. -/
def exponent? (cs : List Char) : Option (List Char) :=
  match cs.dropWhile (!isExponentMark ·) with
  | _ :: power => some power
  | [] => none

/-- A float without its sign, taken apart. -/
structure FloatParts where
  whole : List Char
  fraction : Option (List Char)
  exponent : Option (List Char)

def floatParts (cs : List Char) : FloatParts :=
  let inWhole (c : Char) : Bool := !(c == '.' || isExponentMark c)
  let rest := cs.dropWhile inWhole
  ⟨cs.takeWhile inWhole, fraction? rest, exponent? rest⟩

/-- A float of digits: a decimal with a fraction, an exponent or both. -/
def isFloat (cs : List Char) : Bool :=
  let parts := floatParts (unsigned cs)
  isDecimal parts.whole && parts.fraction.all (isRun isDigit) &&
    parts.exponent.all (fun power => isRun isDigit (unsigned power)) &&
    (parts.fraction.isSome || parts.exponent.isSome)

/-- The power of ten that an exponent names. -/
def powerValue : List Char → Int
  | '-' :: digits => -(digitsValue 10 digits)
  | digits => digitsValue 10 digits

/-- Whether a float of digits fits 64 bits. -/
def floatFits (cs : List Char) : Bool :=
  let parts := floatParts (unsigned cs)
  let fraction := parts.fraction.getD []
  isInRange (digitsValue 10 (parts.whole ++ fraction))
    ((parts.exponent.map powerValue).getD 0 - (fraction.filter isDigit).length)

/-- The number of two digits, and what follows them. -/
def twoDigits? : List Char → Option (Nat × List Char)
  | a :: b :: cs => if isDigit a && isDigit b then some (digitsValue 10 [a, b], cs) else none
  | _ => none

def daysOf (year month : Nat) : Nat :=
  if month = 2 then
    if year % 4 = 0 ∧ (year % 100 ≠ 0 ∨ year % 400 = 0) then 29 else 28
  else if [4, 6, 9, 11].contains month then 30
  else 31

/-- Past a date of the calendar. -/
def date? (cs : List Char) : Option (List Char) := do
  let (century, cs) ← twoDigits? cs
  let (year, cs) ← twoDigits? cs
  let '-' :: cs := cs | none
  let (month, cs) ← twoDigits? cs
  let '-' :: cs := cs | none
  let (day, cs) ← twoDigits? cs
  if 1 ≤ month ∧ month ≤ 12 ∧ 1 ≤ day ∧ day ≤ daysOf (100 * century + year) month then some cs
  else none

/-- Past an hour and a minute. -/
def clock? (cs : List Char) : Option (List Char) := do
  let (hour, cs) ← twoDigits? cs
  let ':' :: cs := cs | none
  let (minute, cs) ← twoDigits? cs
  if hour ≤ 23 ∧ minute ≤ 59 then some cs else none

/-- Past the fraction of a second, if there is one. -/
def secondFraction? : List Char → Option (List Char)
  | '.' :: cs => if cs.head?.any isDigit then some (cs.dropWhile isDigit) else none
  | cs => some cs

/-- Past a time of day. Seconds may be left out, and a minute may have a leap second. -/
def time? (cs : List Char) : Option (List Char) := do
  match ← clock? cs with
  | ':' :: cs => do
    let (second, cs) ← twoDigits? cs
    if second ≤ 60 then secondFraction? cs else none
  | cs => some cs

/-- An offset from universal time, or none. -/
def isOffset : List Char → Bool
  | [] => true
  | ['Z'] => true
  | ['z'] => true
  | '+' :: cs => clock? cs == some []
  | '-' :: cs => clock? cs == some []
  | _ => false

/-- A date, a time of day, or both with an optional offset. -/
def isDateTime (cs : List Char) : Bool :=
  match date? cs with
  | none => time? cs == some []
  | some [] => true
  | some (mark :: cs) =>
    (mark == 'T' || mark == 't' || mark == ' ') && (time? cs).any isOffset

/-- The kind of value that a spelling without quotes and brackets is. -/
def Value.ofSpelling? (cs : List Char) : Option Value :=
  if cs == ['t', 'r', 'u', 'e'] || cs == ['f', 'a', 'l', 's', 'e'] then some .boolean
  else if isInteger cs then some (if integerFits integerBound cs then .integer else .oversized)
  else if isSpecial cs then some .float
  else if isFloat cs then some (if floatFits cs then .float else .oversized)
  else if isDateTime cs then some .dateTime
  else none

/-- A character of such a spelling. -/
def isSpellingChar (c : Char) : Bool :=
  isDigit c || ('a' ≤ c && c ≤ 'z') || ('A' ≤ c && c ≤ 'Z') ||
    c == '+' || c == '-' || c == '_' || c == '.' || c == ':'

/-- Takes such a value off a text. A blank between a date and a time belongs to it. -/
def scalar? (cs : List Char) : Option (Value × List Char) := do
  let spelling := cs.takeWhile isSpellingChar
  let rest := cs.dropWhile isSpellingChar
  match date? spelling, rest with
  | some [], ' ' :: c :: more =>
    if isDigit c then
      let time := (c :: more).takeWhile isSpellingChar
      let v ← Value.ofSpelling? (spelling ++ ' ' :: time)
      some (v, (c :: more).dropWhile isSpellingChar)
    else some (.dateTime, rest)
  | _, _ =>
    let v ← Value.ofSpelling? spelling
    some (v, rest)

end LegBoard.Toml
