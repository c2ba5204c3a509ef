/-!
Hexadecimal digits. A digit is read in either letter case and written in the case the
caller names.
-/
namespace LegBoard.Text.Hex

/-- The value of a hexadecimal digit, in either letter case. -/
def value? (c : Char) : Option Nat :=
  if '0' ≤ c ∧ c ≤ '9' then some (c.toNat - '0'.toNat)
  else if 'a' ≤ c ∧ c ≤ 'f' then some (c.toNat - 'a'.toNat + 10)
  else if 'A' ≤ c ∧ c ≤ 'F' then some (c.toNat - 'A'.toNat + 10)
  else none

/-- The number that a run of digits spells, the most significant digit first. -/
def number? (cs : List Char) : Option Nat :=
  cs.foldlM (fun acc c => (value? c).map (16 * acc + ·)) 0

/-- The lower-case digit of a number below sixteen. -/
def lower (n : Nat) : Char :=
  if n < 10 then Char.ofNat ('0'.toNat + n) else Char.ofNat ('a'.toNat + (n - 10))

/-- The upper-case digit of a number below sixteen. -/
def upper (n : Nat) : Char :=
  if n < 10 then Char.ofNat ('0'.toNat + n) else Char.ofNat ('A'.toNat + (n - 10))

def lowerByte (n : Nat) : List Char := [lower (n / 16 % 16), lower (n % 16)]

def upperByte (n : Nat) : List Char := [upper (n / 16 % 16), upper (n % 16)]

/-- A number as lower-case digits without leading zeros. -/
def lowerDigits (n : Nat) : List Char :=
  Nat.toDigits 16 n

end LegBoard.Text.Hex
