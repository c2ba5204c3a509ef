import LegBoard.Text.Blank
import LegBoard.Text.Hex

/-!
Colours in hexadecimal notation: three or six digits, with any number of hash signs before them and
blanks around. Three digits stand for six, each of them doubled.
-/
namespace LegBoard.Colour

structure Rgb where
  red : UInt8
  green : UInt8
  blue : UInt8
deriving DecidableEq, Repr

namespace Rgb

def black : Rgb := ⟨0, 0, 0⟩

def white : Rgb := ⟨255, 255, 255⟩

/-- The colour of three or six digit values. -/
def ofDigits? : List Nat → Option Rgb
  | [r, g, b] => some ⟨.ofNat (17 * r), .ofNat (17 * g), .ofNat (17 * b)⟩
  | [r, r', g, g', b, b'] =>
    some ⟨.ofNat (16 * r + r'), .ofNat (16 * g + g'), .ofNat (16 * b + b')⟩
  | _ => none

/-- The digits of a colour: what is left within the blanks and behind the hash signs. -/
def digits (s : String) : List Char :=
  (Text.trim s.toList).dropWhile (· == '#')

/-- The colour that a text spells. -/
def parse? (s : String) : Option Rgb := do
  ofDigits? (← (digits s).mapM Text.Hex.value?)

end Rgb

end LegBoard.Colour
