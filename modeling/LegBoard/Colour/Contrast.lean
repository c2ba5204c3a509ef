import LegBoard.Colour.Rgb

/-!
Contrast between a background and the text on it. Parts of a colour are made linear by the transfer
curve of sRGB, weighted to a relative luminance, and compared as `(lighter + 0.05) / (darker + 0.05)`.
All of this is done in whole numbers: a part counts in units of `10^-12`, a luminance in units of
`10^-16`.
-/
namespace LegBoard.Colour

/-- The greatest number whose fifth power is at most `m`, for results of at most `bits` bits. -/
def fifthRoot (bits m : Nat) : Nat :=
  go bits 0
where
  go : Nat → Nat → Nat
    | 0, r => r
    | b + 1, r => go b (if Nat.pow (r + Nat.pow 2 b) 5 ≤ m then r + Nat.pow 2 b else r)

/-- One, as a linear part of a colour. -/
def fullPart : Nat := Nat.pow 10 12

/-- A part of a colour made linear: `c / 12.92` up to `0.04045`, and `((c + 0.055) / 1.055) ^ 2.4`
above, for `c` the part divided by 255, rounded down. -/
def linearPart (part : UInt8) : Nat :=
  let n := part.toNat
  if 100000 * n ≤ 4045 * 255 then fullPart * 100 * n / (1292 * 255)
  else fifthRoot 41
    (Nat.pow fullPart 5 * Nat.pow (1000 * n + 55 * 255) 12 / Nat.pow (1055 * 255) 12)

/-- A relative luminance, from 0 to `10^16`. -/
abbrev Luminance := Nat

def fullLuminance : Luminance := 10000 * fullPart

def luminance (c : Rgb) : Luminance :=
  2126 * linearPart c.red + 7152 * linearPart c.green + 722 * linearPart c.blue

/-- The contrast ratio of two luminances, as a fraction. -/
structure Ratio where
  numerator : Nat
  denominator : Nat
deriving DecidableEq, Repr

def Ratio.atLeast (x y : Ratio) : Bool :=
  y.numerator * x.denominator ≤ x.numerator * y.denominator

/-- The light that a screen reflects by itself, a twentieth of white. -/
def flare : Luminance := fullLuminance / 20

/-- The contrast between two luminances, whichever is the lighter. -/
def contrast (a b : Luminance) : Ratio :=
  if b ≤ a then ⟨a + flare, b + flare⟩ else ⟨b + flare, a + flare⟩

/-- Black or white, whichever stands out more against a background; black if both do alike. -/
def textOn (background : Rgb) : Rgb :=
  let l := luminance background
  if (contrast l 0).atLeast (contrast l fullLuminance) then .black else .white

def blackText : String := "#000000"

def whiteText : String := "#ffffff"

/-- The text colour for a background as it is written. On anything that is no colour, it is
black. -/
def textColour (background : String) : String :=
  match Rgb.parse? background with
  | none => blackText
  | some rgb => if textOn rgb = .black then blackText else whiteText

end LegBoard.Colour
