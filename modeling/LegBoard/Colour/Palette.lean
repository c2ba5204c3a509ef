import LegBoard.Colour.Rgb
import LegBoard.Transit.Leg

/-!
Background colours of legs. The branding of a leg's line decides if it is a colour; otherwise every
mode has a colour of its own.
-/
namespace LegBoard.Colour

open LegBoard.Transit (Mode Leg)

/-- The colour of legs of which nothing is known. -/
def plain : String := "#aaaaaa"

def ofMode : Mode → String
  | .foot => "#444444"
  | .bicycle => "#5076d9"
  | .scooter => "#253664"
  | .car => "#191616"
  | .rail => "#86bf8b"
  | .coach => "#25642a"
  | .metro => "#d9b250"
  | .bus => "#fe0000"
  | .tram => "#d9b250"
  | .trolleybus => "#25642a"
  | .water | .air | .cableway | .funicular | .monorail | .lift => "#81304c"
  | .taxi => "#ffcc00"
  | .unknown => plain

/-- A branding colour with exactly one hash sign before it. -/
def withHash (colour : String) : String :=
  String.ofList ('#' :: colour.toList.dropWhile (· == '#'))

def ofLeg (leg : Leg) : String :=
  match leg.lineColour with
  | none => ofMode leg.mode
  | some colour => if (Rgb.parse? colour).isSome then withHash colour else ofMode leg.mode

end LegBoard.Colour
