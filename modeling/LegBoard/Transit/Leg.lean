import LegBoard.Transit.Mode

/-!
Legs of an itinerary, as a journey planner describes them. Only what the board shows is kept, and
everything below a leg may be absent.
-/
namespace LegBoard.Transit

structure Presentation where
  /-- The background colour, usually as hexadecimal digits. -/
  colour : Option String := none
  textColour : Option String := none
deriving DecidableEq, Repr, Inhabited

/-- The line that a leg rides on. -/
structure Line where
  id : Option String := none
  publicCode : Option String := none
  presentation : Option Presentation := none
deriving DecidableEq, Repr, Inhabited

/-- What the destination sign of a vehicle shows. -/
structure DestinationDisplay where
  frontText : Option String := none
deriving DecidableEq, Repr, Inhabited

/-- A call of a vehicle at a stop. -/
structure EstimatedCall where
  destinationDisplay : Option DestinationDisplay := none
deriving DecidableEq, Repr, Inhabited

/-- One part of an itinerary, travelled in one mode. -/
structure Leg where
  mode : Mode := .unknown
  line : Option Line := none
  /-- The call where the leg ends. -/
  toEstimatedCall : Option EstimatedCall := none
deriving DecidableEq, Repr, Inhabited

namespace Leg

def lineId (leg : Leg) : Option String := do (← leg.line).id

/-- The code of the line that passengers see. -/
def publicCode (leg : Leg) : Option String := do (← leg.line).publicCode

/-- The colour of the line's branding. -/
def lineColour (leg : Leg) : Option String := do (← (← leg.line).presentation).colour

/-- The sign text at the call where the leg ends. -/
def frontText (leg : Leg) : Option String := do
  (← (← leg.toEstimatedCall).destinationDisplay).frontText

end Leg

structure Itinerary where
  legs : List Leg := []
deriving DecidableEq, Repr, Inhabited

end LegBoard.Transit
