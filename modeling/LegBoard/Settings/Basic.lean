import LegBoard.Explorer
import LegBoard.Transit.Leg

/-!
The settings of a run: all that the page shows.
-/
namespace LegBoard

/-- What the page shows: an itinerary, with links into an explorer. -/
structure Settings where
  explorer : Explorer := {}
  itinerary : Transit.Itinerary := {}
deriving DecidableEq, Repr, Inhabited

end LegBoard
