import LegBoard.Json.Format

/-!
Transport modes. A feed names a mode in lower-case letters; whatever is not one of these names, in
that very spelling, names the unknown mode.
-/
namespace LegBoard.Transit

inductive Mode where
  | foot
  | bicycle
  | car
  | scooter
  | bus
  | coach
  | tram
  | metro
  | rail
  | water
  | air
  | cableway
  | funicular
  | trolleybus
  | monorail
  | taxi
  | lift
  | unknown
deriving DecidableEq, Repr, Inhabited

namespace Mode

/-- What the page calls a mode. -/
def label : Mode → String
  | foot => "foot"
  | bicycle => "bicycle"
  | car => "car"
  | scooter => "scooter"
  | bus => "bus"
  | coach => "coach"
  | tram => "tram"
  | metro => "metro"
  | rail => "rail"
  | water => "water"
  | air => "air"
  | cableway => "cableway"
  | funicular => "funicular"
  | trolleybus => "trolleybus"
  | monorail => "monorail"
  | taxi => "taxi"
  | lift => "lift"
  | unknown => "unknown"

/-- The name of a mode in feeds. -/
def name : Mode → String
  | foot => "foot"
  | bicycle => "bicycle"
  | car => "car"
  | scooter => "scooter"
  | bus => "bus"
  | coach => "coach"
  | tram => "tram"
  | metro => "metro"
  | rail => "rail"
  | water => "water"
  | air => "air"
  | cableway => "cableway"
  | funicular => "funicular"
  | trolleybus => "trolleybus"
  | monorail => "monorail"
  | taxi => "taxi"
  | lift => "lift"
  | unknown => "unknown"

/-- The modes that have a name of their own. -/
def known : List Mode :=
  [foot, bicycle, car, scooter, bus, coach, tram, metro, rail, water, air, cableway, funicular,
    trolleybus, monorail, taxi, lift]

def ofName (name : String) : Mode :=
  (known.find? fun mode => mode.name == name).getD unknown

instance : Json.Format Mode where
  shape := .tag
  ofValue := ofName
  toValue := name

end Mode

end LegBoard.Transit
