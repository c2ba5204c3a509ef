import LegBoard.Json.Read
import LegBoard.Json.Write

/-!
Types with a JSON format. A type names the shape that its texts have and how its values correspond
to values of that shape; reading and writing follow.
-/
namespace LegBoard.Json

/-- A type whose values are written as JSON of one shape. -/
class Format (α : Type) where
  shape : Shape
  ofValue : shape.Value → α
  toValue : α → shape.Value

/-- The value that a JSON text holds. -/
def parse (α : Type) [Format α] (text : String) : Except Fault α :=
  ((Format.shape α).readAll text).map Format.ofValue

/-- A value as JSON text. -/
def render {α : Type} [Format α] (a : α) : String :=
  (Format.shape α).writeAll (Format.toValue a)

end LegBoard.Json
