import LegBoard.Colour.Contrast
import LegBoard.Colour.Palette
import LegBoard.Explorer
import LegBoard.Html.Node

/-!
The badge of a leg's line: its public code in the leg's colours, with a link that looks the line up
in the explorer.
-/
namespace LegBoard.Board

open LegBoard.Html (Attribute Node)
open LegBoard.Transit (Leg)

structure Badge where
  href : String
  title : String
  label : String
  style : String
deriving DecidableEq, Repr

/-- What a title says in place of something that the leg does not have. -/
def missing : String := "undefined"

namespace Badge

def styleOf (background foreground : String) : String :=
  "background-color: " ++ background ++ "; color: " ++ foreground ++
    "; border-radius: 7px; padding: 3px 6px; text-decoration: none; max-width: 14pt; " ++
    "overflow: elipsis;"

def ofLeg (explorer : Explorer) (leg : Leg) : Badge :=
  let background := Colour.ofLeg leg
  { href := explorer.lineUrl leg.lineId
    title := "Line " ++ leg.publicCode.getD missing ++ " to " ++ leg.frontText.getD missing
    label := leg.publicCode.getD ""
    style := styleOf background (Colour.textColour background) }

def attributes (badge : Badge) : List Attribute :=
  [⟨"href", badge.href⟩, ⟨"target", "_blank"⟩, ⟨"rel", "noreferrer"⟩, ⟨"title", badge.title⟩,
    ⟨"style", badge.style⟩]

def view (badge : Badge) : Node := .element "a" badge.attributes [.text badge.label]

end Badge

end LegBoard.Board
