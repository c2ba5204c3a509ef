import LegBoard.Board.Badge
import LegBoard.Settings.Basic

/-!
The page of an itinerary: a heading with a link to the explorer, and one row for each leg, in the
order of the itinerary.
-/
namespace LegBoard.Board

open LegBoard.Html (Node)
open LegBoard.Transit (Leg)

/-- A link that leaves the page. -/
def externalLink (href label : String) : Node :=
  .element "a"
    [⟨"href", href⟩, ⟨"target", "_blank"⟩, ⟨"rel", "noreferrer"⟩,
      ⟨"style", "padding: 3px 8px; border: 1px dashed #999; text-decoration: none; " ++
        "display: inline-block;"⟩]
    [.text label, .text " ↗"]

/-- The link of the heading, if there is an explorer. -/
def explorerLink (explorer : Explorer) : Node :=
  if explorer.isConfigured then externalLink explorer.base "GraphiQL" else .absent

def heading (explorer : Explorer) : Node :=
  .element "header" [⟨"style", "margin-bottom: 2rem;"⟩]
    [.element "h1" [] [.text "Itinerary"], explorerLink explorer]

/-- The title of a block of the page, with a link to the block itself. -/
def blockTitle (id title : String) : Node :=
  .element "h2" [⟨"style", "text-transform: uppercase; font-size: 1rem;"⟩]
    [.text title,
      .element "a" [⟨"href", "#" ++ id⟩, ⟨"style", "margin-left: 0.25rem; text-decoration: none;"⟩]
        [.text " §"]]

def titledSection (id title : String) (content : Node) : Node :=
  .element "section" [⟨"id", id⟩, ⟨"style", "margin-bottom: 2rem;"⟩]
    [blockTitle id title,
      .element "div" [⟨"style", "padding-left: 1rem; border-left: 1px dashed #999;"⟩] [content]]

/-- The badge of a leg, or a dash if it has no line. -/
def lineView (explorer : Explorer) (leg : Leg) : Node :=
  if leg.line.isSome then (Badge.ofLeg explorer leg).view else .element "span" [] [.text "—"]

/-- The destination of a leg, if its sign shows one. -/
def signView (leg : Leg) : Node :=
  .ofOption (leg.frontText.map fun text => .element "span" [] [.text ("→ " ++ text)])

/-- What a row shows of a leg: its mode, its line and its destination. -/
def rowContent (explorer : Explorer) (leg : Leg) : List Node :=
  [.element "span" [⟨"style", "min-width: 8ch;"⟩] [.text leg.mode.label],
    lineView explorer leg, signView leg]

def legRow (explorer : Explorer) (leg : Leg) : Node :=
  .element "li"
    [⟨"style", "display: flex; gap: 0.75rem; align-items: center; margin-bottom: 0.5rem;"⟩]
    (rowContent explorer leg)

def rowList (settings : Settings) : Node :=
  .element "ol" [⟨"style", "list-style: none; padding: 0;"⟩]
    [.each (settings.itinerary.legs.map (legRow settings.explorer))]

def itineraryPage (settings : Settings) : Node :=
  .element "main"
    [⟨"style", "max-width: 80ch; margin: 0 auto; padding: 2rem 1rem; font-family: monospace;"⟩]
    [heading settings.explorer,
      titledSection "legs" ("Legs (" ++ toString settings.itinerary.legs.length ++ ")")
        (rowList settings)]

end LegBoard.Board
