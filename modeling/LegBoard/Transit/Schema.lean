import LegBoard.Transit.Leg

/-!
The JSON format of itineraries and their parts. Keys are those of the journey planner's answers.
-/
namespace LegBoard.Transit

open LegBoard.Json (Shape Format)

/-- A string or `null`. -/
abbrev optionalText : Shape := .optional .text

def Presentation.shape : Shape :=
  .record "Presentation" false <|
    .cons "colour" optionalText <| .cons "textColour" optionalText .nil

instance : Format Presentation where
  shape := Presentation.shape
  ofValue := fun (colour, textColour, ()) => ⟨colour, textColour⟩
  toValue := fun p => (p.colour, p.textColour, ())

def Line.shape : Shape :=
  .record "Line" false <|
    .cons "id" optionalText <| .cons "publicCode" optionalText <|
      .cons "presentation" (.optional Presentation.shape) .nil

instance : Format Line where
  shape := Line.shape
  ofValue := fun (id, publicCode, presentation, ()) =>
    ⟨id, publicCode, presentation.map Format.ofValue⟩
  toValue := fun line =>
    (line.id, line.publicCode, line.presentation.map Format.toValue, ())

def DestinationDisplay.shape : Shape :=
  .record "DestinationDisplay" false <| .cons "frontText" optionalText .nil

instance : Format DestinationDisplay where
  shape := DestinationDisplay.shape
  ofValue := fun (frontText, ()) => ⟨frontText⟩
  toValue := fun d => (d.frontText, ())

def EstimatedCall.shape : Shape :=
  .record "EstimatedCall" false <|
    .cons "destinationDisplay" (.optional DestinationDisplay.shape) .nil

instance : Format EstimatedCall where
  shape := EstimatedCall.shape
  ofValue := fun (display, ()) => ⟨display.map Format.ofValue⟩
  toValue := fun call => (call.destinationDisplay.map Format.toValue, ())

def Leg.shape : Shape :=
  .record "Leg" false <|
    .cons "mode" .tag <| .cons "line" (.optional Line.shape) <|
      .cons "toEstimatedCall" (.optional EstimatedCall.shape) .nil

instance : Format Leg where
  shape := Leg.shape
  ofValue := fun (mode, line, call, ()) =>
    ⟨Mode.ofName mode, line.map Format.ofValue, call.map Format.ofValue⟩
  toValue := fun leg =>
    (leg.mode.name, leg.line.map Format.toValue, leg.toEstimatedCall.map Format.toValue, ())

def Itinerary.shape : Shape :=
  .record "Itinerary" false <| .cons "legs" (.list Leg.shape) .nil

instance : Format Itinerary where
  shape := Itinerary.shape
  ofValue := fun (legs, ()) => ⟨legs.map Format.ofValue⟩
  toValue := fun itinerary => (itinerary.legs.map Format.toValue, ())

end LegBoard.Transit
