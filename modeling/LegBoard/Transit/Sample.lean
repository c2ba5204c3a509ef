import LegBoard.Transit.Schema

/-!
The sample, an itinerary that comes with the program. It is bundled as JSON and read like any other
itinerary.
-/
namespace LegBoard.Transit

/-- The text of the sample. -/
def Itinerary.sampleText : String := "\x7b
  \"legs\": [
    \x7b
      \"mode\": \"foot\",
      \"line\": null,
      \"toEstimatedCall\": null
    \x7d,
    \x7b
      \"mode\": \"bus\",
      \"line\": \x7b
        \"id\": \"RUT:Line:31\",
        \"publicCode\": \"31\",
        \"presentation\": \x7b \"colour\": \"E60000\", \"textColour\": \"FFFFFF\" \x7d
      \x7d,
      \"toEstimatedCall\": \x7b
        \"destinationDisplay\": \x7b \"frontText\": \"Tonsenhagen\" \x7d
      \x7d
    \x7d,
    \x7b
      \"mode\": \"metro\",
      \"line\": \x7b
        \"id\": \"RUT:Line:5\",
        \"publicCode\": \"5\",
        \"presentation\": null
      \x7d,
      \"toEstimatedCall\": \x7b
        \"destinationDisplay\": \x7b \"frontText\": \"Vestli\" \x7d
      \x7d
    \x7d,
    \x7b
      \"mode\": \"rail\",
      \"line\": \x7b
        \"id\": \"NSB:Line:R10\",
        \"publicCode\": \"R10\",
        \"presentation\": \x7b \"colour\": \"00B140\" \x7d
      \x7d,
      \"toEstimatedCall\": \x7b
        \"destinationDisplay\": \x7b \"frontText\": \"Lillehammer\" \x7d
      \x7d
    \x7d,
    \x7b
      \"mode\": \"foot\",
      \"line\": null,
      \"toEstimatedCall\": null
    \x7d
  ]
\x7d
"

/-- The sample, if its text is an itinerary. -/
def Itinerary.readSample : Except Json.Fault Itinerary := Json.parse Itinerary sampleText

/-- What the bundled text is read as. -/
def Itinerary.sample : Itinerary where
  legs := [
    { mode := .foot },
    { mode := .bus
      line := some {
        id := some "RUT:Line:31"
        publicCode := some "31"
        presentation := some { colour := some "E60000", textColour := some "FFFFFF" } }
      toEstimatedCall := some {
        destinationDisplay := some { frontText := some "Tonsenhagen" } } },
    { mode := .metro
      line := some { id := some "RUT:Line:5", publicCode := some "5" }
      toEstimatedCall := some { destinationDisplay := some { frontText := some "Vestli" } } },
    { mode := .rail
      line := some {
        id := some "NSB:Line:R10"
        publicCode := some "R10"
        presentation := some { colour := some "00B140" } }
      toEstimatedCall := some {
        destinationDisplay := some { frontText := some "Lillehammer" } } },
    { mode := .foot }]

set_option maxRecDepth 8000 in
theorem Itinerary.toOption_readSample : readSample.toOption = some sample := by
  -- Taken apart first, since the characters of so long a text are slow to compute.
  have hchars : sampleText.toList = _ := String.toList_ofList
  rw [readSample, Json.parse, Json.Shape.readAll, hchars]
  decide +kernel

theorem Itinerary.readSample_eq : readSample = .ok sample := by
  have hsample := toOption_readSample
  cases hread : readSample with
  | error fault =>
    rw [hread] at hsample
    cases hsample
  | ok itinerary =>
    rw [hread] at hsample
    rw [Option.some.inj hsample]

end LegBoard.Transit
