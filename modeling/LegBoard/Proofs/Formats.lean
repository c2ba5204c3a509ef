import LegBoard.Explorer
import LegBoard.Proofs.Json.RoundTrip
import LegBoard.Transit.Schema

/-!
# The formats of itineraries and queries

Every type that is read or written as JSON has an unambiguous shape and is got
back from the value of that shape. The round trip of a type says two things:
each of its values comes back from its text, and a text that was read once, in
whatever spelling, does not change any more after its value was written. Texts
that are not accepted are outside the second part.
-/
namespace LegBoard

open LegBoard.Json (Format LawfulFormat parse render)

namespace Transit

theorem Mode.ofName_name (mode : Mode) : Mode.ofName mode.name = mode := by
  cases mode <;> decide

instance : LawfulFormat Mode where
  isUnambiguous := rfl
  ofValue_toValue := Mode.ofName_name

instance : LawfulFormat Presentation where
  isUnambiguous := by decide
  ofValue_toValue _ := rfl

instance : LawfulFormat Line where
  isUnambiguous := by decide
  ofValue_toValue line := congrArg (Line.mk _ _) (Json.map_ofValue_toValue line.presentation)

instance : LawfulFormat DestinationDisplay where
  isUnambiguous := by decide
  ofValue_toValue _ := rfl

instance : LawfulFormat EstimatedCall where
  isUnambiguous := by decide
  ofValue_toValue call :=
    congrArg EstimatedCall.mk (Json.map_ofValue_toValue call.destinationDisplay)

instance : LawfulFormat Leg where
  isUnambiguous := by decide
  ofValue_toValue leg := by
    have hmode := leg.mode.ofName_name
    have hline := Json.map_ofValue_toValue leg.line
    have hcall := Json.map_ofValue_toValue leg.toEstimatedCall
    change Leg.mk (Mode.ofName leg.mode.name) _ _ = _
    rw [hmode]
    exact congr (congrArg (Leg.mk leg.mode) hline) hcall

instance : LawfulFormat Itinerary where
  isUnambiguous := by decide
  ofValue_toValue itinerary := congrArg Itinerary.mk (Json.listMap_ofValue_toValue itinerary.legs)

end Transit

instance : LawfulFormat LineQueryVariables where
  isUnambiguous := by decide
  ofValue_toValue _ := rfl

structure RoundTrips (α : Type) [Format α] : Prop where
  /-- Every value comes back from its text. -/
  value : ∀ a : α, parse α (render a) = .ok a
  /-- The value of an accepted text is written in one way, which is read and written again
  without a change. -/
  text : ∀ (s : String) (a : α), parse α s = .ok a →
    ∃ b, parse α (render a) = .ok b ∧ b = a ∧ render b = render a

theorem roundTrips_of_lawful (α : Type) [Format α] [LawfulFormat α] : RoundTrips α where
  value := Json.parse_render
  text _ a _ := ⟨a, Json.parse_render a, rfl, rfl⟩

open Transit

/-- Every type of the itinerary and the variables of the line query make the round trip, for all
values and all accepted texts. -/
theorem formats_roundTrip :
    RoundTrips Mode ∧ RoundTrips Presentation ∧ RoundTrips Line ∧
      RoundTrips DestinationDisplay ∧ RoundTrips EstimatedCall ∧ RoundTrips Leg ∧
      RoundTrips Itinerary ∧ RoundTrips LineQueryVariables :=
  ⟨roundTrips_of_lawful _, roundTrips_of_lawful _, roundTrips_of_lawful _,
    roundTrips_of_lawful _, roundTrips_of_lawful _, roundTrips_of_lawful _,
    roundTrips_of_lawful _, roundTrips_of_lawful _⟩

/-- An itinerary of one leg, written as lists, with blanks, an escape and an unknown mode. -/
theorem roundTrip_of_spelt_itinerary :
    let a : Itinerary := { legs := [{ line := some { id := some "A" } }] }
    parse Itinerary " [[[\"hovercraft\", [\"\\u0041\"]]]] " = .ok a ∧
      ∃ b, parse Itinerary (render a) = .ok b ∧ b = a ∧ render b = render a := by
  intro a
  have h : parse Itinerary " [[[\"hovercraft\", [\"\\u0041\"]]]] " = .ok a := rfl
  obtain ⟨-, -, -, -, -, -, hitinerary, -⟩ := formats_roundTrip
  exact ⟨h, hitinerary.text _ a h⟩

end LegBoard
