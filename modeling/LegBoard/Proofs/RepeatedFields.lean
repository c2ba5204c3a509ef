import LegBoard.Proofs.Json.Clashes
import LegBoard.Proofs.ListForms

/-!
# Fields given twice

No record takes a field twice, not even with the same value or with `null` both times: the whole
text is refused, however deep in it the record stands. If everything up to the second key was
readable, it is this key that is blamed, and what comes behind it is not looked at. Keys that no
field has may be given any number of times. Which of several faults before the second key is told is
not said.
-/
namespace LegBoard.Json

/-- Texts of a type are refused if a field is given twice in them. Those of the type itself have
these names. -/
structure RefusesRepeats (α : Type) [Format α] (names : List String) : Prop where
  fields : (Format.shape α).fields?.map Fields.names = some names
  /-- No two members of a record are of the same field, at any depth. -/
  refused : ∀ (text : String) (d : Document) (name : String), Holds text d →
    Doubles name (Format.shape α) d → ∃ fault, parse α text = .error fault
  /-- A text that holds no document has no members, and is refused anyway. -/
  malformed : ∀ text : String, (∀ d, ¬Holds text d) → ∃ fault, parse α text = .error fault
  /-- The second key of a field is blamed if nothing before it was refused. -/
  blamed : ∀ (text : String) (s : List Char) (name : String), Blanks text.toList s →
    Clashes name (Format.shape α) s → ∃ fault, parse α text = .error fault ∧
      fault.problem = .duplicateField name ∧ fault.problem.kind = .mismatched ∧
      fault.problem.message = "duplicate field `" ++ name ++ "`"
  /-- Members of no field make no difference, however often their key is given. -/
  passed : ∀ (text text' : String) (d d' : Document), Holds text d → Holds text' d' →
    SameButStrangers (Format.shape α) d d' → ∀ a : α, parse α text = .ok a ↔ parse α text' = .ok a

theorem refusesRepeats_of_fields {α : Type} [Format α] {names : List String}
    (hfields : (Format.shape α).fields?.map Fields.names = some names) :
    RefusesRepeats α names := by
  constructor
  · exact hfields
  · intro text d name hd hdoubles
    exact parse_eq_error hd hdoubles.valueOf?
  · intro text hnone
    cases hparse : parse α text with
    | error fault => exact ⟨fault, rfl⟩
    | ok a =>
      obtain ⟨⟨d, hd⟩, -⟩ := wellFormed_of_parse hparse
      exact absurd hd (hnone d)
  · intro text s name hb hclash
    obtain ⟨c, cs, rfl, hblank, -⟩ := hclash.opens
    obtain ⟨q, hq⟩ := hclash.refuses.blanks hb (stops_cons hblank cs) .start
    refine ⟨⟨.duplicateField name, q⟩, ?_, rfl, rfl, rfl⟩
    rw [parse, Shape.readAll_eq, hq]
    rfl
  · intro text text' d d' hd hd' hsame a
    rw [parse_eq_ok_iff hd, parse_eq_ok_iff hd']
    simp only [hsame.valueOf?_iff]

end LegBoard.Json

namespace LegBoard

open LegBoard.Json
open Transit

/-- No record of an itinerary takes a field twice, nor do the variables of the line query. -/
theorem records_refuse_repeats :
    RefusesRepeats Presentation ["colour", "textColour"] ∧
    RefusesRepeats Line ["id", "publicCode", "presentation"] ∧
    RefusesRepeats DestinationDisplay ["frontText"] ∧
    RefusesRepeats EstimatedCall ["destinationDisplay"] ∧
    RefusesRepeats Leg ["mode", "line", "toEstimatedCall"] ∧
    RefusesRepeats Itinerary ["legs"] ∧
    RefusesRepeats LineQueryVariables ["id"] := by
  refine ⟨?_, ?_, ?_, ?_, ?_, ?_, ?_⟩
  all_goals exact refusesRepeats_of_fields rfl

def noId : Units × Document := (unitsOfText "id", .null)

def strangeMember (value : Bool) : Units × Document := (unitsOfText "x", .boolean value)

/-- A line with a key of no field given twice, as far as its members go. -/
theorem members_strange (t : List Char) :
    Members true [noId, strangeMember true, strangeMember false]
      ("\"id\":null,\"x\":true,\"x\":false".toList ++ t) t := by
  refine .cons (.first (.nil _)) (spelt_raw ['i', 'd'] (by decide)) (.nil _) (.nil _) .null ?_
  refine .cons (.comma (.nil _) (.nil _)) (spelt_raw ['x'] (by decide)) (.nil _) (.nil _) .yes ?_
  refine .cons (.comma (.nil _) (.nil _)) (spelt_raw ['x'] (by decide)) (.nil _) (.nil _) .no ?_
  exact .nil (.nil _)

theorem spelt_escaped (t : List Char) :
    Spelt (unitsOfText "id") ("i\\u0064".toList ++ '"' :: t) ('"' :: t) := by
  have hletter : UnitDigits ['0', '0', '6', '4'] 'd'.toNat := ⟨rfl, by decide⟩
  exact .raw (by decide) (by decide) (by decide) (.unit hletter .nil)

theorem clashes_leg : Clashes "id" Leg.shape
    "\x7b\"line\":\x7b\"id\":null,\"x\":true,\"x\":false,\"i\\u0064\"!".toList := by
  have hline : Clashes "id" (.optional Line.shape)
      ('{' :: ("\"id\":null,\"x\":true,\"x\":false".toList ++
        ",\"i\\u0064\"!".toList)) := by
    refine .here rfl (by decide) (members_strange _) rfl ⟨noId, List.mem_cons_self, ?_⟩
      (.comma (.nil _) (.nil _)) (spelt_escaped ['!']) (textOf?_unitsOfText "id")
    exact textOf?_unitsOfText "id"
  have hread : Leg.shape.ofMember? (unitsOfText "line") = some (.optional Line.shape) := by
    rw [Shape.ofMember?, textOf?_unitsOfText]
    rfl
  exact .member (.nil (.nil _)) rfl (.first (.nil _)) (spelt_raw "line".toList (by decide))
    (List.forall_mem_nil _) (.nil _) (.nil _) hread hline

theorem holds_twice : Holds "\x7b\"id\":null,\"i\\u0064\":null\x7d" (.object [noId, noId]) := by
  refine ⟨_, [], .nil _, .object ?_, .nil _⟩
  refine .cons (.first (.nil _)) (spelt_raw ['i', 'd'] (by decide)) (.nil _) (.nil _) .null ?_
  exact .cons (.comma (.nil _) (.nil _)) (spelt_escaped _) (.nil _) (.nil _) .null (.nil (.nil _))

/-- A line whose identifier is `null` twice is refused, and blamed on the second key where nothing
else was wrong before, even inside of a leg and in a text that breaks off. That a key of no field is
given twice does not matter, and neither do the keys of another line. -/
theorem repeats_of_id :
    (∃ fault,
      parse Leg "\x7b\"line\":\x7b\"id\":null,\"x\":true,\"x\":false,\"i\\u0064\"!" = .error fault ∧
        fault.problem = .duplicateField "id") ∧
    (∃ fault, parse Line "\x7b\"id\":null,\"i\\u0064\":null\x7d" = .error fault) ∧
    parse Line "\x7b\"id\":null,\"x\":true,\"x\":false\x7d" = .ok {} ∧
    parse Itinerary ("\x7b\"legs\":[\x7b\"line\":\x7b\"id\":null\x7d\x7d," ++
      "\x7b\"line\":\x7b\"id\":null\x7d\x7d]\x7d") =
        .ok ⟨[{ line := some {} }, { line := some {} }]⟩ := by
  obtain ⟨-, hline, -, -, hleg, -, -⟩ := records_refuse_repeats
  have hfirst : Holds "\x7b\"id\":null\x7d" (.object [noId]) :=
    ⟨_, [], .nil _, .object (.cons (.first (.nil _)) (spelt_raw ['i', 'd'] (by decide)) (.nil _)
      (.nil _) .null (.nil (.nil _))), .nil _⟩
  have hstrange : Holds "\x7b\"id\":null,\"x\":true,\"x\":false\x7d"
      (.object [noId, strangeMember true, strangeMember false]) :=
    ⟨_, [], .nil _, .object (members_strange _), .nil _⟩
  have hpassed : Line.shape.PassesOver (unitsOfText "x") :=
    ⟨_, "x", rfl, textOf?_unitsOfText "x", by decide⟩
  have hsame : SameButStrangers Line.shape (.object [noId])
      (.object [noId, strangeMember true, strangeMember false]) :=
    .trans _ _ _ (.rel _ _ (.here [noId] [] hpassed))
      (.rel _ _ (.here [noId, strangeMember true] [] hpassed))
  refine ⟨?_, ?_, ?_, rfl⟩
  · obtain ⟨fault, hfault, hproblem, -⟩ := hleg.blamed _ _ _ (.nil _) clashes_leg
    exact ⟨fault, hfault, hproblem⟩
  · exact hline.refused _ _ "id" holds_twice (.here [] [] [] rfl (by decide)
      (textOf?_unitsOfText "id") (textOf?_unitsOfText "id"))
  · exact (hline.passed _ _ _ _ hfirst hstrange hsame {}).mp rfl

end LegBoard
