import LegBoard.Proofs.Board.PageTokens
import LegBoard.Proofs.ExplorerUrl

/-!
# The links of the page

A reader of the page finds one row for each leg, in the order of the itinerary.
In the row of a leg with a line stands one anchor, and its address, once the
references in it are undone and its parts decoded, holds the base, the line
query and that line. What the explorer does with it is not told.
-/
namespace LegBoard.Board

open LegBoard.Html (Node Attribute document startTags valuesOf blocks unescape)
open LegBoard.Transit (Leg)

theorem href_attributes (badge : Badge) :
    valuesOf "href" (badge.attributes.map Attribute.written) =
      [String.ofList (Html.escapeValue badge.href)] := by
  simp [valuesOf, Badge.attributes, Attribute.written]

/-- The address of a badge, as a reader gets it, looks up the line of the leg. -/
theorem looksUp_href (explorer : Explorer) (leg : Leg) {href : String}
    (h : href ∈ valuesOf "href" ((Badge.ofLeg explorer leg).attributes.map Attribute.written)) :
    explorer.LooksUp leg.lineId (String.ofList (unescape href.toList)) := by
  rw [href_attributes, List.mem_singleton] at h
  rw [h, String.toList_ofList, Html.unescape_escapeValue, String.ofList_toList]
  exact Explorer.looksUp_lineUrl explorer leg.lineId

/-- Each leg has its row, at its place. If it has a line, its row has one anchor with one address,
which looks that line up, and otherwise none. -/
theorem itineraryPage_links (settings : Settings) :
    let page := document (itineraryPage settings).render
    let legs := settings.itinerary.legs
    (startTags "li" page).length = legs.length ∧ (blocks "li" page).length = legs.length ∧
    ∀ (i : Nat) (leg : Leg), legs[i]? = some leg → ∃ row, (blocks "li" page)[i]? = some row ∧
      row = document (legRow settings.explorer leg).render ∧
      (leg.line = none → startTags "a" row = []) ∧
      (leg.line.isSome → ∃ attributes href,
        startTags "a" row = [attributes] ∧ valuesOf "href" attributes = [href] ∧
        settings.explorer.LooksUp leg.lineId (String.ofList (unescape href.toList))) := by
  intro page legs
  have hpage : page = (itineraryPage settings).tokens := document_itineraryPage settings
  have hblocks : blocks "li" page = legs.map fun leg => (legRow settings.explorer leg).tokens := by
    rw [hpage, blocks_itineraryPage]
  refine ⟨?_, ?_, ?_⟩
  · rw [hpage, length_listItems]
  · rw [hblocks, List.length_map]
  · intro i leg hleg
    refine ⟨(legRow settings.explorer leg).tokens, ?_, ?_, ?_, ?_⟩
    · rw [hblocks, List.getElem?_map, hleg]
      rfl
    · rw [Node.document_render (isPlain_legRow settings.explorer leg)]
    · intro hline
      rw [anchors_legRow, hline]
      rfl
    · intro hline
      have hhref := href_attributes (Badge.ofLeg settings.explorer leg)
      refine ⟨_, _, ?_, hhref, looksUp_href settings.explorer leg ?_⟩
      · rw [anchors_legRow, if_pos hline]
      · rw [hhref]
        exact List.mem_singleton_self _

/-- A page of two legs, one with quotes, an ampersand, a percent sign and letters beyond ASCII in
its line and none of it in the other. -/
theorem link_of_marks_in_strings :
    let settings : Settings := ⟨⟨some "explorer?a=\"&query=1"⟩,
      ⟨[{ mode := .foot }, { mode := .bus, line := some { id := some "\"&%25<é🚌\n" } }]⟩⟩
    (∃ row, (blocks "li" (document (itineraryPage settings).render))[0]? = some row ∧
      startTags "a" row = []) ∧
    ∃ row attributes href,
      (blocks "li" (document (itineraryPage settings).render))[1]? = some row ∧
      startTags "a" row = [attributes] ∧ valuesOf "href" attributes = [href] ∧
      settings.explorer.LooksUp (some "\"&%25<é🚌\n") (String.ofList (unescape href.toList)) := by
  intro settings
  obtain ⟨-, -, hrows⟩ := itineraryPage_links settings
  obtain ⟨row, hrow, -, hnone, -⟩ := hrows 0 _ rfl
  obtain ⟨row', hrow', -, -, hsome⟩ := hrows 1 _ rfl
  obtain ⟨attributes, href, hlink⟩ := hsome rfl
  exact ⟨⟨row, hrow, hnone rfl⟩, row', attributes, href, hrow', hlink⟩

end LegBoard.Board
