import LegBoard.Proofs.Board.PageTokens
import LegBoard.Proofs.Html.Outline

/-!
# The outline of the page

Which tags the page of an itinerary has is settled by whether an explorer is
configured and by which legs have a line and a sign. No base URL, identifier,
code, colour or destination adds, drops or changes a tag, so nothing in a feed
can write markup into the page. What the links lead to is not told here.
-/
namespace LegBoard.Board

open LegBoard.Html (Node document outline startTags)
open LegBoard.Transit (Leg)

/-- Which of the parts that a row can do without a leg has: its line and its sign. -/
def parts (leg : Leg) : Bool × Bool := (leg.line.isSome, leg.frontText.isSome)

/-! ## One skeleton for all strings -/

theorem skeleton_explorerLink {explorer explorer' : Explorer}
    (h : explorer.isConfigured = explorer'.isConfigured) :
    (explorerLink explorer).skeleton = (explorerLink explorer').skeleton := by
  rw [explorerLink, explorerLink, h]
  cases explorer'.isConfigured <;> rfl

theorem skeleton_lineView (explorer explorer' : Explorer) {leg leg' : Leg}
    (h : leg.line.isSome = leg'.line.isSome) :
    (lineView explorer leg).skeleton = (lineView explorer' leg').skeleton := by
  rw [lineView, lineView, h]
  cases leg'.line.isSome <;> rfl

theorem skeleton_signView {leg leg' : Leg} (h : leg.frontText.isSome = leg'.frontText.isSome) :
    (signView leg).skeleton = (signView leg').skeleton := by
  rw [signView, signView]
  cases hleg : leg.frontText with
  | none =>
    rw [hleg, Option.isSome_none, Eq.comm, Option.isSome_eq_false_iff, Option.isNone_iff_eq_none]
      at h
    rw [h]
  | some text =>
    rw [hleg, Option.isSome_some, Eq.comm, Option.isSome_iff_exists] at h
    obtain ⟨text', htext⟩ := h
    rw [htext]
    rfl

theorem skeleton_legRow (explorer explorer' : Explorer) {leg leg' : Leg}
    (h : parts leg = parts leg') :
    (legRow explorer leg).skeleton = (legRow explorer' leg').skeleton := by
  obtain ⟨hline, hsign⟩ := Prod.mk.inj h
  simp only [legRow, rowContent, Node.skeleton, Node.skeletons,
    skeleton_lineView explorer explorer' hline, skeleton_signView hsign]

theorem skeletons_rows (explorer explorer' : Explorer) {legs legs' : List Leg}
    (h : legs.map parts = legs'.map parts) :
    Node.skeletons (legs.map (legRow explorer)) =
      Node.skeletons (legs'.map (legRow explorer')) := by
  induction legs generalizing legs' with
  | nil =>
    obtain rfl := List.map_eq_nil_iff.mp h.symm
    rfl
  | cons leg legs ih =>
    obtain ⟨leg', legs'', rfl, hleg, hlegs⟩ := List.map_eq_cons_iff.mp h.symm
    rw [List.map_cons, List.map_cons, Node.skeletons, Node.skeletons,
      skeleton_legRow explorer explorer' hleg.symm, ih hlegs.symm]

theorem skeleton_itineraryPage {s t : Settings}
    (hexplorer : s.explorer.isConfigured = t.explorer.isConfigured)
    (hlegs : s.itinerary.legs.map parts = t.itinerary.legs.map parts) :
    (itineraryPage s).skeleton = (itineraryPage t).skeleton := by
  have hrows := skeletons_rows s.explorer t.explorer hlegs
  have hlink := skeleton_explorerLink hexplorer
  simp only [itineraryPage, heading, titledSection, blockTitle, rowList, Node.skeleton,
    Node.skeletons, hrows, hlink]

/-! ## How many rows and anchors -/

theorem length_anchors_rows (explorer : Explorer) (legs : List Leg) :
    (legs.flatMap fun leg => startTags "a" (legRow explorer leg).tokens).length =
      (legs.filter fun leg => leg.line.isSome).length := by
  induction legs with
  | nil => rfl
  | cons leg legs ih =>
    rw [List.flatMap_cons, List.length_append, ih, anchors_legRow, List.filter_cons]
    split
    · rw [List.length_singleton, List.length_cons]
      omega
    · rw [List.length_nil]
      omega

theorem length_anchors (settings : Settings) :
    (startTags "a" (itineraryPage settings).tokens).length =
      1 + (if settings.explorer.isConfigured then 1 else 0) +
        (settings.itinerary.legs.filter fun leg => leg.line.isSome).length := by
  have hheading : startTags "a" (heading settings.explorer).tokens =
      startTags "a" (explorerLink settings.explorer).tokens := by
    simp [heading]
  rw [itineraryPage, Node.startTags_element_of_ne (by decide), List.flatMap_cons,
    List.flatMap_singleton, List.length_append, hheading,
    length_anchors_explorerLink, length_anchors_titledSection, startTags_rowList (by decide),
    length_anchors_rows]
  omega

/-- Two itineraries that differ in strings alone have pages of the same outline. A page has a row
for each leg, and an anchor for its title, for the explorer if there is one, and for each line. -/
theorem itineraryPage_outline :
    (∀ s t : Settings, s.explorer.isConfigured = t.explorer.isConfigured →
      s.itinerary.legs.map parts = t.itinerary.legs.map parts →
      outline (document (itineraryPage s).render) =
        outline (document (itineraryPage t).render)) ∧
    ∀ s : Settings,
      (startTags "li" (document (itineraryPage s).render)).length =
        s.itinerary.legs.length ∧
      (startTags "a" (document (itineraryPage s).render)).length =
        1 + (if s.explorer.isConfigured then 1 else 0) +
          (s.itinerary.legs.filter fun leg => leg.line.isSome).length := by
  refine ⟨fun s t hexplorer hlegs => ?_, fun s => ⟨?_, ?_⟩⟩
  · rw [document_itineraryPage, document_itineraryPage]
    exact Node.outline_eq_of_skeleton_eq (skeleton_itineraryPage hexplorer hlegs)
  · rw [document_itineraryPage, length_listItems]
  · rw [document_itineraryPage, length_anchors]

/-- A leg with given strings wherever a feed has any. -/
def legOfStrings (id code colour sign : String) : Leg where
  mode := .bus
  line := some {
    id := some id
    publicCode := some code
    presentation := some { colour := some colour } }
  toEstimatedCall := some { destinationDisplay := some { frontText := some sign } }

/-- Markup in every string of a leg and in the base of the explorer stays text. -/
theorem outline_of_markup_in_strings :
    outline (document (itineraryPage
        ⟨⟨some "\"><script>"⟩, ⟨[legOfStrings "<li>" "</a><a href=" "\"></li>" "<!-- "]⟩⟩).render) =
      outline (document (itineraryPage
        ⟨⟨some "explorer?a"⟩, ⟨[legOfStrings "RUT:Line:31" "31" "E60000" "Tonsenhagen"]⟩⟩).render) :=
  itineraryPage_outline.1 _ _ (by decide) (by decide)

end LegBoard.Board
