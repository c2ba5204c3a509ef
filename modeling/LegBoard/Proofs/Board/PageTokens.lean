import LegBoard.Board.Page
import LegBoard.Proofs.Html.Elements

/-!
# The page as a reader finds it

The names in the page are plain, so its tokens are those of its views. Of these
the anchors and the rows are told here: a row has one anchor if its leg has a
line and none otherwise, and the stretches between the tags of list items are
the rows, one for each leg.
-/
namespace LegBoard.Board

open LegBoard.Html (Node Token Attribute document startTags blocks)
open LegBoard.Transit (Leg)

/-! ## Plain names -/

theorem isPlain_view (badge : Badge) : badge.view.isPlain = true := by
  simp only [Badge.view, Badge.attributes, Node.isPlain, Node.allPlain, List.all_cons]
  decide

theorem isPlain_externalLink (href label : String) :
    (externalLink href label).isPlain = true := by
  simp only [externalLink, Node.isPlain, Node.allPlain, List.all_cons]
  decide

theorem isPlain_explorerLink (explorer : Explorer) : (explorerLink explorer).isPlain = true := by
  rw [explorerLink]
  split
  · exact isPlain_externalLink _ _
  · rfl

theorem isPlain_titledSection (id title : String) {content : Node} (h : content.isPlain = true) :
    (titledSection id title content).isPlain = true := by
  simp only [titledSection, blockTitle, Node.isPlain, Node.allPlain, List.all_cons, h]
  decide

theorem isPlain_lineView (explorer : Explorer) (leg : Leg) :
    (lineView explorer leg).isPlain = true := by
  rw [lineView]
  split
  · exact isPlain_view _
  · decide

theorem isPlain_signView (leg : Leg) : (signView leg).isPlain = true := by
  rw [signView]
  cases leg.frontText <;> rfl

theorem isPlain_legRow (explorer : Explorer) (leg : Leg) :
    (legRow explorer leg).isPlain = true := by
  simp only [legRow, rowContent, Node.isPlain, Node.allPlain, List.all_cons,
    isPlain_lineView, isPlain_signView]
  decide

theorem allPlain_rows (explorer : Explorer) (legs : List Leg) :
    Node.allPlain (legs.map (legRow explorer)) = true := by
  induction legs with
  | nil => rfl
  | cons leg legs ih =>
    rw [List.map_cons, Node.allPlain, isPlain_legRow, ih]
    rfl

theorem isPlain_rowList (settings : Settings) : (rowList settings).isPlain = true := by
  simp only [rowList, Node.isPlain, Node.allPlain, List.all_cons, allPlain_rows]
  decide

theorem isPlain_itineraryPage (settings : Settings) : (itineraryPage settings).isPlain = true := by
  simp only [itineraryPage, heading, Node.isPlain, Node.allPlain, List.all_cons,
    isPlain_explorerLink, isPlain_titledSection _ _ (isPlain_rowList settings)]
  decide

/-- A reader of the page finds the tokens of its views. -/
theorem document_itineraryPage (settings : Settings) :
    document (itineraryPage settings).render = (itineraryPage settings).tokens :=
  Node.document_render (isPlain_itineraryPage settings)

/-! ## Anchors -/

theorem anchors_lineView (explorer : Explorer) (leg : Leg) :
    startTags "a" (lineView explorer leg).tokens =
      if leg.line.isSome then [(Badge.ofLeg explorer leg).attributes.map Attribute.written]
      else [] := by
  rw [lineView]
  split
  · rw [Badge.view, Node.startTags_element_self, List.flatMap_cons, Node.startTags_text]
    rfl
  · simp

theorem startTags_lineView {name : String} (ha : "a" ≠ name) (hspan : "span" ≠ name)
    (explorer : Explorer) (leg : Leg) : startTags name (lineView explorer leg).tokens = [] := by
  rw [lineView]
  split
  · simp [Badge.view, ha]
  · simp [hspan]

theorem startTags_explorerLink {name : String} (ha : "a" ≠ name) (explorer : Explorer) :
    startTags name (explorerLink explorer).tokens = [] := by
  rw [explorerLink]
  split
  · simp [externalLink, ha]
  · rfl

theorem startTags_signView {name : String} (hspan : "span" ≠ name) (leg : Leg) :
    startTags name (signView leg).tokens = [] := by
  rw [signView]
  cases leg.frontText with
  | none => rfl
  | some text => simp [Node.ofOption, hspan]

/-- A row has an anchor exactly if its leg has a line, and then it is that of the badge. -/
theorem anchors_legRow (explorer : Explorer) (leg : Leg) :
    startTags "a" (legRow explorer leg).tokens =
      if leg.line.isSome then [(Badge.ofLeg explorer leg).attributes.map Attribute.written]
      else [] := by
  have hsign : startTags "a" (signView leg).tokens = [] := startTags_signView (by decide) leg
  simp [legRow, rowContent, anchors_lineView, hsign]

theorem length_anchors_explorerLink (explorer : Explorer) :
    (startTags "a" (explorerLink explorer).tokens).length =
      if explorer.isConfigured then 1 else 0 := by
  rw [explorerLink]
  split
  · simp [externalLink]
  · rfl

theorem length_anchors_titledSection (id title : String) (content : Node) :
    (startTags "a" (titledSection id title content).tokens).length =
      1 + (startTags "a" content.tokens).length := by
  simp [titledSection, blockTitle, Nat.add_comm]

/-! ## Rows -/

/-- Inside of a row no other row starts. -/
theorem listItems_rowContent (explorer : Explorer) (leg : Leg) :
    ((rowContent explorer leg).flatMap fun n => startTags "li" n.tokens) = [] := by
  simp [rowContent, startTags_lineView, startTags_signView]

theorem length_listItems_legRow (explorer : Explorer) (leg : Leg) :
    (startTags "li" (legRow explorer leg).tokens).length = 1 := by
  rw [legRow, Node.startTags_element_self, listItems_rowContent]
  rfl

theorem listItems_heading (explorer : Explorer) :
    startTags "li" (heading explorer).tokens = [] := by
  simp [heading, startTags_explorerLink]

theorem listItems_blockTitle (id title : String) :
    startTags "li" (blockTitle id title).tokens = [] := by
  simp [blockTitle]

theorem startTags_rowList {name : String} (h : "ol" ≠ name) (settings : Settings) :
    startTags name (rowList settings).tokens = settings.itinerary.legs.flatMap fun leg =>
      startTags name (legRow settings.explorer leg).tokens := by
  rw [rowList, Node.startTags_element_of_ne h, List.flatMap_cons, Node.startTags_each,
    List.flatMap_nil, List.append_nil, List.flatMap_map]

theorem length_listItems (settings : Settings) :
    (startTags "li" (itineraryPage settings).tokens).length = settings.itinerary.legs.length := by
  have hrows : startTags "li" (itineraryPage settings).tokens =
      settings.itinerary.legs.flatMap fun leg =>
        startTags "li" (legRow settings.explorer leg).tokens := by
    rw [← startTags_rowList (by decide)]
    simp [itineraryPage, titledSection, listItems_heading, listItems_blockTitle]
  rw [hrows]
  induction settings.itinerary.legs with
  | nil => rfl
  | cons leg legs ih =>
    rw [List.flatMap_cons, List.length_append, length_listItems_legRow, ih, List.length_cons]
    omega

theorem blocks_legRow (explorer : Explorer) (leg : Leg) (rest : List Token) :
    blocks "li" ((legRow explorer leg).tokens ++ rest) =
      (legRow explorer leg).tokens :: blocks "li" rest := by
  rw [legRow]
  apply Node.blocks_element
  rw [Node.startTags_tokensAll, listItems_rowContent]

theorem blocks_titledSection (id title : String) {content : Node} (h : content.isText = false)
    (rest : List Token) :
    blocks "li" ((titledSection id title content).tokens ++ rest) =
      blocks "li" (content.tokens ++
        .tag (.finish "div") :: .tag (.finish "section") :: rest) := by
  have htitle : ([blockTitle id title].flatMap fun n => startTags "li" n.tokens) = [] := by
    rw [List.flatMap_singleton, listItems_blockTitle]
  have hparts : titledSection id title content =
      .element "section" _ ([blockTitle id title] ++ [.element "div" _ ([] ++ [content])]) := rfl
  rw [hparts, Node.blocks_last (by decide) _ htitle _ rfl,
    Node.blocks_last (by decide) _ rfl _ h]

/-- Between the tags of list items a reader finds the rows, one for each leg in its order. -/
theorem blocks_itineraryPage (settings : Settings) :
    blocks "li" (itineraryPage settings).tokens =
      settings.itinerary.legs.map fun leg => (legRow settings.explorer leg).tokens := by
  have hheading : ([heading settings.explorer].flatMap fun n => startTags "li" n.tokens) = [] := by
    rw [List.flatMap_singleton, listItems_heading]
  have hpage : itineraryPage settings =
      .element "main" _ ([heading settings.explorer] ++ [titledSection "legs" _
        (rowList settings)]) := rfl
  have hlist : rowList settings = .element "ol" _
      ([] ++ [.each (settings.itinerary.legs.map (legRow settings.explorer))]) := rfl
  rw [← List.append_nil (itineraryPage settings).tokens, hpage,
    Node.blocks_last (by decide) _ hheading _ rfl, blocks_titledSection _ _ rfl, hlist,
    Node.blocks_last (by decide) _ rfl _ rfl,
    Node.blocks_each (fun _ => rfl) (blocks_legRow settings.explorer)]
  exact List.append_nil _

end LegBoard.Board
