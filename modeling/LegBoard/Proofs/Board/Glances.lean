import LegBoard.Board.Page

/-!
# What the page takes from a leg

A row is made of a leg's mode, of what its accessors give, and of whether it has a line at all. Legs
that agree in these have the same row, so the page of two itineraries is the same, character by
character, if their legs agree one by one. A line of which nothing is known is not the same as no
line: it has a link, which the page shows in place of the dash and of nothing else.
-/
namespace LegBoard.Board

open LegBoard.Html (Attribute Node escapeValue)
open LegBoard.Transit (Leg Mode)

/-! ## Legs that look the same -/

/-- All that the page takes from a leg. -/
structure Glance where
  mode : Mode
  hasLine : Bool
  lineId : Option String
  publicCode : Option String
  lineColour : Option String
  frontText : Option String
deriving DecidableEq

def Glance.of (leg : Leg) : Glance where
  mode := leg.mode
  hasLine := leg.line.isSome
  lineId := leg.lineId
  publicCode := leg.publicCode
  lineColour := leg.lineColour
  frontText := leg.frontText

theorem ofLeg_of_glance (explorer : Explorer) {leg leg' : Leg}
    (h : Glance.of leg = Glance.of leg') : Badge.ofLeg explorer leg = Badge.ofLeg explorer leg' := by
  injection h with hmode _ hid hcode hcolour hsign
  have hbackground : Colour.ofLeg leg = Colour.ofLeg leg' := by
    rw [Colour.ofLeg, Colour.ofLeg, hmode, hcolour]
  simp only [Badge.ofLeg, hbackground, hid, hcode, hsign]

theorem legRow_of_glance (explorer : Explorer) {leg leg' : Leg}
    (h : Glance.of leg = Glance.of leg') : legRow explorer leg = legRow explorer leg' := by
  have hbadge := ofLeg_of_glance explorer h
  injection h with hmode hline _ _ _ hsign
  simp only [legRow, rowContent, lineView, signView, hbadge, hmode, hline, hsign]

theorem map_legRow_of_glance (explorer : Explorer) {legs legs' : List Leg}
    (h : legs.map Glance.of = legs'.map Glance.of) :
    legs.map (legRow explorer) = legs'.map (legRow explorer) := by
  induction legs generalizing legs' with
  | nil =>
    obtain rfl := List.map_eq_nil_iff.mp h.symm
    rfl
  | cons leg legs ih =>
    obtain ⟨leg', legs'', rfl, hleg, hlegs⟩ := List.map_eq_cons_iff.mp h.symm
    rw [List.map_cons, List.map_cons, legRow_of_glance explorer hleg, ih hlegs.symm]

theorem itineraryPage_of_glances (explorer : Explorer) {legs legs' : List Leg}
    (h : legs.map Glance.of = legs'.map Glance.of) :
    itineraryPage ⟨explorer, ⟨legs⟩⟩ = itineraryPage ⟨explorer, ⟨legs'⟩⟩ := by
  have hlength : legs.length = legs'.length := by
    simpa only [List.length_map] using congrArg List.length h
  simp only [itineraryPage, rowList, map_legRow_of_glance explorer h, hlength]

/-! ## The page as it is written -/

/-- What is written before the children of an element. -/
def startText (tag : String) (attributes : List Attribute) : List Char :=
  '<' :: tag.toList ++ attributes.flatMap Attribute.render ++ ['>']

/-- What is written behind them. -/
def endText (tag : String) : List Char := ['<', '/'] ++ tag.toList ++ ['>']

theorem write_element (tag : String) (attributes : List Attribute) (children : List Node) :
    (Node.element tag attributes children).write =
      startText tag attributes ++ Node.writeAll false children ++ endText tag := by
  simp only [Node.write, startText, endText, List.append_assoc, List.cons_append, List.nil_append]

/-- Behind a view that is no text, there is no marker. -/
theorem writeAll_cons {node : Node} (h : node.isText = false) (nodes : List Node) :
    Node.writeAll false (node :: nodes) = node.write ++ Node.writeAll false nodes := by
  rw [Node.writeAll, h]
  rfl

theorem isText_lineView (explorer : Explorer) (leg : Leg) :
    (lineView explorer leg).isText = false := by
  rw [lineView]
  split <;> rfl

theorem isText_signView (leg : Leg) : (signView leg).isText = false := by
  rw [signView]
  cases leg.frontText <;> rfl

/-- The rows of legs, as they are written one after the other. -/
def rowsText (explorer : Explorer) (legs : List Leg) : List Char :=
  legs.flatMap fun leg => (legRow explorer leg).write

theorem writeAll_rows (explorer : Explorer) (legs : List Leg) :
    Node.writeAll false (legs.map (legRow explorer)) = rowsText explorer legs := by
  induction legs with
  | nil => rfl
  | cons leg legs ih => rw [List.map_cons, writeAll_cons rfl, ih, rowsText, rowsText,
      List.flatMap_cons]

/-- A view of legs that is written in one way around their rows. -/
def FramesRows (explorer : Explorer) (view : List Leg → Node) : Prop :=
  ∃ opening closing, ∀ legs, (view legs).write = opening ++ rowsText explorer legs ++ closing

theorem framesRows_element {explorer : Explorer} {view : List Leg → Node}
    (h : FramesRows explorer view) (tag : String) (attributes : List Attribute)
    {before : List Node} (hbefore : ∀ node ∈ before, node.isText = false) :
    FramesRows explorer fun legs => .element tag attributes (before ++ [view legs]) := by
  obtain ⟨opening, closing, h⟩ := h
  have hall : ∀ legs, Node.writeAll false (before ++ [view legs]) =
      before.flatMap Node.write ++ (view legs).write := by
    intro legs
    induction before with
    | nil => simp [Node.writeAll]
    | cons node before ih =>
      rw [List.forall_mem_cons] at hbefore
      rw [List.cons_append, writeAll_cons hbefore.1, ih hbefore.2, List.flatMap_cons,
        List.append_assoc]
  refine ⟨startText tag attributes ++ before.flatMap Node.write ++ opening,
    closing ++ endText tag, fun legs => ?_⟩
  rw [write_element, hall, h]
  simp only [List.append_assoc]

theorem framesRows_rowList (explorer : Explorer) :
    FramesRows explorer fun legs => rowList ⟨explorer, ⟨legs⟩⟩ := by
  refine ⟨startText "ol" [⟨"style", "list-style: none; padding: 0;"⟩], Html.marker ++ endText "ol",
    fun legs => ?_⟩
  dsimp only [rowList]
  rw [write_element, writeAll_cons rfl, Node.write, writeAll_rows, Node.writeAll]
  simp only [List.append_nil, List.append_assoc]

theorem framesRows_titledSection {explorer : Explorer} {content : List Leg → Node}
    (h : FramesRows explorer content) (id title : String) :
    FramesRows explorer fun legs => titledSection id title (content legs) :=
  framesRows_element (framesRows_element h _ _ (List.forall_mem_nil _)) _ _
    (List.forall_mem_singleton.mpr (rfl : (blockTitle id title).isText = false))

/-- Around the rows, pages of as many legs are written alike. -/
theorem exists_frame (explorer : Explorer) (count : Nat) :
    ∃ opening closing : List Char, ∀ legs : List Leg, legs.length = count →
      (itineraryPage ⟨explorer, ⟨legs⟩⟩).write =
        opening ++ rowsText explorer legs ++ closing := by
  have hlegs := framesRows_titledSection (framesRows_rowList explorer) "legs"
    ("Legs (" ++ toString count ++ ")")
  obtain ⟨opening, closing, h⟩ := framesRows_element hlegs "main"
    [⟨"style", "max-width: 80ch; margin: 0 auto; padding: 2rem 1rem; font-family: monospace;"⟩]
    (List.forall_mem_singleton.mpr (rfl : (heading explorer).isText = false))
  refine ⟨opening, closing, ?_⟩
  rintro legs rfl
  exact h legs

/-! ## A line of which nothing is known -/

/-- What is written of a leg before its line. -/
def rowOpening (leg : Leg) : List Char :=
  startText "li"
      [⟨"style", "display: flex; gap: 0.75rem; align-items: center; margin-bottom: 0.5rem;"⟩] ++
    (Node.element "span" [⟨"style", "min-width: 8ch;"⟩] [.text leg.mode.label]).write

/-- What is written of it behind. -/
def rowClosing (leg : Leg) : List Char := (signView leg).write ++ endText "li"

theorem write_legRow (explorer : Explorer) (leg : Leg) :
    (legRow explorer leg).write =
      rowOpening leg ++ (lineView explorer leg).write ++ rowClosing leg := by
  rw [legRow, write_element, rowContent, writeAll_cons rfl,
    writeAll_cons (isText_lineView explorer leg), writeAll_cons (isText_signView leg), rowOpening,
    rowClosing]
  simp only [Node.writeAll, List.append_nil, List.append_assoc]

/-- A leg on a line of which nothing is known. -/
def onUnknownLine (leg : Leg) : Leg := { leg with line := some {} }

/-- What stands in the row of a leg without a line. -/
def dashText : List Char := "<span>—</span>".toList

/-- The link in the row of a leg on a line of which nothing is known. -/
def unknownLineText (explorer : Explorer) (leg : Leg) : List Char :=
  "<a href=\"".toList ++
    escapeValue (explorer.base ++ "&query=" ++ Text.Percent.encode Explorer.lineQuery ++
      "&variables=" ++ Text.Percent.encode "\x7b\"id\":null\x7d") ++
  "\" target=\"_blank\" rel=\"noreferrer\" title=\"".toList ++
    escapeValue ("Line undefined to " ++ leg.frontText.getD "undefined") ++
  "\" style=\"".toList ++
    escapeValue (Badge.styleOf (Colour.ofMode leg.mode)
      (Colour.textColour (Colour.ofMode leg.mode)) ++ ";") ++
  "\"> </a>".toList

theorem write_lineView_of_none (explorer : Explorer) {leg : Leg} (h : leg.line = none) :
    (lineView explorer leg).write = dashText := by
  have hdash : lineView explorer leg = .element "span" [] [.text "—"] := by
    rw [lineView, h]
    rfl
  rw [hdash]
  decide

theorem ofLeg_onUnknownLine (explorer : Explorer) (leg : Leg) :
    Badge.ofLeg explorer (onUnknownLine leg) =
      { href := explorer.base ++ "&query=" ++ Text.Percent.encode Explorer.lineQuery ++
          "&variables=" ++ Text.Percent.encode "\x7b\"id\":null\x7d"
        title := "Line undefined to " ++ leg.frontText.getD "undefined"
        label := ""
        style := Badge.styleOf (Colour.ofMode leg.mode)
          (Colour.textColour (Colour.ofMode leg.mode)) } := by
  have hvariables : Json.render (⟨none⟩ : LineQueryVariables) = "\x7b\"id\":null\x7d" := by decide
  have hid : (onUnknownLine leg).lineId = none := rfl
  have hcode : (onUnknownLine leg).publicCode = none := rfl
  have hsign : (onUnknownLine leg).frontText = leg.frontText := rfl
  have hcolour : Colour.ofLeg (onUnknownLine leg) = Colour.ofMode leg.mode := rfl
  rw [Badge.ofLeg, hid, hcode, hsign, hcolour, Explorer.lineUrl, Explorer.queryUrl, hvariables]
  rfl

theorem render_attribute {name : String} (h : name ≠ "style") (value : String) :
    Attribute.render ⟨name, value⟩ =
      ' ' :: name.toList ++ ['=', '"'] ++ escapeValue value ++ ['"'] := by
  rw [Attribute.render, if_neg h]

theorem render_style (value : String) :
    Attribute.render ⟨"style", value⟩ =
      " style=\"".toList ++ escapeValue (value ++ ";") ++ ['"'] := by
  have hopening : ' ' :: "style".toList ++ ['=', '"'] = " style=\"".toList := by decide
  rw [Attribute.render, if_pos rfl, ← hopening]

theorem write_view_of_noLabel (href title style : String) :
    (Badge.view ⟨href, title, "", style⟩).write =
      "<a href=\"".toList ++ escapeValue href ++
        "\" target=\"_blank\" rel=\"noreferrer\" title=\"".toList ++ escapeValue title ++
        "\" style=\"".toList ++ escapeValue (style ++ ";") ++ "\"> </a>".toList := by
  have hblank : escapeValue "_blank" = "_blank".toList := by decide
  have hrel : escapeValue "noreferrer" = "noreferrer".toList := by decide
  rw [Badge.view, write_element, startText, Badge.attributes]
  simp only [List.flatMap_cons, List.flatMap_nil, render_style,
    render_attribute (by decide : "href" ≠ "style"), hblank, hrel,
    render_attribute (by decide : "target" ≠ "style"),
    render_attribute (by decide : "rel" ≠ "style"),
    render_attribute (by decide : "title" ≠ "style")]
  simp [Node.writeAll, Node.write, Html.renderText, endText]

theorem write_lineView_onUnknownLine (explorer : Explorer) (leg : Leg) :
    (lineView explorer (onUnknownLine leg)).write = unknownLineText explorer leg := by
  have hview : lineView explorer (onUnknownLine leg) =
      (Badge.ofLeg explorer (onUnknownLine leg)).view := by
    have hline : (onUnknownLine leg).line.isSome = true := rfl
    rw [lineView, if_pos hline]
  rw [hview, ofLeg_onUnknownLine, write_view_of_noLabel]
  unfold unknownLineText
  rfl

/-- Among the rows of a page, an unknown line puts a link in the place of the dash of its leg. -/
theorem exists_page_around (explorer : Explorer) {leg : Leg} (h : leg.line = none)
    (before behind : List Leg) :
    ∃ opening closing,
      (itineraryPage ⟨explorer, ⟨before ++ leg :: behind⟩⟩).write =
        opening ++ rowsText explorer before ++ (rowOpening leg ++ dashText ++ rowClosing leg) ++
          rowsText explorer behind ++ closing ∧
      (itineraryPage ⟨explorer, ⟨before ++ onUnknownLine leg :: behind⟩⟩).write =
        opening ++ rowsText explorer before ++
          (rowOpening leg ++ unknownLineText explorer leg ++ rowClosing leg) ++
          rowsText explorer behind ++ closing := by
  obtain ⟨opening, closing, hpage⟩ := exists_frame explorer (before ++ leg :: behind).length
  have hrows : ∀ leg, rowsText explorer (before ++ leg :: behind) = rowsText explorer before ++
      (rowOpening leg ++ (lineView explorer leg).write ++ rowClosing leg) ++
        rowsText explorer behind := by
    intro leg
    rw [← write_legRow, rowsText, List.flatMap_append, List.flatMap_cons, List.append_assoc]
    rfl
  have hopening : rowOpening (onUnknownLine leg) = rowOpening leg := rfl
  have hclosing : rowClosing (onUnknownLine leg) = rowClosing leg := rfl
  have hlength : (before ++ onUnknownLine leg :: behind).length =
      (before ++ leg :: behind).length := by
    simp only [List.length_append, List.length_cons]
  refine ⟨opening, closing, ?_, ?_⟩
  · rw [hpage _ rfl, hrows, write_lineView_of_none explorer h]
    simp only [List.append_assoc]
  · rw [hpage _ hlength, hrows, write_lineView_onUnknownLine, hopening, hclosing]
    simp only [List.append_assoc]

end LegBoard.Board
