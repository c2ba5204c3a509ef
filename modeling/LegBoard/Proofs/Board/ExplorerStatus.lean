import LegBoard.Proofs.Board.PageLinks
import LegBoard.Proofs.Fallible
import LegBoard.Proofs.Settings.BlankUrl

/-!
# Log, settings and page agree on the explorer

Whether there is an explorer is asked in several places and in several ways: a URL is kept if it is
not blank, an explorer is configured if its base is not empty, the log goes by that, and so does the
heading of the page. The answers are the same for settings that a run was given, because a blank URL
is never kept. For settings made in any other way nothing is claimed.
-/
namespace LegBoard

open Settings (Args Event Level resolve explorerOf explorerEvent)
open Html (Node Token document startTags valuesOf blocks unescape)
open Board (itineraryPage heading externalLink explorerLink)
open Transit (Leg)

/-! ## Settings and log -/

/-- The URL that an event tells of. -/
def Settings.Event.url? : Event → Option String
  | .linksEnabled url => some url
  | _ => none

namespace Settings

/-- A URL is kept if some character of it is not blank, and otherwise there is none. -/
theorem explorerOf_cases (url? : Option String) :
    explorerOf url? = {} ∨
      ∃ url, explorerOf url? = ⟨some url⟩ ∧ ∃ c ∈ url.toList, Text.isBlank c = false := by
  cases url? with
  | none => exact .inl rfl
  | some url =>
    by_cases hblank : Text.isAllBlank url = true
    · exact .inl (explorerOf_blank hblank)
    · have hkept : explorerOf (some url) = ⟨some url⟩ := by
        unfold explorerOf
        rw [Option.filter_some_pos (by simpa using hblank)]
      rw [Bool.not_eq_true] at hblank
      obtain ⟨c, hc, hplain⟩ := List.all_eq_false.mp hblank
      exact .inr ⟨url, hkept, c, hc, Bool.eq_false_iff.mpr hplain⟩

theorem isConfigured_of_mem {explorer : Explorer} {c : Char} (h : c ∈ explorer.base.toList) :
    explorer.isConfigured = true := by
  have hne : explorer.base ≠ "" := by
    intro hempty
    rw [hempty] at h
    cases h
  exact decide_eq_true hne

theorem isSome_url_explorerOf (url? : Option String) :
    (explorerOf url?).url.isSome = true ↔ (explorerOf url?).isConfigured = true := by
  rcases explorerOf_cases url? with hnone | ⟨url, hsome, c, hc, -⟩
  · rw [hnone]
    decide
  · rw [hsome]
    exact iff_of_true rfl (isConfigured_of_mem hc)

/-- No base is made of blanks alone, so one that is not empty has some other character. -/
theorem not_blank_base_explorerOf (url? : Option String) :
    (∃ c ∈ (explorerOf url?).base.toList, Text.isBlank c = false) ↔
      (explorerOf url?).isConfigured = true := by
  constructor
  · rintro ⟨c, hc, -⟩
    exact isConfigured_of_mem hc
  · intro hconfigured
    rcases explorerOf_cases url? with hnone | ⟨url, hsome, c, hc, hplain⟩
    · rw [hnone] at hconfigured
      cases hconfigured
    · rw [hsome]
      exact ⟨c, hc, hplain⟩

/-- The event of an explorer names its base, or else it is a warning. -/
theorem explorerEvent_iff (explorer : Explorer) :
    ((explorerEvent explorer).level = .info ∧
      (explorerEvent explorer).url? = some explorer.base ↔ explorer.isConfigured = true) ∧
    ((explorerEvent explorer).level = .warn ↔ explorer.isConfigured = false) := by
  by_cases hconfigured : explorer.isConfigured = true
  · have hevent : explorerEvent explorer = .linksEnabled explorer.base := if_pos hconfigured
    rw [hevent, hconfigured]
    exact ⟨iff_of_true ⟨rfl, rfl⟩ rfl, iff_of_false Level.noConfusion Bool.noConfusion⟩
  · have hevent : explorerEvent explorer = .linksDisabled := if_neg hconfigured
    rw [Bool.not_eq_true] at hconfigured
    rw [hevent, hconfigured]
    exact ⟨iff_of_false (fun h => Level.noConfusion h.1) Bool.noConfusion, iff_of_true rfl rfl⟩

/-- The settings that a run was given have an explorer made from some URL or none, and the first
event tells of it. -/
theorem explorer_of_resolve {files : Files} {args : Args} {settings : Settings}
    (h : (resolve files args).result = .ok settings) :
    (∃ url?, settings.explorer = explorerOf url?) ∧
      (resolve files args).log.head? = some (explorerEvent settings.explorer) := by
  rw [resolve_eq] at h ⊢
  cases hconfig : loadConfig files args.config with
  | error e =>
    rw [hconfig] at h
    cases h
  | ok file =>
    rw [hconfig] at h
    dsimp only at h ⊢
    rw [resolution_result] at h
    obtain ⟨itinerary, -, rfl⟩ := ok_of_map h
    exact ⟨⟨_, rfl⟩, resolution_log_head ..⟩

end Settings

/-! ## Page -/

namespace Board

/-- The attributes of the link of a heading, as they are written. -/
def externalAttributes (href : String) : List Html.Attribute :=
  [⟨"href", href⟩, ⟨"target", "_blank"⟩, ⟨"rel", "noreferrer"⟩,
    ⟨"style", "padding: 3px 8px; border: 1px dashed #999; text-decoration: none; " ++
      "display: inline-block;"⟩].map Html.Attribute.written

theorem startTags_externalLink (href label : String) :
    startTags "a" (externalLink href label).tokens = [externalAttributes href] := by
  rw [externalLink, Node.startTags_element_self, List.flatMap_cons, Node.startTags_text]
  rfl

theorem document_externalLink (href label : String) :
    document (externalLink href label).render = (externalLink href label).tokens :=
  Node.document_render (isPlain_externalLink href label)

/-- Where the links of a stretch lead, with the references in their addresses undone. -/
def targets (ts : List Token) : List String :=
  (startTags "a" ts).flatMap fun attributes =>
    (valuesOf "href" attributes).map fun href => String.ofList (unescape href.toList)

theorem targets_of_written {ts : List Token} {attributes : List Html.Attribute} {href : String}
    (htag : startTags "a" ts = [attributes])
    (hhref : valuesOf "href" attributes = [String.ofList (Html.escapeValue href)]) :
    targets ts = [href] := by
  have hread : String.ofList (unescape (String.ofList (Html.escapeValue href)).toList) = href := by
    rw [String.toList_ofList, Html.unescape_escapeValue, String.ofList_toList]
  rw [targets, htag, List.flatMap_singleton, hhref, List.map_singleton, hread]

/-- The heading has the anchors of its link, which is absent without an explorer. -/
theorem anchors_heading (explorer : Explorer) :
    startTags "a" (heading explorer).tokens =
      if explorer.isConfigured then [externalAttributes explorer.base] else [] := by
  have hlink : startTags "a" (heading explorer).tokens =
      startTags "a" (explorerLink explorer).tokens := by
    simp [heading]
  rw [hlink, explorerLink]
  split
  · exact startTags_externalLink ..
  · rfl

theorem anchorBlocks_heading {explorer : Explorer} (h : explorer.isConfigured = true) :
    blocks "a" (heading explorer).tokens = [(externalLink explorer.base "GraphiQL").tokens] := by
  have hlink : explorerLink explorer = externalLink explorer.base "GraphiQL" := if_pos h
  have hparts : heading explorer = .element "header" [⟨"style", "margin-bottom: 2rem;"⟩]
      ([.element "h1" [] [.text "Itinerary"]] ++ [externalLink explorer.base "GraphiQL"]) := by
    rw [heading, hlink]
    rfl
  have htitle : ([Node.element "h1" [] [.text "Itinerary"]].flatMap fun n =>
      startTags "a" n.tokens) = [] := by
    simp
  have hinner : startTags "a" (Node.tokensAll false [.text "GraphiQL", .text " ↗"]) = [] := by
    simp [Node.startTags_tokensAll]
  -- The title has no anchor, so what is left to look at is the link alone.
  rw [← List.append_nil (heading explorer).tokens, hparts,
    Node.blocks_last (by decide) _ htitle _ rfl]
  exact Node.blocks_element hinner _

theorem headers_legRow (explorer : Explorer) (leg : Leg) :
    startTags "header" (legRow explorer leg).tokens = [] := by
  simp [legRow, rowContent, startTags_lineView, startTags_signView]

theorem headers_section (settings : Settings) (id title : String) :
    startTags "header" (titledSection id title (rowList settings)).tokens = [] := by
  have hrows : startTags "header" (rowList settings).tokens = [] := by
    rw [startTags_rowList (by decide)]
    simp [headers_legRow]
  simp [titledSection, blockTitle, hrows]

/-- The page has one header, which is its heading. -/
theorem headerBlocks_itineraryPage (settings : Settings) :
    blocks "header" (itineraryPage settings).tokens = [(heading settings.explorer).tokens] := by
  have hinner : startTags "header" (Node.tokensAll false
      [.element "h1" [] [.text "Itinerary"], explorerLink settings.explorer]) = [] := by
    simp [Node.startTags_tokensAll, startTags_explorerLink]
  have hsection : ([titledSection "legs"
      ("Legs (" ++ toString settings.itinerary.legs.length ++ ")")
      (rowList settings)].flatMap fun n => startTags "header" n.tokens) = [] := by
    rw [List.flatMap_singleton, headers_section]
  exact Node.blocks_first (by decide) hinner hsection

theorem targets_heading {explorer : Explorer} (h : explorer.isConfigured = true) :
    targets (heading explorer).tokens = [explorer.base] := by
  apply targets_of_written
  · rw [anchors_heading, if_pos h]
  · simp [valuesOf, externalAttributes, Html.Attribute.written]

theorem targets_legRow (explorer : Explorer) {leg : Leg} (h : leg.line.isSome = true) :
    targets (legRow explorer leg).tokens = [explorer.lineUrl leg.lineId] := by
  apply targets_of_written
  · rw [anchors_legRow, if_pos h]
  · exact href_attributes (Badge.ofLeg explorer leg)

/-! ## Agreement -/

/-- What a run that came to settings has logged of the explorer, what the settings hold of it and
what the page shows of it, each told apart by whether an explorer is configured. -/
structure ExplorerAgreement (log : List Event) (settings : Settings) : Prop where
  url : settings.explorer.url.isSome = true ↔ settings.explorer.isConfigured = true
  base : (∃ c ∈ settings.explorer.base.toList, Text.isBlank c = false) ↔
    settings.explorer.isConfigured = true
  /-- The first event names the base, or else warns. -/
  event : ∃ event, log.head? = some event ∧
    (event.level = .info ∧ event.url? = some settings.explorer.base ↔
      settings.explorer.isConfigured = true) ∧
    (event.level = .warn ↔ settings.explorer.isConfigured = false)
  /-- The one header of the page has the one link that leaves the page, or else none at all. -/
  header : ∃ header, blocks "header" (document (itineraryPage settings).render) = [header] ∧
    (blocks "a" header = [document (externalLink settings.explorer.base "GraphiQL").render] ∧
      targets header = [settings.explorer.base] ↔ settings.explorer.isConfigured = true) ∧
    (startTags "a" header = [] ↔ settings.explorer.isConfigured = false)
  /-- Configured or not, a line is looked up behind the base. -/
  lines : ∀ (i : Nat) (leg : Leg), settings.itinerary.legs[i]? = some leg →
    leg.line.isSome = true → ∃ row rest,
      (blocks "li" (document (itineraryPage settings).render))[i]? = some row ∧
      targets row = [settings.explorer.base ++ "&query=" ++ rest]

theorem header_itineraryPage (settings : Settings) :
    ∃ header, blocks "header" (document (itineraryPage settings).render) = [header] ∧
      (blocks "a" header = [document (externalLink settings.explorer.base "GraphiQL").render] ∧
        targets header = [settings.explorer.base] ↔ settings.explorer.isConfigured = true) ∧
      (startTags "a" header = [] ↔ settings.explorer.isConfigured = false) := by
  refine ⟨(heading settings.explorer).tokens, ?_, ?_, ?_⟩
  · rw [document_itineraryPage, headerBlocks_itineraryPage]
  · constructor
    · rintro ⟨-, htarget⟩
      by_cases hconfigured : settings.explorer.isConfigured = true
      · exact hconfigured
      · rw [targets, anchors_heading, if_neg hconfigured] at htarget
        cases htarget
    · intro hconfigured
      rw [document_externalLink]
      exact ⟨anchorBlocks_heading hconfigured, targets_heading hconfigured⟩
  · rw [anchors_heading]
    cases settings.explorer.isConfigured with
    | true => exact iff_of_false (List.cons_ne_nil _ _) Bool.noConfusion
    | false => exact iff_of_true rfl rfl

theorem lines_itineraryPage (settings : Settings) {i : Nat} {leg : Leg}
    (hleg : settings.itinerary.legs[i]? = some leg) (hline : leg.line.isSome = true) :
    ∃ row rest, (blocks "li" (document (itineraryPage settings).render))[i]? = some row ∧
      targets row = [settings.explorer.base ++ "&query=" ++ rest] := by
  have htarget : targets (legRow settings.explorer leg).tokens = [settings.explorer.base ++
      "&query=" ++ (Text.Percent.encode Explorer.lineQuery ++ ("&variables=" ++
        Text.Percent.encode (Json.render (⟨leg.lineId⟩ : LineQueryVariables))))] := by
    rw [targets_legRow _ hline, Explorer.lineUrl, Explorer.queryUrl, String.append_assoc,
      String.append_assoc]
  refine ⟨(legRow settings.explorer leg).tokens, _, ?_, htarget⟩
  rw [document_itineraryPage, blocks_itineraryPage, List.getElem?_map, hleg]
  rfl

/-- In a run that comes to settings, the log, the settings and the page agree on whether there is
an explorer. -/
theorem explorerAgreement_of_resolve {files : Files} {args : Args} {settings : Settings}
    (h : (resolve files args).result = .ok settings) :
    ExplorerAgreement (resolve files args).log settings := by
  obtain ⟨⟨url?, hexplorer⟩, hhead⟩ := Settings.explorer_of_resolve h
  refine ⟨?_, ?_, ?_, ?_, ?_⟩
  · rw [hexplorer]
    exact Settings.isSome_url_explorerOf url?
  · rw [hexplorer]
    exact Settings.not_blank_base_explorerOf url?
  · exact ⟨_, hhead, Settings.explorerEvent_iff settings.explorer⟩
  · exact header_itineraryPage settings
  · intro i leg hleg hline
    exact lines_itineraryPage settings hleg hline

/-- A base with marks of the markup in it is linked as it is. A URL of one wide blank is none. -/
theorem explorerAgreement_of_urls :
    ∃ linked plain : Settings,
      (resolve {} { graphiqlUrl := some "otp?a=\"<b>&c" }).result = .ok linked ∧
      linked.explorer.base = "otp?a=\"<b>&c" ∧ linked.explorer.isConfigured = true ∧
      ExplorerAgreement (resolve {} { graphiqlUrl := some "otp?a=\"<b>&c" }).log linked ∧
      (resolve {} { graphiqlUrl := some "\u3000" }).result = .ok plain ∧
      plain.explorer.isConfigured = false ∧
      ExplorerAgreement (resolve {} { graphiqlUrl := some "\u3000" }).log plain := by
  have hsample : ∀ url, (resolve {} { graphiqlUrl := some url }).result =
      .ok ⟨explorerOf (some url), Transit.Itinerary.sample⟩ := by
    intro url
    rw [Settings.resolve_of_noFiles rfl rfl]
  refine ⟨_, _, hsample _, by decide, by decide, ?_, hsample _, by decide, ?_⟩
  · exact explorerAgreement_of_resolve (hsample _)
  · exact explorerAgreement_of_resolve (hsample _)

end Board

end LegBoard
