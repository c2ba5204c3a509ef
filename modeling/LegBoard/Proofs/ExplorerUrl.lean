import LegBoard.Proofs.Formats
import LegBoard.Proofs.Text.PercentDecoding

/-!
# Explorer URLs are read back

A reader of URLs cuts at every ampersand and percent-decodes what follows the
names of the parameters. It finds the parts of the base first, whatever those
are, and behind them exactly the query and the variables. So a base may carry a
parameter of the same name without hiding either, and a URL determines its
base, its query and its line. Whether the base leads anywhere is not asked.
-/
namespace LegBoard.Explorer

open LegBoard.Json (parse render)
open LegBoard.Text.Percent (encode decode? decodeForm?)

/-- The parts of a URL between its ampersands. -/
def urlParts (url : String) : List String := (url.toList.splitOn '&').map String.ofList

theorem urlParts_append_ampersand (front : String) {back : String} (h : '&' ∉ back.toList) :
    urlParts (front ++ "&" ++ back) = urlParts front ++ [back] := by
  have hlist : (front ++ "&" ++ back).toList = front.toList ++ '&' :: back.toList := by
    rw [String.toList_append, String.toList_append, List.append_assoc]
    rfl
  rw [urlParts, hlist, List.splitOn_append_cons_self, List.splitOn_eq_singleton h,
    List.map_append, List.map_singleton, String.ofList_toList]
  rfl

/-- A parameter as it stands in a URL. -/
def parameter (name value : String) : String := name ++ "=" ++ encode value

theorem not_mem_parameter {name : String} (h : '&' ∉ name.toList) (value : String) :
    '&' ∉ (parameter name value).toList := by
  have hvalue := Text.Percent.not_mem_encode (c := '&') (by decide) (by decide) value
  rw [parameter, String.toList_append, String.toList_append, List.mem_append, List.mem_append]
  rintro ((hname | heq) | hmem)
  · exact h hname
  · exact absurd heq (by decide)
  · exact hvalue hmem

theorem queryUrl_eq (explorer : Explorer) (query : String) (lineId : Option String) :
    explorer.queryUrl query lineId =
      explorer.base ++ "&" ++ parameter "query" query ++ "&" ++
        parameter "variables" (render (⟨lineId⟩ : LineQueryVariables)) := by
  have hquery : "&query=" = "&" ++ ("query" ++ "=") := rfl
  have hvariables : "&variables=" = "&" ++ ("variables" ++ "=") := rfl
  simp only [queryUrl, parameter, hquery, hvariables, String.append_assoc]

theorem urlParts_queryUrl (explorer : Explorer) (query : String) (lineId : Option String) :
    urlParts (explorer.queryUrl query lineId) =
      urlParts explorer.base ++ [parameter "query" query,
        parameter "variables" (render (⟨lineId⟩ : LineQueryVariables))] := by
  rw [queryUrl_eq, urlParts_append_ampersand _ (not_mem_parameter (by decide) _),
    urlParts_append_ampersand _ (not_mem_parameter (by decide) _), List.append_assoc,
    List.singleton_append]

theorem parameter_injective {name s t : String} (h : parameter name s = parameter name t) :
    s = t := by
  rw [parameter, parameter, String.append_right_inj] at h
  exact Text.Percent.encode_injective h

theorem queryUrl_injective {explorer explorer' : Explorer} {query query' : String}
    {lineId lineId' : Option String}
    (h : explorer.queryUrl query lineId = explorer'.queryUrl query' lineId') :
    explorer.base = explorer'.base ∧ query = query' ∧ lineId = lineId' := by
  have hparts := congrArg urlParts h
  rw [urlParts_queryUrl, urlParts_queryUrl] at hparts
  obtain ⟨-, htail⟩ := List.append_inj' hparts (by simp only [List.length_cons])
  obtain ⟨hquery, hvariables⟩ := List.cons.inj htail
  have hq := parameter_injective hquery
  have hv := Json.render_injective (parameter_injective (List.cons.inj hvariables).1)
  obtain rfl := hq
  obtain rfl := LineQueryVariables.mk.inj hv
  simp only [queryUrl_eq, String.append_left_inj] at h
  exact ⟨h, rfl, rfl⟩

/-- A URL that opens an explorer with the line query and a line. Behind the base stand two parts,
and a reader that cuts them out and decodes them finds the query and the variables of the line. -/
def LooksUp (explorer : Explorer) (lineId : Option String) (url : String) : Prop :=
  ∃ query binding text : String,
    url = explorer.base ++ "&query=" ++ query ++ "&variables=" ++ binding ∧
    '&' ∉ query.toList ∧ '&' ∉ binding.toList ∧
    decode? query = some lineQuery ∧
    decode? binding = some text ∧ parse LineQueryVariables text = .ok ⟨lineId⟩

theorem looksUp_lineUrl (explorer : Explorer) (lineId : Option String) :
    explorer.LooksUp lineId (explorer.lineUrl lineId) := by
  refine ⟨encode lineQuery, encode (render (⟨lineId⟩ : LineQueryVariables)), render
    (⟨lineId⟩ : LineQueryVariables), rfl, ?_, ?_, Text.Percent.decode?_encode _,
    Text.Percent.decode?_encode _, Json.parse_render _⟩
  · exact Text.Percent.not_mem_encode (by decide) (by decide) lineQuery
  · exact Text.Percent.not_mem_encode (by decide) (by decide) _

/-- What a URL was built from can be read off it. The parts behind those of the base are a query
and its variables, both kinds of decoders give back the document and the variables as they were
written, the variables hold the line, and no other base, document or line has the same URL. -/
theorem queryUrl_readBack (explorer : Explorer) (query : String) (lineId : Option String) :
    (∃ q v : String,
      urlParts (explorer.queryUrl query lineId) =
        urlParts explorer.base ++ ["query=" ++ q, "variables=" ++ v] ∧
      decode? q = some query ∧ decodeForm? q = some query ∧
      decode? v = some (render (⟨lineId⟩ : LineQueryVariables)) ∧
      decodeForm? v = some (render (⟨lineId⟩ : LineQueryVariables))) ∧
    parse LineQueryVariables (render (⟨lineId⟩ : LineQueryVariables)) = .ok ⟨lineId⟩ ∧
    ∀ (explorer' : Explorer) (query' : String) (lineId' : Option String),
      explorer.queryUrl query lineId = explorer'.queryUrl query' lineId' ↔
        explorer.base = explorer'.base ∧ query = query' ∧ lineId = lineId' := by
  refine ⟨⟨encode query, encode (render (⟨lineId⟩ : LineQueryVariables)), ?_,
    Text.Percent.decode?_encode _, Text.Percent.decodeForm?_encode _,
    Text.Percent.decode?_encode _, Text.Percent.decodeForm?_encode _⟩, Json.parse_render _, ?_⟩
  · exact urlParts_queryUrl explorer query lineId
  · intro explorer' query' lineId'
    constructor
    · exact queryUrl_injective
    · rintro ⟨hbase, rfl, rfl⟩
      rw [queryUrl, queryUrl, hbase]

end LegBoard.Explorer
