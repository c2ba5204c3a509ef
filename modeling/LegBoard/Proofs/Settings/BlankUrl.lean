import LegBoard.Proofs.Settings.Outcome

/-!
# Blank explorer URLs

A blank URL leads nowhere, from wherever it was taken. But it is taken before it is looked at: a
blank one given directly still comes before the one of the configuration file, so that one is lost.
What is lost are the links and what is logged of them, nothing else.
-/
namespace LegBoard.Settings

/-- The same event, had there been no links. -/
def Event.unlinked : Event → Event
  | .linksEnabled _ => .linksDisabled
  | event => event

/-- The same outcome, had there been no links. -/
def Resolution.unlinked (r : Resolution) : Resolution where
  log := r.log.map Event.unlinked
  result := r.result.map fun settings => { settings with explorer := {} }

theorem explorerOf_blank {url : String} (h : Text.isAllBlank url = true) :
    explorerOf (some url) = {} := by
  unfold explorerOf
  rw [Option.filter_some_neg (by rw [h]; decide)]

/-- A URL that is not blank leads somewhere. -/
theorem explorerEvent_explorerOf {url : String} (h : Text.isAllBlank url = false) :
    explorerEvent (explorerOf (some url)) = .linksEnabled url := by
  have hurl : explorerOf (some url) = ⟨some url⟩ := by
    unfold explorerOf
    rw [Option.filter_some_pos (by rw [h]; rfl)]
  have hne : url ≠ "" := by
    rintro rfl
    cases h
  rw [hurl]
  exact if_pos (decide_eq_true hne)

theorem explorerEvent_unlinked (explorer : Explorer) :
    (explorerEvent explorer).unlinked = .linksDisabled := by
  unfold explorerEvent
  split <;> rfl

theorem itineraryEvent_unlinked (path? : Option String) (itinerary : Transit.Itinerary) :
    (itineraryEvent path? itinerary).unlinked = itineraryEvent path? itinerary := by
  cases path? <;> rfl

theorem resolution_unlinked (files : Files) (explorer : Explorer) (path? : Option String) :
    (resolution files explorer path?).unlinked = resolution files {} path? := by
  unfold resolution
  cases loadItinerary files path? with
  | error e =>
    simp only [Resolution.unlinked, List.map_cons, explorerEvent_unlinked]
    rfl
  | ok itinerary =>
    simp only [Resolution.unlinked, List.map_cons, explorerEvent_unlinked,
      itineraryEvent_unlinked]
    rfl

/-- The first event tells where links lead. -/
theorem resolution_log_head (files : Files) (explorer : Explorer) (path? : Option String) :
    (resolution files explorer path?).log.head? = some (explorerEvent explorer) := by
  unfold resolution
  cases loadItinerary files path? <;> rfl

/-- With a blank URL given directly, a run comes to what it comes to without it, except that there
are no links. So the two are the same exactly if the configuration file has no URL to be lost. -/
theorem resolve_blankUrl {url : String} (h : Text.isAllBlank url = true) (files : Files)
    (args : Args) :
    resolve files { args with graphiqlUrl := some url } =
      (resolve files { args with graphiqlUrl := none }).unlinked ∧
    (resolve files { args with graphiqlUrl := some url } =
      resolve files { args with graphiqlUrl := none } ↔
        ∀ file url', ConfigAt files args.config file → file.graphiqlUrl = some url' →
          Text.isAllBlank url' = true) := by
  have hblank : ∀ file, explorerFrom { args with graphiqlUrl := some url } file = {} :=
    fun _ => explorerOf_blank h
  rw [resolve_eq, resolve_eq]
  dsimp only
  cases hconfig : loadConfig files args.config with
  | error e =>
    refine ⟨rfl, iff_of_true rfl fun file _ hfile => ?_⟩
    rw [loadConfig_eq_ok_iff.mpr hfile] at hconfig
    cases hconfig
  | ok file =>
    have hpath : itineraryPath { args with graphiqlUrl := some url } file =
        itineraryPath { args with graphiqlUrl := none } file := rfl
    dsimp only
    rw [hblank, hpath]
    refine ⟨(resolution_unlinked ..).symm, ?_, ?_⟩
    · intro heq file' url' hfile' hurl'
      cases hconfig.symm.trans (loadConfig_eq_ok_iff.mpr hfile')
      cases hurl : Text.isAllBlank url' with
      | true => rfl
      | false =>
        have hhead := congrArg (fun r => r.log.head?) heq
        have hlinks : explorerEvent (explorerFrom { args with graphiqlUrl := none } file) =
            .linksEnabled url' := by
          unfold explorerFrom
          rw [hurl']
          exact explorerEvent_explorerOf hurl
        rw [resolution_log_head, resolution_log_head, hlinks] at hhead
        cases hhead
    · intro hlost
      have hnone : explorerFrom { args with graphiqlUrl := none } file = {} := by
        unfold explorerFrom
        cases hurl : file.graphiqlUrl with
        | none => rfl
        | some url' =>
          exact explorerOf_blank (hlost file url' (loadConfig_eq_ok_iff.mp hconfig) hurl)
      rw [hnone]

/-- A tree with one file, named `c.toml`. -/
def configOnly (text : String) : Files := ({} : Files).addFile "c.toml" text.toUTF8

theorem fileHolds_configOnly (text : String) : FileHolds (configOnly text) "c.toml" text :=
  fileHolds_of_readBytes rfl

/-- A configuration file with a URL. -/
def linkedConfig : String := "[explorer]\ngraphiql_url = \"http://otp.example/graphiql\"\n"

theorem configAt_linkedConfig :
    ConfigAt (configOnly linkedConfig) (some "c.toml")
      { graphiqlUrl := some "http://otp.example/graphiql" } :=
  ⟨linkedConfig, fileHolds_configOnly linkedConfig, by decide +kernel⟩

/-- A single space loses the links of the configuration file. -/
theorem blankUrl_loses_links :
    Text.isAllBlank " " = true ∧
    resolve (configOnly linkedConfig) { config := some "c.toml", graphiqlUrl := some " " } =
      (resolve (configOnly linkedConfig) { config := some "c.toml" }).unlinked ∧
    resolve (configOnly linkedConfig) { config := some "c.toml", graphiqlUrl := some " " } ≠
      resolve (configOnly linkedConfig) { config := some "c.toml" } := by
  have hblank : Text.isAllBlank " " = true := by decide
  obtain ⟨hunlinked, hsame⟩ := resolve_blankUrl hblank (configOnly linkedConfig)
    { config := some "c.toml" }
  refine ⟨hblank, hunlinked, fun h => ?_⟩
  have hurl := hsame.mp h _ _ configAt_linkedConfig rfl
  exact absurd hurl (by decide)

/-- A blank URL does not always count as missing. -/
theorem not_blankUrl_counts_as_missing :
    ¬∀ (files : Files) (args : Args) (url : String), Text.isAllBlank url = true →
      resolve files { args with graphiqlUrl := some url } =
        resolve files { args with graphiqlUrl := none } := by
  intro h
  have hsame := h (configOnly linkedConfig) { config := some "c.toml" } " " (by decide)
  have hhead := congrArg (fun r => r.log.head?) hsame
  dsimp only at hhead
  rw [resolve_of_config configAt_linkedConfig, resolve_of_config configAt_linkedConfig,
    resolution_log_head, resolution_log_head] at hhead
  revert hhead
  decide

end LegBoard.Settings
