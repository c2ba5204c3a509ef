import LegBoard.Proofs.Settings.ConfigEdit
import LegBoard.Proofs.Settings.Environment

/-!
# Flag, then environment, then configuration file

Each setting is taken from the first of the three that gives it. What the others say does not
matter, and the files that they name are not looked at. One file can stand in two places, though: a
configuration file that is also read as the itinerary cannot be edited without a trace.
-/
namespace LegBoard.Settings

/-- What a run with some words in some environment is given, and what it no longer depends on. -/
structure Precedence (env : Args) (words : List String) (args : Args) : Prop where
  /-- The words come first. -/
  flag : ∀ flag value, Gives flag value words → args.get flag = some value
  /-- The environment comes next. -/
  environment : ∀ flag value, (∀ given, ¬Gives flag given words) → env.get flag = some value →
    args.get flag = some value
  /-- The environment does not matter for what the words give. -/
  unasked : ∀ flag env', (∃ given, Gives flag given words) → CommandLine.AgreeOff flag env env' →
    CommandLine.parse env' words = .ok args ∧
      ∀ files, (CommandLine.parse env' words).map (resolve files) = .ok (resolve files args)
  /-- The configuration file does not matter for a URL that is given. -/
  graphiqlUrl : ∀ url files files',
    Gives .graphiqlUrl url words ∨ env.get .graphiqlUrl = some url →
    Text.isAllBlank url = false → ConfigEdit "explorer" "graphiql_url" args files files' →
    resolve files' args = resolve files args
  /-- The configuration file does not matter for a path that is given. -/
  itinerary : ∀ path files files',
    Gives .itinerary path words ∨ env.get .itinerary = some path →
    ConfigEdit "itinerary" "path" args files files' → resolve files' args = resolve files args

theorem precedence_of_parse {env args : Args} {words : List String}
    (h : CommandLine.parse env words = .ok args) : Precedence env words args where
  flag _ _ hgives := CommandLine.get_of_gives h hgives
  environment _ _ hwords henv := CommandLine.get_of_environment h hwords henv
  unasked flag env' hgives hagree := by
    have hparse : CommandLine.parse env' words = .ok args := by
      rw [CommandLine.parse_agreeOff hagree hgives, h]
    refine ⟨hparse, fun files => ?_⟩
    rw [hparse]
    rfl
  graphiqlUrl url files files' hgiven _ hedit := by
    obtain ⟨url', hurl⟩ := CommandLine.exists_get h hgiven
    exact resolve_graphiqlUrlEdit hurl hedit
  itinerary path files files' hgiven hedit := by
    obtain ⟨path', hitinerary⟩ := CommandLine.exists_get h hgiven
    exact resolve_itineraryPathEdit hitinerary hedit

/-- A run with a URL on the command line and an itinerary from the environment. -/
theorem precedence_of_flag_and_environment :
    let words := ["--config=c.toml", "--graphiql-url", "http://otp.example"]
    let env : Args := { graphiqlUrl := some " ", itinerary := some "i.json" }
    let args : Args :=
      { config := some "c.toml", graphiqlUrl := some "http://otp.example",
        itinerary := some "i.json" }
    CommandLine.parse env words = .ok args ∧
    args.get .graphiqlUrl = some "http://otp.example" ∧
    args.get .itinerary = some "i.json" ∧
    CommandLine.parse { env with graphiqlUrl := none } words = .ok args ∧
    resolve (withItinerary "") args = resolve (withItinerary linkedConfig) args ∧
    resolve (withItinerary "") args =
      resolve (withItinerary "[itinerary]\npath = \"gone.json\"\n") args := by
  intro words env args
  have hparse : CommandLine.parse env words = .ok args := rfl
  obtain ⟨state, hread, hstate⟩ : ∃ state, CommandLine.readWords {} words = .ok state ∧
      state.args.itinerary = none := ⟨_, rfl, rfl⟩
  have hurl : Gives .graphiqlUrl "http://otp.example" words := .later .next
  have hwords : ∀ given, ¬Gives .itinerary given words := by
    intro given hgives
    have hget := (CommandLine.get_readWords_start hread .itinerary given).mpr hgives
    cases hstate.symm.trans hget
  have hagree : CommandLine.AgreeOff .graphiqlUrl env { env with graphiqlUrl := none } := by
    intro other hother
    cases other with
    | graphiqlUrl => exact absurd rfl hother
    | config => rfl
    | itinerary => rfl
  have hunlinked := textEdit_of_onlySection onlySection_linkedConfig onlySection_empty
  have hgone : OnlySection "itinerary" "path" "[itinerary]\npath = \"gone.json\"\n"
      (some "gone.json") := by decide +kernel
  have hempty : OnlySection "itinerary" "path" "" none := by decide +kernel
  have hunnamed := textEdit_of_onlySection hgone hempty
  have hrun := precedence_of_parse hparse
  exact ⟨hparse, hrun.flag _ _ hurl, hrun.environment _ _ hwords rfl,
    (hrun.unasked _ _ ⟨_, hurl⟩ hagree).1,
    hrun.graphiqlUrl _ _ _ (.inl hurl) (by decide) (configEdit_withItinerary hunlinked rfl rfl),
    hrun.itinerary _ _ _ (.inr rfl) (configEdit_withItinerary hunnamed rfl rfl)⟩

/-- A file that is both the configuration and the itinerary is no itinerary, for a reason that
depends on what it holds. -/
theorem resolve_sharedFile {text : String} {file : ConfigFile}
    (hparse : ConfigFile.parse? text = some file) {fault : Json.Fault}
    (hfault : Json.parse Transit.Itinerary text = .error fault) (url : Option String) :
    (resolve (configOnly text) ⟨some "c.toml", url, some "c.toml"⟩).result =
      .error (.badItinerary "c.toml" fault) := by
  have hfile := fileHolds_configOnly text
  have hconfig : ConfigAt (configOnly text) (some "c.toml") file := ⟨text, hfile, hparse⟩
  have hload : loadItinerary (configOnly text) (some "c.toml") =
      .error (.badItinerary "c.toml" fault) := by
    rw [loadItinerary_of_fileHolds hfile, parseItinerary, hfault]
  rw [resolve_of_config hconfig, resolution_result]
  exact congrArg _ hload

/-- It does matter that the configuration file is not the itinerary. Where it is both, the cause of
the error tells what stands in it. -/
theorem not_resolve_of_graphiqlUrlEdit :
    ¬∀ (env args : Args) (words : List String) (url text text' : String),
      CommandLine.parse env words = .ok args →
      Gives .graphiqlUrl url words ∨ env.get .graphiqlUrl = some url →
      Text.isAllBlank url = false → args.config = some "c.toml" →
      TextEdit "explorer" "graphiql_url" text text' →
      resolve (configOnly text') args = resolve (configOnly text) args := by
  intro h
  have hedit := textEdit_of_onlySection onlySection_linkedConfig onlySection_empty
  have hsame := h {} ⟨some "c.toml", some "http://x", some "c.toml"⟩
    ["--config=c.toml", "--graphiql-url=http://x", "--itinerary=c.toml"] "http://x" _ _ rfl
    (.inl (.later .joined)) (by decide) rfl hedit
  have hlinked : ConfigFile.parse? linkedConfig =
      some { graphiqlUrl := some "http://otp.example/graphiql" } := by decide +kernel
  have hempty : ConfigFile.parse? "" = some {} := by decide +kernel
  have hmalformed : Json.parse Transit.Itinerary linkedConfig =
      .error ⟨.expectedValue, ⟨1, 2⟩⟩ := rfl
  have hended : Json.parse Transit.Itinerary "" = .error ⟨.endInValue, ⟨1, 0⟩⟩ := rfl
  have hresult := congrArg Resolution.result hsame
  rw [resolve_sharedFile hempty hended, resolve_sharedFile hlinked hmalformed] at hresult
  cases hresult

end LegBoard.Settings
