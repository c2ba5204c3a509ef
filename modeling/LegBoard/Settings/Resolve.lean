import LegBoard.Files
import LegBoard.Settings.Basic
import LegBoard.Settings.ConfigFile
import LegBoard.Text.Blank
import LegBoard.Transit.Sample

/-!
From what a run is given to what the page shows. Values given directly come before those of the
configuration file, and an itinerary that nothing names is the sample. Every step that is worth
knowing is logged.
-/
namespace LegBoard.Settings

open LegBoard.Transit (Itinerary)

/-- What a run is given, on its command line or by its environment. Paths are texts: one that is
not UTF-8, which a message could not show as it is, is left out. -/
structure Args where
  config : Option String := none
  graphiqlUrl : Option String := none
  itinerary : Option String := none
deriving DecidableEq, Repr, Inhabited

/-- What is logged while the settings are made. -/
inductive Event where
  | linksEnabled (url : String)
  | linksDisabled
  | itineraryLoaded (path : String) (legs : Nat)
  | sampleUsed (legs : Nat)
deriving DecidableEq, Repr

inductive Level where
  | info
  | warn
deriving DecidableEq, Repr

namespace Event

def level : Event → Level
  | .linksDisabled => .warn
  | _ => .info

def message : Event → String
  | .linksEnabled _ => "GraphiQL links enabled"
  | .linksDisabled =>
    "No GraphiQL URL configured (set GRAPHIQL_URL); line links will not resolve"
  | .itineraryLoaded .. => "Loaded itinerary"
  | .sampleUsed _ => "Using bundled sample itinerary"

end Event

/-- A file that a run reads. -/
inductive Source where
  | config
  | itinerary
deriving DecidableEq, Repr

/-- How a file is called in a message. -/
def Source.label : Source → String
  | .config => "config"
  | .itinerary => "itinerary"

/-- Why there are no settings. -/
inductive ResolveError where
  | unreadable (source : Source) (path : String) (cause : ReadError)
  | badConfig (path : String)
  /-- The itinerary at a path, or the sample if there is no path, is not one. -/
  | badItinerary (path : Option String) (fault : Json.Fault)
deriving DecidableEq, Repr

/-- The wording of an error, without its cause. -/
def ResolveError.message : ResolveError → String
  | .unreadable source path _ => "Failed to read " ++ source.label ++ ": " ++ path
  | .badConfig path => "Failed to parse config: " ++ path
  | .badItinerary (some path) _ => "Failed to parse itinerary: " ++ path
  | .badItinerary none _ => "Failed to parse bundled sample itinerary"

/-- Settings or the reason why there are none, and what was logged on the way. -/
structure Resolution where
  log : List Event
  result : Except ResolveError Settings

/-- The explorer at a URL. A blank URL counts as none. -/
def explorerOf (url : Option String) : Explorer :=
  ⟨url.filter fun url => !Text.isAllBlank url⟩

/-- The event that tells whether links lead somewhere. -/
def explorerEvent (explorer : Explorer) : Event :=
  if explorer.isConfigured then .linksEnabled explorer.base else .linksDisabled

/-- The configuration file at a path, from what reading it gave. -/
def configOf (path : String) (content : Except ReadError String) :
    Except ResolveError ConfigFile :=
  match content with
  | .error cause => .error (.unreadable .config path cause)
  | .ok text =>
    match ConfigFile.parse? text with
    | none => .error (.badConfig path)
    | some file => .ok file

/-- The itinerary at a path, from what reading it gave. -/
def itineraryOf (path : String) (content : Except ReadError String) :
    Except ResolveError Itinerary :=
  match content with
  | .error cause => .error (.unreadable .itinerary path cause)
  | .ok text =>
    match Json.parse Itinerary text with
    | .error fault => .error (.badItinerary path fault)
    | .ok itinerary => .ok itinerary

section

variable {m : Type → Type} [Monad m] (read : String → m (Except ReadError String))

/-- The settings of what is given directly and by the configuration file. -/
def merge (args : Args) (file : ConfigFile) : m Resolution := do
  let explorer := explorerOf (args.graphiqlUrl <|> file.graphiqlUrl)
  let event := explorerEvent explorer
  match args.itinerary <|> file.itineraryPath with
  | none =>
    match Itinerary.readSample with
    | .error fault => pure ⟨[event], .error (.badItinerary none fault)⟩
    | .ok itinerary =>
      pure ⟨[event, .sampleUsed itinerary.legs.length], .ok ⟨explorer, itinerary⟩⟩
  | some path =>
    match itineraryOf path (← read path) with
    | .error e => pure ⟨[event], .error e⟩
    | .ok itinerary =>
      pure ⟨[event, .itineraryLoaded path itinerary.legs.length], .ok ⟨explorer, itinerary⟩⟩

/-- The settings of a run, with files read by `read`. -/
def resolveWith (args : Args) : m Resolution := do
  match args.config with
  | none => merge read args {}
  | some path =>
    match configOf path (← read path) with
    | .error e => pure ⟨[], .error e⟩
    | .ok file => merge read args file

end

/-- The settings of a run over a tree of files. -/
def resolve (files : Files) (args : Args) : Resolution :=
  Id.run (resolveWith (fun path => files.readText path) args)

end LegBoard.Settings
