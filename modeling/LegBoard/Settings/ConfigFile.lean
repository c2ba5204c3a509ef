import LegBoard.Toml.Read

/-!
The configuration file. It is a TOML document of which two tables are read, `explorer` for its
`graphiql_url` and `itinerary` for its `path`. Either may also be written as the array of its
values. What else the document holds does not matter, so long as its numbers are in range.
-/
namespace LegBoard.Settings

open LegBoard.Toml (Value Table)

structure ConfigFile where
  graphiqlUrl : Option String := none
  itineraryPath : Option String := none
deriving DecidableEq, Repr, Inhabited

namespace ConfigFile

/-- The text of a value, if it is one. -/
def text? : Value → Option String
  | .text content => some content
  | _ => none

/-- The one text that a section is read for, named by a key or first in an array, or `none` if the
section is not of that shape or has a number out of range. In an array, what comes behind the first
value is not looked at. A date counts as a section that does not give the text. -/
def sectionText? (key : String) : Value → Option (Option String)
  | .table _ entries =>
    if Toml.entriesFit entries then
      match Toml.find? key entries with
      | none => some none
      | some value => (text? value).map some
    else none
  | .array [] => some none
  | .array (value :: _) => (text? value).map some
  | .dateTime => some none
  | _ => none

/-- What a document says in a section, which may be missing. -/
def entry? (root : Table) (name key : String) : Option (Option String) :=
  match Toml.find? name root.2 with
  | none => some none
  | some value => sectionText? key value

/-- Whether the numbers outside of the two sections are in range. -/
def othersFit (root : Table) : Bool :=
  root.2.all fun entry => entry.1 == "explorer" || entry.1 == "itinerary" || entry.2.fits

/-- What a document gives. -/
def ofToml? (root : Table) : Option ConfigFile := do
  let graphiqlUrl ← entry? root "explorer" "graphiql_url"
  let itineraryPath ← entry? root "itinerary" "path"
  if othersFit root then some { graphiqlUrl, itineraryPath } else none

/-- What the text of a configuration file gives, or `none` if it is no such file. -/
def parse? (text : String) : Option ConfigFile := do
  ofToml? (← Toml.parse? text)

end ConfigFile

end LegBoard.Settings
