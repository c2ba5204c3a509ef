import LegBoard.Json.Format
import LegBoard.Text.Percent

/-!
Links into the GraphiQL explorer. A link is the explorer's base URL followed by a query document
and its variables, each as a parameter of its own, so the base is expected to carry a query string
already.
-/
namespace LegBoard

open LegBoard.Json (Shape Format)

/-- Where the explorer lives, if anywhere. -/
structure Explorer where
  url : Option String := none
deriving DecidableEq, Repr, Inhabited

structure LineQueryVariables where
  id : Option String
deriving DecidableEq, Repr, Inhabited

/-- The shape of the variables. Written as a list they have to be complete. -/
def LineQueryVariables.shape : Shape :=
  .record "LineQueryVariables" true <| .cons "id" (.optional .text) .nil

instance : Format LineQueryVariables where
  shape := LineQueryVariables.shape
  ofValue := fun (id, ()) => ⟨id⟩
  toValue := fun v => (v.id, ())

namespace Explorer

/-- The base URL, empty when none is configured. Links are still built then, but lead nowhere. -/
def base (explorer : Explorer) : String := explorer.url.getD ""

/-- Whether links lead somewhere. -/
def isConfigured (explorer : Explorer) : Bool := explorer.base ≠ ""

/-- The document that looks up a line by its identifier. -/
def lineQuery : String :=
  "query line($id: ID!) \x7b\n" ++
  "  line(id: $id) \x7b\n" ++
  "    id\n" ++
  "    name\n" ++
  "    publicCode\n" ++
  "    transportMode\n" ++
  "    transportSubmode\n" ++
  "    authority \x7b\n" ++
  "      id\n" ++
  "      name\n" ++
  "    \x7d\n" ++
  "    presentation \x7b\n" ++
  "      colour\n" ++
  "      textColour\n" ++
  "    \x7d\n" ++
  "    quays \x7b\n" ++
  "      id\n" ++
  "      name\n" ++
  "      publicCode\n" ++
  "    \x7d\n" ++
  "  \x7d\n" ++
  "\x7d\n"

/-- The URL that opens the explorer with a document and a line bound to its variables. -/
def queryUrl (explorer : Explorer) (query : String) (lineId : Option String) : String :=
  explorer.base ++ "&query=" ++ Text.Percent.encode query ++
    "&variables=" ++ Text.Percent.encode (Json.render (⟨lineId⟩ : LineQueryVariables))

def lineUrl (explorer : Explorer) (lineId : Option String) : String :=
  explorer.queryUrl lineQuery lineId

end Explorer

end LegBoard
