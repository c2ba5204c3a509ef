import LegBoard.Json.Shape
import LegBoard.Json.Text

/-!
Writing a value as JSON text. Every field of a record is written, in order, an absent one as
`null`, and there are no blanks between tokens.
-/
namespace LegBoard.Json

/-- Texts one after the other with commas between them. -/
def commaSeparated : List (List Char) → List Char
  | [] => []
  | [t] => t
  | t :: ts => t ++ ',' :: commaSeparated ts

mutual

def Shape.write : (shape : Shape) → shape.Value → List Char
  | .text, v => writeText v
  | .tag, v => writeText v
  | .optional _, none => ['n', 'u', 'l', 'l']
  | .optional inner, some v => inner.write v
  | .list item, vs => '[' :: commaSeparated (vs.map fun v => item.write v) ++ [']']
  | .record _ _ fields, vs => '{' :: commaSeparated (fields.writeMembers vs) ++ ['}']

/-- The members of a record as they are written. -/
def Fields.writeMembers : (fields : Fields) → fields.Values → List (List Char)
  | .nil, _ => []
  | .cons name shape rest, (v, vs) =>
    (writeText name ++ ':' :: shape.write v) :: rest.writeMembers vs

end

/-- A value as a whole text. -/
def Shape.writeAll (shape : Shape) (v : shape.Value) : String :=
  String.ofList (shape.write v)

end LegBoard.Json
