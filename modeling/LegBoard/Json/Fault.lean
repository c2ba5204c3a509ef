import LegBoard.Decimal.Shortest
import LegBoard.Json.Position
import LegBoard.Text.Quoted

/-!
What can be wrong with a JSON text, and where. A `Fault` is a cause and the place it is blamed on.
Causes fall into three kinds: the text ends too early, it is not JSON, or it is JSON of a shape
that was not asked for.
-/
namespace LegBoard.Json

open LegBoard.Decimal (Double)

/-- The value found where another was expected. -/
inductive Found where
  | null
  | boolean (value : Bool)
  | integer (value : Int)
  | fraction (negative : Bool) (size : Double)
  | text (value : String)
  | list
  | object
deriving DecidableEq, Repr

/-- How a value is called in a message. -/
def Found.describe : Found → String
  | .null => "null"
  | .boolean value => "boolean `" ++ (if value then "true" else "false") ++ "`"
  | .integer value => "integer `" ++ toString value ++ "`"
  | .fraction negative size =>
    "floating point `" ++ (if negative then "-" else "") ++ String.ofList size.text ++ "`"
  | .text value => "string " ++ Text.quoted value
  | .list => "sequence"
  | .object => "map"

/-- Why a text is refused. -/
inductive Problem where
  /-- The text ends where a value should start or go on. -/
  | endInValue
  | endInText
  | endInList
  | endInObject
  | expectedValue
  | expectedColon
  /-- Something other than a comma or the closing bracket follows a list element. -/
  | expectedListEnd
  /-- Something other than a comma or the closing brace follows an object member. -/
  | expectedObjectEnd
  /-- A word that starts like `null`, `true` or `false` goes on differently. -/
  | misspeltWord
  | keyNotText
  | trailingComma
  | trailingText
  | controlCharacter
  | invalidEscape
  /-- A half of a surrogate pair that its other half does not follow, or the second half first. -/
  | loneSurrogate
  /-- The first half of a surrogate pair that no escape follows. -/
  | unfinishedPair
  | invalidNumber
  | numberOutOfRange
  | wrongType (found : Found) (expected : String)
  | duplicateField (name : String)
  /-- A list of fields is too short for a record that needs all of them. -/
  | missingFields (given needed : Nat) (record : String)
deriving DecidableEq, Repr

inductive Problem.Kind where
  | ended
  | malformed
  | mismatched
deriving DecidableEq, Repr

def Problem.kind : Problem → Kind
  | .endInValue | .endInText | .endInList | .endInObject => .ended
  | .wrongType .. | .duplicateField .. | .missingFields .. => .mismatched
  | _ => .malformed

def Problem.message : Problem → String
  | .endInValue => "EOF while parsing a value"
  | .endInText => "EOF while parsing a string"
  | .endInList => "EOF while parsing a list"
  | .endInObject => "EOF while parsing an object"
  | .expectedValue => "expected value"
  | .expectedColon => "expected `:`"
  | .expectedListEnd => "expected `,` or `]`"
  | .expectedObjectEnd => "expected `,` or `\x7d`"
  | .misspeltWord => "expected ident"
  | .keyNotText => "key must be a string"
  | .trailingComma => "trailing comma"
  | .trailingText => "trailing characters"
  | .controlCharacter => "control character (\\u0000-\\u001F) found while parsing a string"
  | .invalidEscape => "invalid escape"
  | .loneSurrogate => "lone leading surrogate in hex escape"
  | .unfinishedPair => "unexpected end of hex escape"
  | .invalidNumber => "invalid number"
  | .numberOutOfRange => "number out of range"
  | .wrongType found expected => "invalid type: " ++ found.describe ++ ", expected " ++ expected
  | .duplicateField name => "duplicate field `" ++ name ++ "`"
  | .missingFields given needed record =>
    "invalid length " ++ toString given ++ ", expected struct " ++ record ++ " with " ++
      toString needed ++ (if needed = 1 then " element" else " elements")

/-- A cause and the place it is blamed on. -/
structure Fault where
  problem : Problem
  position : Position
deriving DecidableEq, Repr

/-- The wording of a fault: its cause, then its place. -/
def Fault.message (fault : Fault) : String :=
  fault.problem.message ++ " at line " ++ toString fault.position.line ++
    " column " ++ toString fault.position.column

/-- A cause blamed on the place reached. -/
def Cursor.here (s : Cursor) (problem : Problem) : Fault := ⟨problem, s.position⟩

/-- A cause blamed on the character that would come next. -/
def Cursor.ahead (s : Cursor) (problem : Problem) : Fault := ⟨problem, s.peekPosition⟩

end LegBoard.Json
