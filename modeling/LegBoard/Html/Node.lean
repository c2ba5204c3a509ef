import LegBoard.Html.Escape

/-!
Views and how they are written as HTML. A marker, an empty comment of its own kind, stands where a
reader of the page could not see a view otherwise: for a view that is absent, at the end of a list
of views, and between two texts.
-/
namespace LegBoard.Html

structure Attribute where
  name : String
  value : String
deriving DecidableEq, Repr

inductive Node where
  | text (content : String)
  | element (tag : String) (attributes : List Attribute) (children : List Node)
  /-- A view that may be there but is not. -/
  | absent
  /-- A list of views of any length. -/
  | each (items : List Node)

/-- The marker of a view that cannot be seen. -/
def marker : List Char := ['<', '!', '>']

/-- An attribute as it is written, with a blank before it. A style is closed by a semicolon. -/
def Attribute.render (a : Attribute) : List Char :=
  let value := if a.name = "style" then a.value ++ ";" else a.value
  ' ' :: a.name.toList ++ ['=', '"'] ++ escapeValue value ++ ['"']

/-- A text as it is written. An empty one is written as a blank. -/
def renderText (content : String) : List Char :=
  if content = "" then [' '] else escapeText content

namespace Node

def isText : Node → Bool
  | .text _ => true
  | _ => false

mutual

/-- A view as it is written. -/
def write : Node → List Char
  | .text content => renderText content
  | .element tag attributes children =>
    '<' :: tag.toList ++ attributes.flatMap Attribute.render ++ '>' :: writeAll false children ++
      ['<', '/'] ++ tag.toList ++ ['>']
  | .absent => marker
  | .each items => writeAll false items ++ marker

/-- Views one after the other. The first argument tells whether a text comes just before them. -/
def writeAll : Bool → List Node → List Char
  | _, [] => []
  | afterText, node :: nodes =>
    (if afterText && node.isText then marker else []) ++ node.write ++ writeAll node.isText nodes

end

def render (node : Node) : String := String.ofList node.write

def ofOption : Option Node → Node
  | none => .absent
  | some node => node

end Node

end LegBoard.Html
