import LegBoard.Proofs.Html.Markup

/-!
# The outline of a document

What is left of a document once its texts and the values of its attributes are
taken away: the tags with the names in them, and the markers. A view without its
texts and values has the outline of the view itself, so no text and no value
reaches the outline. How a browser mends markup that is not well nested is not
described.
-/
namespace LegBoard.Html

/-- What a tag contributes to the outline of a document. -/
inductive Mark where
  | start (name : String) (attributes : List String)
  | finish (name : String)
  | marker
deriving DecidableEq, Repr

def Tag.mark : Tag → Mark
  | .start name attributes => .start name (attributes.map Attribute.name)
  | .finish name => .finish name
  | .marker => .marker

def Token.mark? : Token → Option Mark
  | .char _ => none
  | .tag t => some t.mark

/-- The outline of a document. -/
def outline (ts : List Token) : List Mark := ts.filterMap Token.mark?

theorem outline_append (front back : List Token) :
    outline (front ++ back) = outline front ++ outline back := List.filterMap_append

theorem outline_tag (tag : Tag) (ts : List Token) :
    outline (.tag tag :: ts) = tag.mark :: outline ts := rfl

theorem outline_chars (cs : List Char) : outline (cs.map Token.char) = [] := by
  induction cs with
  | nil => rfl
  | cons c cs ih => exact ih

namespace Node

mutual

/-- A view with its texts and the values of its attributes taken away. -/
def skeleton : Node → Node
  | .text _ => .text ""
  | .element tag attributes children =>
    .element tag (attributes.map fun a => ⟨a.name, ""⟩) (skeletons children)
  | .absent => .absent
  | .each items => .each (skeletons items)

def skeletons : List Node → List Node
  | [] => []
  | node :: nodes => node.skeleton :: skeletons nodes

end

theorem isText_skeleton (node : Node) : node.skeleton.isText = node.isText := by
  cases node <;> rfl

theorem names_written (attributes : List Attribute) :
    (attributes.map Attribute.written).map Attribute.name = attributes.map Attribute.name := by
  rw [List.map_map]
  rfl

mutual

theorem outline_skeleton : (node : Node) → outline node.skeleton.tokens = outline node.tokens
  | .text content => by
    rw [skeleton, tokens, tokens, outline_chars, outline_chars]
  | .element tag attributes children => by
    have hnames : ((attributes.map fun a => (⟨a.name, ""⟩ : Attribute)).map Attribute.written).map
        Attribute.name = (attributes.map Attribute.written).map Attribute.name := by
      rw [names_written, names_written, List.map_map]
      rfl
    rw [skeleton, tokens, tokens, outline_tag, outline_tag, outline_append, outline_append,
      outline_skeletons, Tag.mark, Tag.mark, hnames]
  | .absent => rfl
  | .each items => by
    rw [skeleton, tokens, tokens, outline_append, outline_append, outline_skeletons]

theorem outline_skeletons : (nodes : List Node) → {afterText : Bool} →
    outline (tokensAll afterText (skeletons nodes)) = outline (tokensAll afterText nodes)
  | [], _ => rfl
  | node :: nodes, afterText => by
    rw [skeletons, tokensAll, tokensAll, isText_skeleton, outline_append, outline_append,
      outline_append, outline_append, outline_skeleton, outline_skeletons]

end

/-- Views that differ only in texts and in values of attributes have the same outline. -/
theorem outline_eq_of_skeleton_eq {a b : Node} (h : a.skeleton = b.skeleton) :
    outline a.tokens = outline b.tokens := by
  rw [← outline_skeleton a, h, outline_skeleton b]

end Node

end LegBoard.Html
