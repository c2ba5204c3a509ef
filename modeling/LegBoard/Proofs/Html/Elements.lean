import LegBoard.Proofs.Html.Markup

/-!
# Elements of a document

Questions that a reader asks of the tokens of a document: which start tags of a
name it has, with which attributes, and which stretches those open. A stretch
runs through the next end tag of its name. Nothing is said of elements that
stand inside of others of their own name.
-/
namespace LegBoard.Html

def Token.startOf? (name : String) : Token → Option (List Attribute)
  | .tag (.start name' attributes) => if name' = name then some attributes else none
  | _ => none

/-- The attributes of each start tag of a given name, in the order of the document. -/
def startTags (name : String) (ts : List Token) : List (List Attribute) :=
  ts.filterMap (Token.startOf? name)

/-- The values that a list of attributes has under a name, still escaped. -/
def valuesOf (name : String) (attributes : List Attribute) : List String :=
  (attributes.filter fun a => a.name == name).map Attribute.value

section

variable (name : String)

@[simp] theorem startTags_nil : startTags name [] = [] := rfl

@[simp] theorem startTags_append (front back : List Token) :
    startTags name (front ++ back) = startTags name front ++ startTags name back :=
  List.filterMap_append

@[simp] theorem startTags_finish (tag : String) (ts : List Token) :
    startTags name (.tag (.finish tag) :: ts) = startTags name ts := rfl

@[simp] theorem startTags_marker (ts : List Token) :
    startTags name (.tag .marker :: ts) = startTags name ts := rfl

@[simp] theorem startTags_chars (cs : List Char) : startTags name (cs.map Token.char) = [] := by
  induction cs with
  | nil => rfl
  | cons c cs ih => exact ih

@[simp] theorem startTags_start_self (attributes : List Attribute) (ts : List Token) :
    startTags name (.tag (.start name attributes) :: ts) =
      attributes :: startTags name ts := by
  rw [startTags, List.filterMap_cons_some (b := attributes)]
  · rfl
  · rw [Token.startOf?, if_pos rfl]

@[simp] theorem startTags_start_of_ne {tag : String} (h : tag ≠ name)
    (attributes : List Attribute) (ts : List Token) :
    startTags name (.tag (.start tag attributes) :: ts) = startTags name ts := by
  rw [startTags, List.filterMap_cons_none]
  · rfl
  · rw [Token.startOf?, if_neg h]

end

/-- The stretches that start tags of a name open, each through the next end tag of that name. The
first argument is what has been read of the one that is open, if one is. -/
def collect (name : String) : Option (List Token) → List Token → List (List Token)
  | _, [] => []
  | none, token :: ts =>
    if (token.startOf? name).isSome then collect name (some [token]) ts
    else collect name none ts
  | some block, token :: ts =>
    if token = .tag (.finish name) then (block ++ [token]) :: collect name none ts
    else collect name (some (block ++ [token])) ts

/-- The stretches of a document from each start tag of a name through the end tag behind it. -/
def blocks (name : String) (ts : List Token) : List (List Token) :=
  collect name none ts

theorem blocks_append {name : String} {front : List Token} (h : startTags name front = [])
    (rest : List Token) : blocks name (front ++ rest) = blocks name rest := by
  induction front with
  | nil => rfl
  | cons token front ih =>
    cases hstart : token.startOf? name with
    | none =>
      have hfront : startTags name front = [] := by
        rw [startTags, List.filterMap_cons_none hstart] at h
        exact h
      rw [List.cons_append, blocks, collect, hstart, if_neg (by simp only [Option.isSome_none,
        Bool.false_eq_true, not_false_eq_true]), ← blocks, ih hfront]
    | some attributes =>
      rw [startTags, List.filterMap_cons_some hstart] at h
      cases h

theorem blocks_eq_nil {name : String} {ts : List Token} (h : startTags name ts = []) :
    blocks name ts = [] := by
  rw [← List.append_nil ts, blocks_append h]
  rfl

theorem collect_block {name : String} {inner : List Token} (h : .tag (.finish name) ∉ inner)
    (block rest : List Token) :
    collect name (some block) (inner ++ .tag (.finish name) :: rest) =
      (block ++ inner ++ [.tag (.finish name)]) :: blocks name rest := by
  induction inner generalizing block with
  | nil => rw [List.nil_append, collect, if_pos rfl, List.append_nil, blocks]
  | cons token inner ih =>
    obtain ⟨htoken, hinner⟩ := List.ne_and_not_mem_of_not_mem_cons h
    rw [List.cons_append, collect, if_neg (Ne.symm htoken), ih hinner, List.append_assoc block,
      List.singleton_append]

/-! ## Views -/

namespace Node

@[simp] theorem startTags_text (name content : String) :
    startTags name (Node.text content).tokens = [] := startTags_chars name _

/-- The start tags of views one after the other are those of each. The markers in between are
none. -/
theorem startTags_tokensAll (name : String) (nodes : List Node) (afterText : Bool) :
    startTags name (tokensAll afterText nodes) = nodes.flatMap fun n => startTags name n.tokens := by
  induction nodes generalizing afterText with
  | nil => rfl
  | cons node nodes ih =>
    have hmarker : startTags name (if afterText && node.isText then [.tag .marker] else []) =
        [] := by
      split <;> rfl
    rw [tokensAll, startTags_append, startTags_append, hmarker, ih, List.flatMap_cons]
    rfl

@[simp] theorem startTags_each (name : String) (items : List Node) :
    startTags name (Node.each items).tokens = items.flatMap fun n => startTags name n.tokens := by
  rw [tokens, startTags_append, startTags_tokensAll, startTags_marker, startTags_nil,
    List.append_nil]

@[simp] theorem startTags_element_self (name : String) (attributes : List Attribute)
    (children : List Node) :
    startTags name (Node.element name attributes children).tokens =
      attributes.map Attribute.written :: children.flatMap fun n => startTags name n.tokens := by
  rw [tokens, startTags_start_self, startTags_append, startTags_tokensAll, startTags_finish,
    startTags_nil, List.append_nil]

@[simp] theorem startTags_element_of_ne {name tag : String} (h : tag ≠ name)
    (attributes : List Attribute) (children : List Node) :
    startTags name (Node.element tag attributes children).tokens =
      children.flatMap fun n => startTags name n.tokens := by
  rw [tokens, startTags_start_of_ne name h, startTags_append, startTags_tokensAll,
    startTags_finish, startTags_nil, List.append_nil]

mutual

/-- No end tag without a start tag. -/
theorem finish_not_mem_tokens {name : String} : (node : Node) →
    startTags name node.tokens = [] → .tag (.finish name) ∉ node.tokens
  | .text content, _ => by
    rw [tokens, List.mem_map]
    rintro ⟨c, -, hc⟩
    cases hc
  | .element tag attributes children, h => by
    have htag : tag ≠ name := by
      rintro rfl
      rw [startTags_element_self] at h
      cases h
    rw [startTags_element_of_ne htag, ← startTags_tokensAll name children false] at h
    rw [tokens, List.mem_cons, List.mem_append, List.mem_singleton]
    rintro (hstart | hchild | hfinish)
    · cases hstart
    · exact finish_not_mem_tokensAll children h hchild
    · cases hfinish
      exact htag rfl
  | .absent, _ => by
    rw [tokens, List.mem_singleton]
    intro hmarker
    cases hmarker
  | .each items, h => by
    rw [startTags_each, ← startTags_tokensAll name items false] at h
    rw [tokens, List.mem_append, List.mem_singleton]
    rintro (hitem | hmarker)
    · exact finish_not_mem_tokensAll items h hitem
    · cases hmarker

theorem finish_not_mem_tokensAll {name : String} : (nodes : List Node) → {afterText : Bool} →
    startTags name (tokensAll afterText nodes) = [] →
    .tag (.finish name) ∉ tokensAll afterText nodes
  | [], _, _ => List.not_mem_nil
  | node :: nodes, afterText, h => by
    rw [tokensAll, startTags_append, startTags_append, List.append_eq_nil_iff,
      List.append_eq_nil_iff] at h
    obtain ⟨⟨-, hnode⟩, hnodes⟩ := h
    rw [tokensAll, List.mem_append, List.mem_append]
    rintro ((hmarker | hmem) | hmem)
    · split at hmarker
      · cases List.mem_singleton.mp hmarker
      · cases hmarker
    · exact finish_not_mem_tokens node hnode hmem
    · exact finish_not_mem_tokensAll nodes hnodes hmem

end

/-- An element is a stretch of its own if no other of its name stands inside of it. -/
theorem blocks_element {name : String} {attributes : List Attribute} {children : List Node}
    (h : startTags name (tokensAll false children) = []) (rest : List Token) :
    blocks name ((Node.element name attributes children).tokens ++ rest) =
      (Node.element name attributes children).tokens :: blocks name rest := by
  have hstart : ((Token.tag (.start name (attributes.map Attribute.written))).startOf? name).isSome
      = true := by
    rw [Token.startOf?, if_pos rfl]
    rfl
  rw [tokens, List.cons_append, blocks, collect, if_pos hstart, List.append_assoc,
    List.singleton_append, collect_block (finish_not_mem_tokensAll children h)]
  rfl

theorem tokensAll_concat {node : Node} (hnode : node.isText = false) (nodes : List Node)
    (afterText : Bool) :
    tokensAll afterText (nodes ++ [node]) = tokensAll afterText nodes ++ node.tokens := by
  induction nodes generalizing afterText with
  | nil =>
    rw [List.nil_append, tokensAll, tokensAll, hnode, Bool.and_false,
      if_neg Bool.false_ne_true, tokensAll, List.append_nil]
  | cons n nodes ih =>
    rw [List.cons_append, tokensAll, ih, tokensAll, List.append_assoc, List.append_assoc,
      List.append_assoc]

/-- Where only the last view of an element has stretches of a name, the element has those. -/
theorem blocks_last {name tag : String} (htag : tag ≠ name) (attributes : List Attribute)
    {nodes : List Node} (h : (nodes.flatMap fun n => startTags name n.tokens) = []) (node : Node)
    (hnode : node.isText = false) (rest : List Token) :
    blocks name ((Node.element tag attributes (nodes ++ [node])).tokens ++ rest) =
      blocks name (node.tokens ++ .tag (.finish tag) :: rest) := by
  rw [← startTags_tokensAll name nodes false] at h
  have hfront : startTags name
      (.tag (.start tag (attributes.map Attribute.written)) :: tokensAll false nodes) = [] := by
    rw [startTags_start_of_ne name htag, h]
  have hshape : (Node.element tag attributes (nodes ++ [node])).tokens ++ rest =
      (.tag (.start tag (attributes.map Attribute.written)) :: tokensAll false nodes) ++
        (node.tokens ++ .tag (.finish tag) :: rest) := by
    rw [tokens, tokensAll_concat hnode]
    simp only [List.cons_append, List.append_assoc, List.nil_append]
  rw [hshape, blocks_append hfront]

/-- Where only the first view of an element has stretches of a name, and is one itself, it is the
only one of the element. -/
theorem blocks_first {name tag : String} (htag : tag ≠ name)
    {attributes attributes' : List Attribute} {children nodes : List Node}
    (hchildren : startTags name (tokensAll false children) = [])
    (hnodes : (nodes.flatMap fun n => startTags name n.tokens) = []) :
    blocks name (Node.element tag attributes (.element name attributes' children :: nodes)).tokens =
      [(Node.element name attributes' children).tokens] := by
  have hrest : startTags name (tokensAll false nodes ++ [.tag (.finish tag)]) = [] := by
    rw [startTags_append, startTags_tokensAll, hnodes]
    rfl
  have hshape : (Node.element tag attributes (.element name attributes' children :: nodes)).tokens =
      [.tag (.start tag (attributes.map Attribute.written))] ++
        ((Node.element name attributes' children).tokens ++
          (tokensAll false nodes ++ [.tag (.finish tag)])) := by
    rw [tokens, tokensAll, List.append_assoc, List.append_assoc]
    rfl
  rw [hshape, blocks_append (startTags_start_of_ne name htag _ []), blocks_element hchildren,
    blocks_eq_nil hrest]

theorem tokensAll_map {α : Type} {f : α → Node} (h : ∀ a, (f a).isText = false)
    (as : List α) (afterText : Bool) :
    tokensAll afterText (as.map f) = as.flatMap fun a => (f a).tokens := by
  induction as generalizing afterText with
  | nil => rfl
  | cons a as ih =>
    rw [List.map_cons, tokensAll, h, Bool.and_false, if_neg Bool.false_ne_true, ih,
      List.nil_append, List.flatMap_cons]

/-- The stretches of a list of views that are each one of their own. -/
theorem blocks_each {α : Type} {name : String} {f : α → Node} (hf : ∀ a, (f a).isText = false)
    (h : ∀ a rest, blocks name ((f a).tokens ++ rest) = (f a).tokens :: blocks name rest)
    (as : List α) (rest : List Token) :
    blocks name ((Node.each (as.map f)).tokens ++ rest) =
      (as.map fun a => (f a).tokens) ++ blocks name rest := by
  rw [tokens, tokensAll_map hf, List.append_assoc]
  induction as with
  | nil => exact blocks_append rfl rest
  | cons a as ih => rw [List.flatMap_cons, List.append_assoc, h, ih, List.map_cons, List.cons_append]

end Node

end LegBoard.Html
