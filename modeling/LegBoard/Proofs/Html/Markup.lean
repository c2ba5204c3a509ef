import LegBoard.Html.Node
import LegBoard.Proofs.Html.Escaping

/-!
# Markup is read back

A reader that knows nothing of views: a tag runs from a raw angle bracket to
the next closing one, and whatever stands outside of tags is text. It finds in
a written view the tags of that view and no others, in their order, whatever
the texts and the values of the attributes are. The names of tags and of
attributes are written as they are, so those have to be plain.
-/
namespace LegBoard.Html

/-- A tag as a reader finds it. The values of its attributes are still escaped. -/
inductive Tag where
  | start (name : String) (attributes : List Attribute)
  | finish (name : String)
  | marker
deriving DecidableEq, Repr

/-- A document is a list of tokens: its tags, and the characters between them. -/
inductive Token where
  | char (c : Char)
  | tag (tag : Tag)
deriving DecidableEq, Repr

/-- Attributes from what stands before, between and behind quotes, in turn a name and a value. -/
def Attribute.ofParts : List (List Char) → List Attribute
  | name :: value :: parts =>
    ⟨String.ofList (name.filter fun c => c != ' ' && c != '='), String.ofList value⟩ ::
      ofParts parts
  | _ => []

/-- The tag with a given text between its angle brackets. -/
def Tag.ofInside : List Char → Tag
  | ['!'] => .marker
  | '/' :: name => .finish (String.ofList name)
  | cs =>
    .start (String.ofList (cs.takeWhile (· != ' ')))
      (Attribute.ofParts ((cs.dropWhile (· != ' ')).splitOn '"'))

/-- The tokens of a text that starts outside of tags, or inside of one after some characters. -/
def scan : Option (List Char) → List Char → List Token
  | _, [] => []
  | none, c :: cs => if c = '<' then scan (some []) cs else .char c :: scan none cs
  | some inside, c :: cs =>
    if c = '>' then .tag (.ofInside inside) :: scan none cs else scan (some (inside ++ [c])) cs

def tokens (cs : List Char) : List Token := scan none cs

/-- A document as a reader finds it. -/
def document (html : String) : List Token := tokens html.toList

theorem tokens_text {cs : List Char} (h : '<' ∉ cs) (rest : List Char) :
    tokens (cs ++ rest) = cs.map Token.char ++ tokens rest := by
  induction cs with
  | nil => rfl
  | cons c cs ih =>
    obtain ⟨hc, hcs⟩ := List.ne_and_not_mem_of_not_mem_cons h
    rw [tokens, List.cons_append, scan, if_neg (Ne.symm hc), ← tokens, ih hcs]
    rfl

theorem scan_inside {cs : List Char} (h : '>' ∉ cs) (inside rest : List Char) :
    scan (some inside) (cs ++ '>' :: rest) = .tag (.ofInside (inside ++ cs)) :: tokens rest := by
  induction cs generalizing inside with
  | nil => rw [List.nil_append, scan, if_pos rfl, List.append_nil, tokens]
  | cons c cs ih =>
    obtain ⟨hc, hcs⟩ := List.ne_and_not_mem_of_not_mem_cons h
    rw [List.cons_append, scan, if_neg (Ne.symm hc), ih hcs, List.append_assoc,
      List.singleton_append]

theorem tokens_tag {cs : List Char} (h : '>' ∉ cs) (rest : List Char) :
    tokens ('<' :: cs ++ '>' :: rest) = .tag (.ofInside cs) :: tokens rest := by
  rw [tokens, List.cons_append, scan, if_pos rfl, scan_inside h, List.nil_append]

/-! ## Names and attributes -/

/-- A name that may stand in a tag: letters and digits, at least one. -/
def isName (s : String) : Bool := !s.toList.isEmpty && s.toList.all Char.isAlphanum

theorem not_mem_of_isName {s : String} (h : isName s = true) {c : Char}
    (hc : c.isAlphanum = false) : c ∉ s.toList := by
  intro hmem
  rw [isName, Bool.and_eq_true, List.all_eq_true] at h
  have hc' := h.2 c hmem
  rw [hc] at hc'
  cases hc'

/-- An attribute as a reader finds it, its value escaped and a style closed. -/
def Attribute.written (a : Attribute) : Attribute :=
  ⟨a.name, String.ofList (escapeValue (if a.name = "style" then a.value ++ ";" else a.value))⟩

theorem gt_not_mem_render {a : Attribute} (h : isName a.name = true) : '>' ∉ a.render := by
  have hname := not_mem_of_isName h (c := '>') (by decide)
  intro hmem
  simp only [Attribute.render, List.cons_append, List.mem_cons, List.mem_append,
    List.not_mem_nil, or_false] at hmem
  rcases hmem with hblank | ((hmem | heq | hquote) | hvalue) | hquote
  · exact absurd hblank (by decide)
  · exact hname hmem
  · exact absurd heq (by decide)
  · exact absurd hquote (by decide)
  · exact gt_not_mem_escapeValue _ hvalue
  · exact absurd hquote (by decide)

theorem ofParts_render {a : Attribute} (h : isName a.name = true) (rest : List Char) :
    Attribute.ofParts ((a.render ++ rest).splitOn '"') =
      a.written :: Attribute.ofParts (rest.splitOn '"') := by
  have hblank := not_mem_of_isName h (c := ' ') (by decide)
  have heq := not_mem_of_isName h (c := '=') (by decide)
  have hquote : '"' ∉ ' ' :: a.name.toList ++ ['='] := by
    have hname := not_mem_of_isName h (c := '"') (by decide)
    simp only [List.cons_append, List.mem_cons, List.mem_append, List.not_mem_nil, or_false]
    rintro (hc | hc | hc)
    · exact absurd hc (by decide)
    · exact hname hc
    · exact absurd hc (by decide)
  have hparts : ∀ value : List Char, '"' ∉ value →
      (' ' :: a.name.toList ++ ['=', '"'] ++ value ++ ['"'] ++ rest).splitOn '"' =
        (' ' :: a.name.toList ++ ['=']) :: value :: rest.splitOn '"' := by
    intro value hvalue
    have hshape : ' ' :: a.name.toList ++ ['=', '"'] ++ value ++ ['"'] ++ rest =
        (' ' :: a.name.toList ++ ['=']) ++ '"' :: (value ++ '"' :: rest) := by
      simp only [List.append_assoc, List.cons_append, List.nil_append]
    rw [hshape, List.splitOn_append_cons_self_of_not_mem hquote,
      List.splitOn_append_cons_self_of_not_mem hvalue]
  have hname : (' ' :: a.name.toList ++ ['=']).filter (fun c => c != ' ' && c != '=') =
      a.name.toList := by
    rw [List.cons_append, List.filter_cons_of_neg (by decide), List.filter_append,
      List.filter_eq_self.mpr, List.filter_cons_of_neg (by decide), List.filter_nil,
      List.append_nil]
    intro c hc
    rw [Bool.and_eq_true, bne_iff_ne, bne_iff_ne]
    exact ⟨fun h' => hblank (h' ▸ hc), fun h' => heq (h' ▸ hc)⟩
  rw [Attribute.render, hparts _ (quote_not_mem_escapeValue _), Attribute.ofParts, hname,
    String.ofList_toList]
  rfl

theorem ofParts_flatMap_render {attributes : List Attribute}
    (h : ∀ a ∈ attributes, isName a.name = true) :
    Attribute.ofParts ((attributes.flatMap Attribute.render).splitOn '"') =
      attributes.map Attribute.written := by
  induction attributes with
  | nil => rfl
  | cons a attributes ih =>
    rw [List.flatMap_cons, ofParts_render (h a List.mem_cons_self),
      ih fun b hb => h b (List.mem_cons_of_mem a hb)]
    rfl

theorem head_of_isName {name : String} (h : isName name = true) (rest : List Char) :
    ∃ c cs, name.toList ++ rest = c :: cs ∧ c.isAlphanum = true := by
  rw [isName, Bool.and_eq_true, Bool.not_eq_true', List.all_eq_true] at h
  obtain ⟨hempty, hall⟩ := h
  cases hlist : name.toList with
  | nil => rw [hlist] at hempty; cases hempty
  | cons c cs =>
    refine ⟨c, cs ++ rest, rfl, hall c ?_⟩
    rw [hlist]
    exact List.mem_cons_self

theorem ofInside_start {name : String} (hname : isName name = true) {attributes : List Attribute}
    (h : ∀ a ∈ attributes, isName a.name = true) :
    Tag.ofInside (name.toList ++ attributes.flatMap Attribute.render) =
      .start name (attributes.map Attribute.written) := by
  have hblank : ∀ c ∈ name.toList, (c != ' ') = true := by
    intro c hc
    rw [bne_iff_ne]
    rintro rfl
    exact not_mem_of_isName hname (by decide) hc
  have htake : (attributes.flatMap Attribute.render).takeWhile (· != ' ') = [] := by
    cases attributes <;> rfl
  have hdrop : (attributes.flatMap Attribute.render).dropWhile (· != ' ') =
      attributes.flatMap Attribute.render := by
    cases attributes <;> rfl
  -- a letter or digit comes first, so the tag is neither a marker nor an end
  obtain ⟨c, cs, hcons, hc⟩ := head_of_isName hname (attributes.flatMap Attribute.render)
  rw [Tag.ofInside]
  · rw [List.takeWhile_append_of_pos hblank, List.dropWhile_append_of_pos hblank, htake, hdrop,
      List.append_nil, String.ofList_toList, ofParts_flatMap_render h]
  · rw [hcons]
    rintro heq
    rw [(List.cons.inj heq).1] at hc
    exact absurd hc (by decide)
  · rw [hcons]
    rintro cs' heq
    rw [(List.cons.inj heq).1] at hc
    exact absurd hc (by decide)

/-! ## Views -/

namespace Node

mutual

/-- The tokens that a view is written with. -/
def tokens : Node → List Token
  | .text content => (renderText content).map Token.char
  | .element tag attributes children =>
    .tag (.start tag (attributes.map Attribute.written)) ::
      (tokensAll false children ++ [.tag (.finish tag)])
  | .absent => [.tag .marker]
  | .each items => tokensAll false items ++ [.tag .marker]

def tokensAll : Bool → List Node → List Token
  | _, [] => []
  | afterText, node :: nodes =>
    (if afterText && node.isText then [.tag .marker] else []) ++ node.tokens ++
      tokensAll node.isText nodes

end

mutual

def isPlain : Node → Bool
  | .text _ => true
  | .element tag attributes children =>
    isName tag && attributes.all (fun a => isName a.name) && allPlain children
  | .absent => true
  | .each items => allPlain items

def allPlain : List Node → Bool
  | [] => true
  | node :: nodes => node.isPlain && allPlain nodes

end

theorem lt_not_mem_renderText (content : String) : '<' ∉ renderText content := by
  rw [renderText]
  split
  · decide
  · exact lt_not_mem_escapeText content

theorem tokens_marker (rest : List Char) :
    Html.tokens (marker ++ rest) = .tag .marker :: Html.tokens rest := rfl

theorem tokens_start {tag : String} {attributes : List Attribute} (htag : isName tag = true)
    (h : ∀ a ∈ attributes, isName a.name = true) (rest : List Char) :
    Html.tokens ('<' :: (tag.toList ++ attributes.flatMap Attribute.render) ++ '>' :: rest) =
      .tag (.start tag (attributes.map Attribute.written)) :: Html.tokens rest := by
  have hinside : '>' ∉ tag.toList ++ attributes.flatMap Attribute.render := by
    rw [List.mem_append, List.mem_flatMap]
    rintro (hc | ⟨a, ha, hc⟩)
    · exact not_mem_of_isName htag (by decide) hc
    · exact gt_not_mem_render (h a ha) hc
  rw [tokens_tag hinside, ofInside_start htag h]

theorem tokens_finish {tag : String} (htag : isName tag = true) (rest : List Char) :
    Html.tokens ('<' :: ('/' :: tag.toList) ++ '>' :: rest) =
      .tag (.finish tag) :: Html.tokens rest := by
  have hinside : '>' ∉ '/' :: tag.toList := by
    rw [List.mem_cons]
    rintro (hc | hc)
    · exact absurd hc (by decide)
    · exact not_mem_of_isName htag (by decide) hc
  rw [tokens_tag hinside, Tag.ofInside, String.ofList_toList]

mutual

/-- A reader finds the tokens of a view where it is written, and goes on behind them. -/
theorem tokens_write : (node : Node) → node.isPlain = true → (rest : List Char) →
    Html.tokens (node.write ++ rest) = node.tokens ++ Html.tokens rest
  | .text content, _, rest => tokens_text (lt_not_mem_renderText content) rest
  | .element tag attributes children, h, rest => by
    simp only [isPlain, Bool.and_eq_true, List.all_eq_true] at h
    obtain ⟨⟨htag, hattributes⟩, hchildren⟩ := h
    have hshape : (Node.element tag attributes children).write ++ rest =
        '<' :: (tag.toList ++ attributes.flatMap Attribute.render) ++
          '>' :: (writeAll false children ++ ('<' :: ('/' :: tag.toList) ++ '>' :: rest)) := by
      simp only [write, List.append_assoc, List.cons_append, List.nil_append]
    rw [hshape, tokens_start htag hattributes, tokens_writeAll children hchildren,
      tokens_finish htag, tokens, List.cons_append, List.append_assoc, List.singleton_append]
  | .absent, _, rest => tokens_marker rest
  | .each items, h, rest => by
    rw [isPlain] at h
    rw [write, List.append_assoc, tokens_writeAll items h, tokens_marker, tokens,
      List.append_assoc, List.singleton_append]

theorem tokens_writeAll : (nodes : List Node) → allPlain nodes = true → (afterText : Bool) →
    (rest : List Char) →
    Html.tokens (writeAll afterText nodes ++ rest) =
      tokensAll afterText nodes ++ Html.tokens rest
  | [], _, _, _ => rfl
  | node :: nodes, h, afterText, rest => by
    rw [allPlain, Bool.and_eq_true] at h
    have hnode := tokens_write node h.1 (writeAll node.isText nodes ++ rest)
    have hnodes := tokens_writeAll nodes h.2 node.isText rest
    rw [writeAll, tokensAll]
    cases afterText && node.isText with
    | true =>
      rw [if_pos rfl, if_pos rfl, List.append_assoc, List.append_assoc, tokens_marker, hnode,
        hnodes, List.append_assoc, List.append_assoc, List.singleton_append]
    | false =>
      rw [if_neg Bool.false_ne_true, if_neg Bool.false_ne_true, List.nil_append, List.nil_append,
        List.append_assoc, hnode, hnodes, List.append_assoc]

end

/-- What a reader finds in a rendered view is the view's own tokens and nothing else. -/
theorem document_render {node : Node} (h : node.isPlain = true) :
    document node.render = node.tokens := by
  have hwrite := tokens_write node h []
  rw [List.append_nil] at hwrite
  rw [document, render, String.toList_ofList, hwrite]
  exact List.append_nil _

end Node

end LegBoard.Html
