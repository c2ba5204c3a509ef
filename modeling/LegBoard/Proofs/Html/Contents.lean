import LegBoard.Proofs.Html.Markup

/-!
# The contents of a document

What a reader takes a document for: its tags, with the references in the values of their attributes
undone, and the texts before, between and behind the tags, with their references undone. Of a view
it gets back every value as it was given, a style with the semicolon that closes it, and every text
as it is shown, an empty one as a blank. Texts are told apart by the tags and markers between them,
so nothing is said of a text with a list of views right behind it.
-/
namespace LegBoard.Html

/-! ## References in texts -/

/-- A text is read back from between tags. -/
theorem unescape_escapeText (s : String) : unescape (escapeText s) = s.toList := by
  rw [escapeText]
  induction s.toList with
  | nil => rfl
  | cons c cs ih => rw [List.flatMap_cons, unescape_escapeTextChar, ih]

/-- A text as a view shows it. -/
def shownText (content : String) : String := if content = "" then " " else content

theorem renderText_eq (content : String) :
    renderText content = escapeText (shownText content) := by
  rw [renderText, shownText]
  split <;> rfl

theorem unescape_renderText (content : String) :
    String.ofList (unescape (renderText content)) = shownText content := by
  rw [renderText_eq, unescape_escapeText, String.ofList_toList]

/-! ## Tags and texts -/

/-- An attribute with the references in its value undone. -/
def Attribute.undone (a : Attribute) : Attribute :=
  ⟨a.name, String.ofList (unescape a.value.toList)⟩

def Tag.undone : Tag → Tag
  | .start name attributes => .start name (attributes.map Attribute.undone)
  | .finish name => .finish name
  | .marker => .marker

/-- An attribute as a view shows it. A style is closed by a semicolon. -/
def Attribute.shown (a : Attribute) : Attribute :=
  ⟨a.name, if a.name = "style" then a.value ++ ";" else a.value⟩

theorem Attribute.shown_style (value : String) :
    Attribute.shown ⟨"style", value⟩ = ⟨"style", value ++ ";"⟩ := by
  rw [shown, if_pos rfl]

theorem Attribute.shown_of_ne {name : String} (h : name ≠ "style") (value : String) :
    Attribute.shown ⟨name, value⟩ = ⟨name, value⟩ := by
  rw [shown, if_neg h]

theorem Attribute.undone_written (a : Attribute) : a.written.undone = a.shown := by
  rw [undone, written, String.toList_ofList, unescape_escapeValue, String.ofList_toList, shown]

theorem Attribute.undone_map_written (attributes : List Attribute) :
    (attributes.map Attribute.written).map Attribute.undone = attributes.map Attribute.shown := by
  rw [List.map_map]
  exact List.map_congr_left fun a _ => a.undone_written

/-- The tags of a document, and the texts before, between and behind them. -/
structure Contents where
  tags : List Tag
  texts : List String
deriving DecidableEq, Repr

def Token.tag? : Token → Option Tag
  | .char _ => none
  | .tag t => some t

/-- The characters before, between and behind the tags. -/
def runs : List Token → List (List Char)
  | [] => [[]]
  | .char c :: ts => (runs ts).modifyHead (c :: ·)
  | .tag _ :: ts => [] :: runs ts

/-- What a reader takes a list of tokens for. -/
def contentsOf (ts : List Token) : Contents where
  tags := (ts.filterMap Token.tag?).map Tag.undone
  texts := (runs ts).map fun cs => String.ofList (unescape cs)

def contents (html : String) : Contents := contentsOf (document html)

/-- One more tag before some contents, with no text before it. -/
def Contents.cons (tag : Tag) (c : Contents) : Contents := ⟨tag :: c.tags, "" :: c.texts⟩

/-- Contents with a given text before their first tag. -/
def Contents.headed (text : String) (c : Contents) : Contents := ⟨c.tags, text :: c.texts.tail⟩

theorem runs_chars (cs : List Char) (t : Tag) (ts : List Token) :
    runs (cs.map Token.char ++ .tag t :: ts) = cs :: runs ts := by
  induction cs with
  | nil => rfl
  | cons c cs ih => rw [List.map_cons, List.cons_append, runs, ih, List.modifyHead_cons]

theorem tags_chars (cs : List Char) (ts : List Token) :
    (cs.map Token.char ++ ts).filterMap Token.tag? = ts.filterMap Token.tag? := by
  induction cs with
  | nil => rfl
  | cons c cs ih => exact ih

theorem contentsOf_nil : contentsOf [] = ⟨[], [""]⟩ := rfl

theorem contentsOf_start (name : String) (attributes : List Attribute) (ts : List Token) :
    contentsOf (.tag (.start name (attributes.map Attribute.written)) :: ts) =
      (contentsOf ts).cons (.start name (attributes.map Attribute.shown)) := by
  rw [← Attribute.undone_map_written]
  rfl

theorem contentsOf_finish (name : String) (ts : List Token) :
    contentsOf (.tag (.finish name) :: ts) = (contentsOf ts).cons (.finish name) := rfl

theorem contentsOf_marker (ts : List Token) :
    contentsOf (.tag .marker :: ts) = (contentsOf ts).cons .marker := rfl

/-- A text is told from what comes behind it by the next tag. -/
theorem contentsOf_text (content : String) (t : Tag) (ts : List Token) :
    contentsOf ((renderText content).map Token.char ++ .tag t :: ts) =
      (contentsOf (.tag t :: ts)).headed (shownText content) := by
  rw [contentsOf, runs_chars, tags_chars, List.map_cons, unescape_renderText]
  rfl

end LegBoard.Html
