/-!
Places in a text. A place is a line, counted from 1, and a column: the number of bytes of
that line, in UTF-8, that lie before the place. A `Cursor` is a place together with the text
that is still ahead of it.
-/
namespace LegBoard.Json

/-- A place in a text, by its line and the bytes of that line before it. -/
structure Position where
  line : Nat
  column : Nat
deriving DecidableEq, Repr

namespace Position

/-- The place where every text starts. -/
def start : Position := ⟨1, 0⟩

/-- The place just behind a character that stands here. -/
def after (p : Position) (c : Char) : Position :=
  if c = '\n' then ⟨p.line + 1, 0⟩ else ⟨p.line, p.column + c.utf8Size⟩

/-- The place behind a run of characters. -/
def afterAll (p : Position) (cs : List Char) : Position :=
  cs.foldl after p

/-- The place one byte further on, which for a longer character lies inside it. -/
def afterByte (p : Position) (c : Char) : Position :=
  if c = '\n' then ⟨p.line + 1, 0⟩ else ⟨p.line, p.column + 1⟩

/-- The place `n` bytes further on in a run of characters, or its end if that comes first. -/
def afterBytes : Nat → Position → List Char → Position
  | _, p, [] => p
  | n, p, c :: cs =>
    if c.utf8Size ≤ n then afterBytes (n - c.utf8Size) (p.after c) cs
    else ⟨p.line, p.column + n⟩

end Position

/-- A place in a text and the text that is still ahead. -/
structure Cursor where
  position : Position
  rest : List Char
deriving DecidableEq, Repr

namespace Cursor

/-- The start of a text. -/
def ofList (cs : List Char) : Cursor := ⟨.start, cs⟩

/-- One character further on; the end of a text stays where it is. -/
def step (s : Cursor) : Cursor :=
  match s.rest with
  | [] => s
  | c :: cs => ⟨s.position.after c, cs⟩

def finish (s : Cursor) : Cursor := ⟨s.position.afterAll s.rest, []⟩

/-- Where the next byte ends, which is the place blamed for a character not yet taken. -/
def peekPosition (s : Cursor) : Position :=
  match s.rest with
  | [] => s.position
  | c :: _ => s.position.afterByte c

/-- Whether the next character has a property. -/
def nextIs (p : Char → Bool) (s : Cursor) : Bool :=
  match s.rest with
  | [] => false
  | c :: _ => p c

/-- Past all characters, from here on, that have a property. -/
def dropWhile (p : Char → Bool) (s : Cursor) : Cursor :=
  go s.position s.rest
where
  go (here : Position) : List Char → Cursor
    | [] => ⟨here, []⟩
    | c :: cs => if p c then go (here.after c) cs else ⟨here, c :: cs⟩

/-- The four characters that may stand between two tokens. -/
def isBlank (c : Char) : Bool :=
  c == ' ' || c == '\n' || c == '\t' || c == '\r'

/-- The start of the next token. -/
def skipBlank (s : Cursor) : Cursor := s.dropWhile isBlank

end Cursor

end LegBoard.Json
