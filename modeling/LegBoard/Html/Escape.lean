/-!
Escaping in HTML. In text the two angle brackets and the ampersand are written as references, in a
quoted attribute the quote as well.
-/
namespace LegBoard.Html

def escapeTextChar (c : Char) : List Char :=
  match c with
  | '&' => ['&', 'a', 'm', 'p', ';']
  | '<' => ['&', 'l', 't', ';']
  | '>' => ['&', 'g', 't', ';']
  | c => [c]

def escapeValueChar (c : Char) : List Char :=
  match c with
  | '"' => ['&', 'q', 'u', 'o', 't', ';']
  | c => escapeTextChar c

/-- A text as it is written between tags. -/
def escapeText (s : String) : List Char := s.toList.flatMap escapeTextChar

/-- A value as it is written between the quotes of an attribute. -/
def escapeValue (s : String) : List Char := s.toList.flatMap escapeValueChar

end LegBoard.Html
