import LegBoard.Text.Hex

/-!
Percent-encoding of a URL component. Letters, digits and nine marks stand for themselves; every
other character is written as its bytes in UTF-8, each as a percent sign and two upper-case
hexadecimal digits.
-/
namespace LegBoard.Text.Percent

def isAlphanumeric (c : Char) : Bool :=
  ('a' ≤ c && c ≤ 'z') || ('A' ≤ c && c ≤ 'Z') || ('0' ≤ c && c ≤ '9')

/-- A character that stands for itself in a component. -/
def isUnreserved (c : Char) : Bool :=
  isAlphanumeric c || ['-', '_', '.', '!', '~', '*', '\'', '(', ')'].contains c

/-- A byte as it is written when it may not stand for itself. -/
def encodeByte (b : UInt8) : List Char := '%' :: Hex.upperByte b.toNat

def encodeChar (c : Char) : List Char :=
  if isUnreserved c then [c] else (String.utf8EncodeChar c).flatMap encodeByte

/-- A component as it is written in a URL. -/
def encode (s : String) : String :=
  String.ofList (s.toList.flatMap encodeChar)

end LegBoard.Text.Percent
