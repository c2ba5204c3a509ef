/-!
Blank characters and trimming. A character is blank when it has the Unicode property
White_Space. Trimming keeps everything between the first and the last character that is not.
-/
namespace LegBoard.Text

/-- The twenty-five characters with the Unicode property White_Space. -/
def isBlank (c : Char) : Bool :=
  let n := c.toNat
  (0x9 ≤ n && n ≤ 0xD) || n == 0x20 || n == 0x85 || n == 0xA0 || n == 0x1680 ||
    (0x2000 ≤ n && n ≤ 0x200A) || n == 0x2028 || n == 0x2029 || n == 0x202F ||
    n == 0x205F || n == 0x3000

/-- The text without the blank characters at its two ends. -/
def trim (cs : List Char) : List Char :=
  ((cs.dropWhile isBlank).reverse.dropWhile isBlank).reverse

/-- A text is blank when all its characters are; the empty text is. -/
def isAllBlank (s : String) : Bool :=
  s.toList.all isBlank

end LegBoard.Text
