import LegBoard.Text.Hex

/-!
Strings of a TOML document. There are four forms: in double quotes, where a backslash starts an
escape, or in single quotes, where every character stands for itself; and each on one line in single
marks or on any number of lines in triple marks. All functions here take a string off a text from
behind its opening mark.
-/
namespace LegBoard.Toml

/-- A character that may stand for itself: a tab, or anything but a control. -/
def isPlain (c : Char) : Bool := c == '\t' || (0x20 ≤ c.toNat && c.toNat ≠ 0x7F)

/-- A blank within a line. -/
def isSpace (c : Char) : Bool := c == ' ' || c == '\t'

/-- The character with a number, unless the number is that of half a surrogate pair or of none. -/
def char? (n : Nat) : Option Char :=
  if n.isValidChar then some (Char.ofNat n) else none

/-- The character that `count` hexadecimal digits number, and what follows them. -/
def numbered? (count : Nat) (cs : List Char) : Option (Char × List Char) := do
  let digits := cs.take count
  if digits.length < count then none
  else
    let c ← char? (← Text.Hex.number? digits)
    some (c, cs.drop count)

/-- The character of an escape, from behind its backslash, and what follows it. -/
def escape? : List Char → Option (Char × List Char)
  | 'b' :: cs => some ('\x08', cs)
  | 't' :: cs => some ('\t', cs)
  | 'n' :: cs => some ('\n', cs)
  | 'f' :: cs => some ('\x0c', cs)
  | 'r' :: cs => some ('\r', cs)
  | 'e' :: cs => some ('\x1b', cs)
  | '"' :: cs => some ('"', cs)
  | '\\' :: cs => some ('\\', cs)
  | 'x' :: cs => numbered? 2 cs
  | 'u' :: cs => numbered? 4 cs
  | 'U' :: cs => numbered? 8 cs
  | _ => none

/-- A string of one line in double quotes, behind the characters already taken. The first argument
is a clock: it ticks once for each character, and starts as the text ahead. -/
def basicFrom : List Char → List Char → List Char → Option (String × List Char)
  | [], _, _ => none
  | _ :: clock, taken, cs =>
    match cs with
    | [] => none
    | '"' :: cs => some (String.ofList taken.reverse, cs)
    | '\\' :: cs => do
      let (c, cs) ← escape? cs
      basicFrom clock (c :: taken) cs
    | c :: cs => if isPlain c then basicFrom clock (c :: taken) cs else none

/-- A string of one line in double quotes. -/
def basic (cs : List Char) : Option (String × List Char) := basicFrom cs [] cs

/-- A string of one line in single quotes, behind the characters already taken. -/
def literalFrom : List Char → List Char → Option (String × List Char)
  | _, [] => none
  | taken, c :: cs =>
    if c = '\'' then some (String.ofList taken.reverse, cs)
    else if isPlain c then literalFrom (c :: taken) cs
    else none

/-- A string of one line in single quotes. -/
def literal (cs : List Char) : Option (String × List Char) := literalFrom [] cs

/-- Past a line end. -/
def lineEnd? : List Char → Option (List Char)
  | '\n' :: cs => some cs
  | '\r' :: '\n' :: cs => some cs
  | _ => none

/-- Past blanks and line ends. -/
def skipLines : List Char → List Char
  | '\r' :: '\n' :: cs => skipLines cs
  | c :: cs => if isSpace c || c == '\n' then skipLines cs else c :: cs
  | [] => []

/-- Past a backslash that ends a line, the line end and all blanks and line ends that follow. -/
def continued? (cs : List Char) : Option (List Char) :=
  (lineEnd? (cs.dropWhile isSpace)).map skipLines

/-- The end of a string in triple marks: from three up to five marks, of which those beyond three
belong to the string. The answer is how many do, and what follows. -/
def closing? (mark : Char) (cs : List Char) : Option (Nat × List Char) :=
  let marks := min 5 (cs.takeWhile (· == mark)).length
  if 3 ≤ marks then some (marks - 3, cs.drop marks) else none

/-- A string of many lines, behind the characters already taken. In double quotes a backslash starts
an escape or joins lines. The first list is a clock that starts as the text ahead. -/
def linesFrom (mark : Char) : List Char → List Char → List Char → Option (String × List Char)
  | [], _, _ => none
  | _ :: clock, taken, cs =>
    match closing? mark cs with
    | some (extra, cs) => some (String.ofList (List.replicate extra mark ++ taken).reverse, cs)
    | none =>
      match cs with
      | [] => none
      | '\n' :: cs => linesFrom mark clock ('\n' :: taken) cs
      | '\r' :: '\n' :: cs => linesFrom mark clock ('\n' :: '\r' :: taken) cs
      | c :: cs =>
        if c = '\\' ∧ mark = '"' then
          match continued? cs with
          | some cs => linesFrom mark clock taken cs
          | none => do
            let (c, cs) ← escape? cs
            linesFrom mark clock (c :: taken) cs
        else if isPlain c then linesFrom mark clock (c :: taken) cs
        else none

/-- A string of many lines. A line end right behind the opening marks does not belong to it. -/
def multiLine (mark : Char) (cs : List Char) : Option (String × List Char) :=
  let cs := (lineEnd? cs).getD cs
  linesFrom mark cs [] cs

end LegBoard.Toml
