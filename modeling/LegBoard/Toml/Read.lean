import LegBoard.Toml.Scalar
import LegBoard.Toml.Text

/-!
Reading a TOML document. A document is a sequence of lines that each hold a header, a key with its
value, or nothing; a value may span lines. Arrays and inline tables nest up to eighty deep, and a
key has up to eighty parts.
-/
namespace LegBoard.Toml

/-- Past the blanks of a line. -/
def skipSpace (cs : List Char) : List Char := cs.dropWhile isSpace

/-- Past blanks, line ends and comments. The first argument tells whether this is in a comment. -/
def skipFree : Bool → List Char → List Char
  | _, [] => []
  | _, '\r' :: '\n' :: cs => skipFree false cs
  | inComment, c :: cs =>
    if inComment && isPlain c then skipFree true cs
    else if isSpace c || c == '\n' then skipFree false cs
    else if c = '#' then skipFree true cs
    else c :: cs

/-- Past the end of a line: blanks, a comment, and a line end or the end of the text. -/
def endLine? (cs : List Char) : Option (List Char) :=
  let cs := skipSpace cs
  let cs := if cs.head? = some '#' then cs.dropWhile isPlain else cs
  if cs.isEmpty then some [] else lineEnd? cs

/-- A character of a key without quotes. -/
def isBare (c : Char) : Bool :=
  isDigit c || ('a' ≤ c && c ≤ 'z') || ('A' ≤ c && c ≤ 'Z') || c == '-' || c == '_'

/-- One part of a key, bare or as a string of one line. -/
def keyPart? (cs : List Char) : Option (String × List Char) :=
  match cs with
  | '"' :: cs => basic cs
  | '\'' :: cs => literal cs
  | _ =>
    let part := cs.takeWhile isBare
    if part = [] then none else some (String.ofList part, cs.dropWhile isBare)

/-- The parts of a key, with dots between them, and what follows it and its blanks. The first
argument is a clock: it ticks once for each part, and starts as the text ahead. -/
def keyFrom : List Char → List Char → Option (Key × List Char)
  | [], _ => none
  | _ :: clock, cs => do
    let (part, cs) ← keyPart? cs
    match skipSpace cs with
    | '.' :: cs =>
      let (key, cs) ← keyFrom clock (skipSpace cs)
      some ({ key with parents := part :: key.parents }, cs)
    | cs => some (⟨[], part⟩, cs)

/-- How deep arrays and inline tables may nest, and how many parts a key may have. -/
def greatestDepth : Nat := 80

/-- A key, and what follows it and its blanks. -/
def key? (cs : List Char) : Option (Key × List Char) := do
  let (key, cs) ← keyFrom cs cs
  if key.parents.length < greatestDepth then some (key, cs) else none

def pair? (value : List Char → Option (Value × List Char)) (cs : List Char) :
    Option ((Key × Value) × List Char) := do
  let (key, cs) ← key? cs
  let '=' :: cs := cs | none
  let (v, cs) ← value (skipSpace cs)
  some ((key, v), cs)

/-- Items up to a closing bracket, with commas between them and one allowed behind the last. The
first list is a clock: it ticks once for each item, and starts as the text ahead. -/
def items? {α : Type} (close : Char) (item : List Char → Option (α × List Char)) :
    List Char → List Char → Option (List α × List Char)
  | [], _ => none
  | _ :: clock, cs =>
    match skipFree false cs with
    | [] => none
    | c :: rest =>
      if c = close then some ([], rest)
      else do
        let (a, cs) ← item (c :: rest)
        match skipFree false cs with
        | [] => none
        | c :: rest =>
          if c = close then some ([a], rest)
          else if c = ',' then do
            let (as, cs) ← items? close item clock rest
            some (a :: as, cs)
          else none

/-- A string, from behind its first mark. Two more marks open one of many lines. -/
def quoted? (mark : Char) (cs : List Char) : Option (String × List Char) :=
  let oneLine := if mark = '"' then basic cs else literal cs
  match cs with
  | a :: b :: rest => if a = mark ∧ b = mark then multiLine mark rest else oneLine
  | _ => oneLine

/-- A value, with the reader of the values inside it, if it may hold any. -/
def valueWith? (inner : Option (List Char → Option (Value × List Char))) (cs : List Char) :
    Option (Value × List Char) :=
  match cs with
  | [] => none
  | c :: rest =>
    if c = '"' ∨ c = '\'' then do
      let (t, cs) ← quoted? c rest
      some (.text t, cs)
    else if c = '[' then do
      let (vs, cs) ← items? ']' (← inner) rest rest
      some (.array vs, cs)
    else if c = '{' then do
      let (pairs, cs) ← items? '}' (pair? (← inner)) rest rest
      let (origin, entries) ← insertAll pairs (.inlined, [])
      some (.table origin entries, cs)
    else scalar? cs

/-- A value. The first argument is how deep arrays and inline tables may still nest. -/
def value? : Nat → List Char → Option (Value × List Char)
  | 0 => valueWith? none
  | depth + 1 => valueWith? (some (value? depth))

/-- A header, from behind its first bracket. A second one makes it add to an array. -/
def header? (cs : List Char) : Option (Statement × List Char) := do
  let repeated := cs.head? == some '['
  let (key, cs) ← key? (skipSpace (if repeated then cs.tail else cs))
  match cs, repeated with
  | ']' :: ']' :: cs, true => some (.header key true, cs)
  | ']' :: cs, false => some (.header key false, cs)
  | _, _ => none

/-- The statements of a document. The first argument is a clock: it ticks once for each line, and
starts as the text ahead. -/
def statementsFrom : List Char → List Char → Option (List Statement)
  | [], _ => some []
  | _ :: clock, cs =>
    match skipSpace cs with
    | [] => some []
    | '[' :: cs => do
      let (statement, cs) ← header? cs
      let rest ← statementsFrom clock (← endLine? cs)
      some (statement :: rest)
    | c :: cs => do
      if c = '#' ∨ c = '\n' ∨ c = '\r' then statementsFrom clock (← endLine? (c :: cs))
      else
        let ((key, v), cs) ← pair? (value? greatestDepth) (c :: cs)
        let rest ← statementsFrom clock (← endLine? cs)
        some (.pair key v :: rest)

/-- The statements of a document. A byte order mark at its start does not count. -/
def statements? (text : String) : Option (List Statement) :=
  let cs := match text.toList with
    | '\uFEFF' :: cs => cs
    | cs => cs
  statementsFrom cs cs

def parse? (text : String) : Option Table := do
  root? (← statements? text)

end LegBoard.Toml
