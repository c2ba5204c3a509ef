import LegBoard.Json.Fault
import LegBoard.Text.Hex

/-!
Strings of a JSON text. `readText` takes a string whose content is asked for and decodes it;
`skipText` takes one whose content is not, and checks only the form of its escapes. `writeText`
writes the content back with the fewest escapes.
-/
namespace LegBoard.Json

/-- A character that a string may only hold escaped, besides the quote and the backslash. -/
def isControl (c : Char) : Bool := c.toNat < 0x20

/-- The character that a one-letter escape stands for. -/
def shortEscape? : Char → Option Char
  | '"' => some '"'
  | '\\' => some '\\'
  | '/' => some '/'
  | 'b' => some '\x08'
  | 'f' => some '\x0c'
  | 'n' => some '\n'
  | 'r' => some '\r'
  | 't' => some '\t'
  | _ => none

/-- How many bytes characters take. -/
def byteSize (cs : List Char) : Nat := cs.foldr (fun c size => c.utf8Size + size) 0

/-- Four hexadecimal digits, the number of a UTF-16 unit. Fewer than four bytes end the text; four
bytes that are not all digits are passed before the escape is refused. -/
def hexUnit (s : Cursor) : Except Fault (Nat × Cursor) :=
  let digits := s.rest.take 4
  if byteSize digits < 4 then .error (s.finish.here .endInText)
  else
    match Text.Hex.number? digits with
    | some unit => .ok (unit, s.step.step.step.step)
    | none => .error ⟨.invalidEscape, .afterBytes 4 s.position s.rest⟩

def isFirstHalf (unit : Nat) : Bool := 0xD800 ≤ unit && unit ≤ 0xDBFF

def isSecondHalf (unit : Nat) : Bool := 0xDC00 ≤ unit && unit ≤ 0xDFFF

/-- The character that a pair of UTF-16 units stands for. -/
def pairChar (first second : Nat) : Char :=
  Char.ofNat (0x10000 + (first - 0xD800) * 0x400 + (second - 0xDC00))

/-- The second half of a surrogate pair, written as an escape of its own. -/
def secondHalf (first : Nat) (s : Cursor) : Except Fault (Char × Cursor) :=
  match s.rest with
  | [] => .error (s.here .endInText)
  | '\\' :: [] => .error (s.step.here .endInText)
  | '\\' :: 'u' :: _ => do
    let (second, s) ← hexUnit s.step.step
    if isSecondHalf second then .ok (pairChar first second, s)
    else .error (s.here .loneSurrogate)
  | '\\' :: _ => .error (s.step.ahead .unfinishedPair)
  | _ => .error (s.ahead .unfinishedPair)

/-- The character of an escape, from behind its backslash. -/
def readEscape (s : Cursor) : Except Fault (Char × Cursor) :=
  match s.rest with
  | [] => .error (s.here .endInText)
  | 'u' :: _ => do
    let (unit, s) ← hexUnit s.step
    if isSecondHalf unit then .error (s.here .loneSurrogate)
    else if isFirstHalf unit then secondHalf unit s
    else .ok (Char.ofNat unit, s)
  | c :: _ =>
    match shortEscape? c with
    | some decoded => .ok (decoded, s.step)
    | none => .error (s.ahead .invalidEscape)

/-- The characters of a string up to its closing quote, in front of those already taken. The
first argument is a clock: it ticks once for each character, and starts as the text ahead. -/
def textFrom : List Char → List Char → Cursor → Except Fault (List Char × Cursor)
  | [], _, s => .error (s.here .endInText)
  | _ :: clock, taken, s =>
    match s.rest with
    | [] => .error (s.here .endInText)
    | '"' :: _ => .ok (taken.reverse, s.step)
    | '\\' :: _ => do
      let (c, s) ← readEscape s.step
      textFrom clock (c :: taken) s
    | c :: _ =>
      if isControl c then .error (s.ahead .controlCharacter)
      else textFrom clock (c :: taken) s.step

/-- The content of a string, from behind its opening quote. -/
def readText (s : Cursor) : Except Fault (String × Cursor) := do
  let (cs, s) ← textFrom s.rest [] s
  .ok (String.ofList cs, s)

/-- Past an escape whose meaning is not asked for, from behind its backslash. -/
def skipEscape (s : Cursor) : Except Fault Cursor :=
  match s.rest with
  | [] => .error (s.here .endInText)
  | 'u' :: _ => do
    let (_, s) ← hexUnit s.step
    .ok s
  | c :: _ =>
    if (shortEscape? c).isSome then .ok s.step else .error (s.ahead .invalidEscape)

/-- Past the rest of a string. The first argument is a clock that starts as the text ahead. -/
def skipTextFrom : List Char → Cursor → Except Fault Cursor
  | [], s => .error (s.here .endInText)
  | _ :: clock, s =>
    match s.rest with
    | [] => .error (s.here .endInText)
    | '"' :: _ => .ok s.step
    | '\\' :: _ => do
      let s ← skipEscape s.step
      skipTextFrom clock s
    | c :: _ =>
      if isControl c then .error (s.here .controlCharacter)
      else skipTextFrom clock s.step

/-- Past a string whose content is not asked for, from behind its opening quote. -/
def skipText (s : Cursor) : Except Fault Cursor := skipTextFrom s.rest s

/-- One character of a string as it is written. -/
def writeChar (c : Char) : List Char :=
  match c with
  | '"' => ['\\', '"']
  | '\\' => ['\\', '\\']
  | '\x08' => ['\\', 'b']
  | '\t' => ['\\', 't']
  | '\n' => ['\\', 'n']
  | '\x0c' => ['\\', 'f']
  | '\r' => ['\\', 'r']
  | c => if isControl c then ['\\', 'u', '0', '0'] ++ Text.Hex.lowerByte c.toNat else [c]

def writeText (s : String) : List Char :=
  '"' :: s.toList.flatMap writeChar ++ ['"']

end LegBoard.Json
