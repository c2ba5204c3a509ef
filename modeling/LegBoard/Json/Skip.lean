import LegBoard.Json.Numeral
import LegBoard.Json.Text

/-!
Values whose content is not asked for. They are checked to be JSON and passed over. A stack of the
brackets still open stands in for recursion, so nesting has no limit.
-/
namespace LegBoard.Json

/-- The characters still due of a word of which the first has been taken. -/
def word : List Char → Cursor → Except Fault Cursor
  | [], s => .ok s
  | c :: cs, s =>
    match s.rest with
    | [] => .error (s.here .endInValue)
    | d :: _ => if d = c then word cs s.step else .error (s.ahead .misspeltWord)

/-- Past the colon behind a member's key. -/
def colon (s : Cursor) : Except Fault Cursor :=
  let s := s.skipBlank
  match s.rest with
  | [] => .error (s.ahead .endInObject)
  | ':' :: _ => .ok s.step
  | _ => .error (s.ahead .expectedColon)

/-- A bracket that is still open. -/
inductive Frame where
  | list
  | object
deriving DecidableEq, Repr

namespace Frame

def close : Frame → Char
  | .list => ']'
  | .object => '}'

/-- The cause when the text ends before it is closed. -/
def ended : Frame → Problem
  | .list => .endInList
  | .object => .endInObject

/-- The cause when neither a comma nor the closing bracket follows an item. -/
def expectedEnd : Frame → Problem
  | .list => .expectedListEnd
  | .object => .expectedObjectEnd

/-- Up to the value of the next item: an object's item starts with a key. -/
def enterItem : Frame → Cursor → Except Fault Cursor
  | .list, s => .ok s
  | .object, s =>
    let s := s.skipBlank
    match s.rest with
    | [] => .error (s.ahead .endInObject)
    | '"' :: _ => skipText s.step >>= colon
    | _ => .error (s.ahead .keyNotText)

/-- Behind an opening bracket: past the closing one, or up to the value of the first item. The
answer says whether an item follows. -/
def enter (frame : Frame) (s : Cursor) : Except Fault (Bool × Cursor) :=
  let s := s.skipBlank
  match s.rest with
  | [] => .error (s.ahead frame.ended)
  | c :: _ =>
    if c = frame.close then .ok (false, s.step) else (frame.enterItem s).map (true, ·)

end Frame

/-- Past a value that holds no other, or into the first item of one that does. The answer is the
bracket that was left open. -/
def skipHead (s : Cursor) : Except Fault (Option Frame × Cursor) :=
  let s := s.skipBlank
  let opened (frame : Frame) : Except Fault (Option Frame × Cursor) := do
    let (more, s) ← frame.enter s.step
    .ok (if more then some frame else none, s)
  match s.rest with
  | [] => .error (s.ahead .endInValue)
  | 'n' :: _ => (word ['u', 'l', 'l'] s.step).map (none, ·)
  | 't' :: _ => (word ['r', 'u', 'e'] s.step).map (none, ·)
  | 'f' :: _ => (word ['a', 'l', 's', 'e'] s.step).map (none, ·)
  | '"' :: _ => (skipText s.step).map (none, ·)
  | '[' :: _ => opened .list
  | '{' :: _ => opened .object
  | c :: _ =>
    if c == '-' || isDigit c then do
      let (_, s) ← Numeral.scan .invalidNumber s
      .ok (none, s)
    else .error (s.ahead .expectedValue)

/-- Behind a value: past all brackets that close here. The answer is the brackets still open, up to
the value of the next item, or none of them when the outermost value has ended. -/
def unwind : List Frame → Cursor → Except Fault (List Frame × Cursor)
  | [], s => .ok ([], s)
  | frame :: frames, s =>
    let s := s.skipBlank
    match s.rest with
    | [] => .error (s.ahead frame.ended)
    | c :: _ =>
      if c = ',' then do
        let s ← frame.enterItem s.step
        .ok (frame :: frames, s)
      else if c = frame.close then unwind frames s.step
      else .error (s.ahead frame.expectedEnd)

/-- Past a value and the rest of the brackets open around it. The first argument is a clock: it
ticks once for each value, and starts as the text ahead. -/
def skipFrom : List Char → List Frame → Cursor → Except Fault Cursor
  | [], _, s => .error (s.ahead .endInValue)
  | _ :: clock, frames, s => do
    match ← skipHead s with
    | (some frame, s) => skipFrom clock (frame :: frames) s
    | (none, s) =>
      match ← unwind frames s with
      | ([], s) => .ok s
      | (frames, s) => skipFrom clock frames s

def skipValue (s : Cursor) : Except Fault Cursor := skipFrom s.rest [] s

end LegBoard.Json
