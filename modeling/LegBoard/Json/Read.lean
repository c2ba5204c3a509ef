import LegBoard.Json.Shape
import LegBoard.Json.Skip

/-!
Reading a JSON text of a wanted shape. The text is read once, from left to right, and the first
fault met is the one reported. Keys that a record does not know are passed over with their values,
keys that it knows may come in any order but only once, and a field not given is blank.
-/
namespace LegBoard.Json

/-- The fault of a value that is not the one expected. Simple values are taken first, so a value
that is not even JSON is reported as such. -/
def mismatch (expected : String) (s : Cursor) : Fault :=
  let wrong (found : Found) (s : Cursor) : Fault := s.here (.wrongType found expected)
  let afterWord (found : Found) : Except Fault Cursor → Fault
    | .ok s => wrong found s
    | .error fault => fault
  let afterValue : Except Fault (Found × Cursor) → Fault
    | .ok (found, s) => wrong found s
    | .error fault => fault
  match s.rest with
  | [] => s.ahead .endInValue
  | 'n' :: _ => afterWord .null (word ['u', 'l', 'l'] s.step)
  | 't' :: _ => afterWord (.boolean true) (word ['r', 'u', 'e'] s.step)
  | 'f' :: _ => afterWord (.boolean false) (word ['a', 'l', 's', 'e'] s.step)
  | '"' :: _ => afterValue ((readText s.step).map fun (t, s) => (.text t, s))
  | '[' :: _ => wrong .list s
  | '{' :: _ => wrong .object s
  | c :: _ =>
    if c == '-' || isDigit c then afterValue (readNumber s) else s.ahead .expectedValue

/-- Whether a list goes on, from behind its bracket or an element, up to the next element. -/
def nextElement (first : Bool) (s : Cursor) : Except Fault (Bool × Cursor) :=
  let s := s.skipBlank
  match s.rest with
  | [] => .error (s.ahead .endInList)
  | ']' :: _ => .ok (false, s)
  | c :: _ =>
    if first then .ok (true, s)
    else if c = ',' then
      let s := s.step.skipBlank
      match s.rest with
      | [] => .error (s.ahead .endInValue)
      | ']' :: _ => .error (s.ahead .trailingComma)
      | _ => .ok (true, s)
    else .error (s.ahead .expectedListEnd)

/-- Past the bracket that closes a list of which no more is wanted. -/
def endList (s : Cursor) : Except Fault Cursor :=
  let s := s.skipBlank
  match s.rest with
  | [] => .error (s.ahead .endInList)
  | ']' :: _ => .ok s.step
  | ',' :: _ =>
    let s := s.step.skipBlank
    if s.nextIs (· == ']') then .error (s.ahead .trailingComma)
    else .error (s.ahead .trailingText)
  | _ => .error (s.ahead .trailingText)

/-- The key of the next member of an object, from behind its brace or a member, if it goes on. -/
def nextKey (first : Bool) (s : Cursor) : Except Fault (Option String × Cursor) :=
  let key (s : Cursor) : Except Fault (Option String × Cursor) := do
    let (name, s) ← readText s.step
    .ok (some name, s)
  let s := s.skipBlank
  match s.rest with
  | [] => .error (s.ahead .endInObject)
  | '}' :: _ => .ok (none, s)
  | c :: _ =>
    if first then if c = '"' then key s else .error (s.ahead .keyNotText)
    else if c = ',' then
      let s := s.step.skipBlank
      match s.rest with
      | [] => .error (s.ahead .endInValue)
      | '"' :: _ => key s
      | '}' :: _ => .error (s.ahead .trailingComma)
      | _ => .error (s.ahead .keyNotText)
    else .error (s.ahead .expectedObjectEnd)

/-- The fault of a key given twice, blamed on the end of the object if that follows at once. -/
def duplicate (name : String) (s : Cursor) : Fault :=
  let s := s.skipBlank
  (if s.nextIs (· == '}') then s.step else s).here (.duplicateField name)

/-- The elements of a list, behind those already taken. The list of characters is a clock: it ticks
once for each element, and starts as the text ahead. -/
def elements {α : Type} (item : Cursor → Except Fault (α × Cursor)) :
    List Char → Bool → List α → Cursor → Except Fault (List α × Cursor)
  | [], _, _, s => .error (s.ahead .endInList)
  | _ :: clock, first, taken, s => do
    let (more, s) ← nextElement first s
    if more then
      let (a, s) ← item s
      elements item clock false (a :: taken) s
    else .ok (taken.reverse, s.step)

/-- The members of an object, each added to what is known from those before it. The list of
characters is a clock: it ticks once for each member, and starts as the text ahead. -/
def members {σ : Type} (member : String → σ → Cursor → Except Fault (σ × Cursor)) :
    List Char → Bool → σ → Cursor → Except Fault (σ × Cursor)
  | [], _, _, s => .error (s.ahead .endInObject)
  | _ :: clock, first, known, s => do
    match ← nextKey first s with
    | (none, s) => .ok (known, s.step)
    | (some key, s) =>
      let (known, s) ← member key known s
      members member clock false known s

/-- A name, as a string or as the only key of an object. -/
def readTag (s : Cursor) : Except Fault (String × Cursor) :=
  let s := s.skipBlank
  match s.rest with
  | [] => .error (s.ahead .endInValue)
  | '"' :: _ => readText s.step
  | '{' :: _ =>
    let s := s.step.skipBlank
    match s.rest with
    | [] => .error (s.ahead .endInValue)
    | '"' :: _ => do
      let (name, s) ← readText s.step
      let s ← colon s
      let s := s.skipBlank
      match s.rest with
      | [] => .error (s.ahead .endInValue)
      | 'n' :: _ =>
        let s ← word ['u', 'l', 'l'] s.step
        let s := s.skipBlank
        match s.rest with
        | [] => .error (s.here .endInObject)
        | '}' :: _ => .ok (name, s.step)
        | _ => .error (s.here .expectedValue)
      | _ => .error (mismatch "unit" s)
    | _ => .error (s.ahead .keyNotText)
  | _ => .error (s.ahead .expectedValue)

mutual

/-- Takes a value of a shape off a text. -/
def Shape.read : (shape : Shape) → Cursor → Except Fault (shape.Value × Cursor)
  | .text, s =>
    let s := s.skipBlank
    match s.rest with
    | [] => .error (s.ahead .endInValue)
    | '"' :: _ => readText s.step
    | _ => .error (mismatch "a string" s)
  | .tag, s => readTag s
  | .optional inner, s =>
    let s := s.skipBlank
    match s.rest with
    | 'n' :: _ => do
      let s ← word ['u', 'l', 'l'] s.step
      .ok (none, s)
    | _ => do
      let (v, s) ← inner.read s
      .ok (some v, s)
  | .list item, s =>
    let s := s.skipBlank
    match s.rest with
    | [] => .error (s.ahead .endInValue)
    | '[' :: rest => elements (fun s => item.read s) rest true [] s.step
    | _ => .error (mismatch "a sequence" s)
  | .record name whole fields, s =>
    let s := s.skipBlank
    match s.rest with
    | [] => .error (s.ahead .endInValue)
    | '[' :: _ => do
      let (slots, s) ← fields.readInOrder true s.step
      let given := fields.given slots
      if whole && given < fields.size then
        .error (s.step.here (.missingFields given fields.size name))
      else
        let s ← endList s
        .ok (fields.fill slots, s)
    | '{' :: rest => do
      let (slots, s) ←
        members (fun key slots s => fields.readMember key slots s) rest true
          fields.noSlots s.step
      .ok (fields.fill slots, s)
    | _ => .error (mismatch ("struct " ++ name) s)

/-- The values of a record's fields, written as a list, as far as the list goes. -/
def Fields.readInOrder : (fields : Fields) → Bool → Cursor → Except Fault (fields.Slots × Cursor)
  | .nil, _, s => .ok ((), s)
  | .cons _ shape rest, first, s => do
    let (more, s) ← nextElement first s
    if more then
      let (v, s) ← shape.read s
      let (slots, s) ← rest.readInOrder false s
      .ok ((some v, slots), s)
    else .ok ((none, rest.noSlots), s)

/-- The rest of a member behind its key, added to what is known. -/
def Fields.readMember :
    (fields : Fields) → String → fields.Slots → Cursor → Except Fault (fields.Slots × Cursor)
  | .nil, _, _, s => do
    let s ← colon s
    let s ← skipValue s
    .ok ((), s)
  | .cons name shape rest, key, (slot, slots), s =>
    if key = name then
      if slot.isSome then .error (duplicate name s)
      else do
        let s ← colon s
        let (v, s) ← shape.read s
        .ok ((some v, slots), s)
    else do
      let (slots, s) ← rest.readMember key slots s
      .ok ((slot, slots), s)

end

/-- Reads a whole text. Only blanks may surround the value. -/
def Shape.readAll (shape : Shape) (text : String) : Except Fault shape.Value := do
  let (v, s) ← shape.read (.ofList text.toList)
  let s := s.skipBlank
  if s.rest.isEmpty then .ok v else .error (s.ahead .trailingText)

end LegBoard.Json
