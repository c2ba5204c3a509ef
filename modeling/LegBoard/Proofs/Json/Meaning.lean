import LegBoard.Json.Shape
import LegBoard.Proofs.Json.Grammar

/-!
# What a document means

The value that a shape finds in a document, said of the document alone: no text, no order of
reading, no place of a fault.
-/
namespace LegBoard.Json

/-- A name, given as a text or as the only key of an object. -/
def tagOf? : Document → Option String
  | .text units => textOf? units
  | .object [(key, .null)] => textOf? key
  | _ => none

/-- The members of an object by name, if every key is a text. -/
def named? (ms : List (Units × Document)) : Option (List (String × Document)) :=
  ms.mapM fun m => (textOf? m.1).map (·, m.2)

/-- What a field gets from the members that have its name: the value of the only one, and something
blank if there is none. -/
def sole? {α : Type} (blank : α) (value? : Document → Option α) :
    List (String × Document) → Option α
  | [] => some blank
  | [m] => value? m.2
  | _ => none

mutual

/-- The value of a shape that a document stands for, if it stands for one. -/
def Shape.valueOf? : (shape : Shape) → Document → Option shape.Value
  | .text, d =>
    match d with
    | .text units => textOf? units
    | _ => none
  | .tag, d => tagOf? d
  | .optional inner, d =>
    match d with
    | .null => some none
    | d => (inner.valueOf? d).map some
  | .list item, d =>
    match d with
    | .list ds => ds.mapM fun d => item.valueOf? d
    | _ => none
  | .record _ whole fields, d =>
    match d with
    | .list ds =>
      if fields.size < ds.length ∨ whole = true ∧ ds.length < fields.size then none
      else fields.inOrder? ds
    | .object ms => (named? ms).bind fun ms => fields.byName? ms
    | _ => none

/-- The values of a record's fields in order, blank where the list has ended. -/
def Fields.inOrder? : (fields : Fields) → List Document → Option fields.Values
  | .nil, _ => some ()
  | .cons _ shape rest, [] => some (shape.blank, rest.blank)
  | .cons _ shape rest, d :: ds => do
    let v ← shape.valueOf? d
    let vs ← rest.inOrder? ds
    some (v, vs)

/-- The values of a record's fields by name, blank where no member has it. No name is given
twice; other members do not count. -/
def Fields.byName? : (fields : Fields) → List (String × Document) → Option fields.Values
  | .nil, _ => some ()
  | .cons name shape rest, ms => do
    let v ← sole? shape.blank (fun d => shape.valueOf? d) (ms.filter (·.1 = name))
    let vs ← rest.byName? (ms.filter (·.1 ≠ name))
    some (v, vs)

end

theorem pair_eq_some {α β : Type} {x : Option α} {y : Option β} {r : α × β} :
    (x.bind fun a => y.bind fun b => some (a, b)) = some r ↔
      ∃ a b, x = some a ∧ y = some b ∧ (a, b) = r := by
  cases x <;> cases y <;> simp

theorem Fields.inOrder?_nil (fields : Fields) : fields.inOrder? [] = some fields.blank := by
  cases fields <;> rfl

theorem Fields.inOrder?_cons {name : String} {shape : Shape} {rest : Fields} {d : Document}
    {ds : List Document} {vs : (Fields.cons name shape rest).Values} :
    (Fields.cons name shape rest).inOrder? (d :: ds) = some vs ↔
      ∃ v vs', shape.valueOf? d = some v ∧ rest.inOrder? ds = some vs' ∧ (v, vs') = vs :=
  pair_eq_some

theorem Fields.byName?_cons {name : String} {shape : Shape} {rest : Fields}
    {ms : List (String × Document)} {vs : (Fields.cons name shape rest).Values} :
    (Fields.cons name shape rest).byName? ms = some vs ↔
      ∃ v vs', sole? shape.blank (fun d => shape.valueOf? d) (ms.filter (·.1 = name)) = some v ∧
        rest.byName? (ms.filter (·.1 ≠ name)) = some vs' ∧ (v, vs') = vs :=
  pair_eq_some

theorem valueOf?_optional {d : Document} (h : d ≠ .null) (inner : Shape) :
    (Shape.optional inner).valueOf? d = (inner.valueOf? d).map some := by
  cases d
  case null => exact absurd rfl h
  all_goals rfl

theorem valueOf?_record_list {name : String} {whole : Bool} {fields : Fields} {ds : List Document}
    (hfits : ¬(fields.size < ds.length ∨ whole = true ∧ ds.length < fields.size)) :
    (Shape.record name whole fields).valueOf? (.list ds) = fields.inOrder? ds := by
  unfold Shape.valueOf?
  dsimp only [Shape.Value]
  rw [if_neg hfits]

theorem valueOf?_record_object (name : String) (whole : Bool) (fields : Fields)
    (ms : List (Units × Document)) :
    (Shape.record name whole fields).valueOf? (.object ms) =
      (named? ms).bind fun ms => fields.byName? ms := by
  unfold Shape.valueOf?
  rfl

end LegBoard.Json
