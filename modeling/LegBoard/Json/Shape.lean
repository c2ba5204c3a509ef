/-!
What a JSON text is asked to hold. A `Shape` says which values are wanted, `Shape.Value` is the
type of what is then known, and a record's `Fields` are its keys in order. Every shape has a value
that stands for a field not given.
-/
namespace LegBoard.Json

mutual

/-- A wanted value. -/
inductive Shape where
  | text
  /-- A name: a string, or an object whose only key is the name and whose value is `null`. -/
  | tag
  /-- A value, or `null`. -/
  | optional (inner : Shape)
  | list (item : Shape)
  /-- An object with known keys, or a list of their values in order. If `whole` is set, such a
  list must not be too short. -/
  | record (name : String) (whole : Bool) (fields : Fields)

/-- The known keys of a record and their shapes. -/
inductive Fields where
  | nil
  | cons (name : String) (shape : Shape) (rest : Fields)

end

mutual

/-- What is known of a value of a shape. -/
def Shape.Value : Shape → Type
  | .text => String
  | .tag => String
  | .optional inner => Option inner.Value
  | .list item => List item.Value
  | .record _ _ fields => fields.Values

/-- What is known of all the fields of a record. -/
def Fields.Values : Fields → Type
  | .nil => Unit
  | .cons _ shape rest => shape.Value × rest.Values

end

/-- What is known of the fields of a record so far. -/
def Fields.Slots : Fields → Type
  | .nil => Unit
  | .cons _ shape rest => Option shape.Value × rest.Slots

def Fields.noSlots : (fields : Fields) → fields.Slots
  | .nil => ()
  | .cons _ _ rest => (none, rest.noSlots)

def Fields.size : Fields → Nat
  | .nil => 0
  | .cons _ _ rest => rest.size + 1

def Fields.given : (fields : Fields) → fields.Slots → Nat
  | .nil, _ => 0
  | .cons _ _ rest, (slot, slots) => (if slot.isSome then 1 else 0) + rest.given slots

mutual

/-- The value that stands for a field not given. -/
def Shape.blank : (shape : Shape) → shape.Value
  | .text => ""
  | .tag => ""
  | .optional _ => none
  | .list _ => []
  | .record _ _ fields => fields.blank

/-- All fields of a record not given. -/
def Fields.blank : (fields : Fields) → fields.Values
  | .nil => ()
  | .cons _ shape rest => (shape.blank, rest.blank)

end

/-- The fields of a record, blank where nothing is known. -/
def Fields.fill : (fields : Fields) → fields.Slots → fields.Values
  | .nil, _ => ()
  | .cons _ shape rest, (slot, slots) => (slot.getD shape.blank, rest.fill slots)

end LegBoard.Json
