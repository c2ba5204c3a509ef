/-!
Values of a TOML document and the rules by which its tables grow. A table knows how it came to be,
because that decides what may still be added to it: a header may complete a table that was only
implied by deeper headers, a dotted key may extend a table that dotted keys made, and an inline
table is finished where it is written.
-/
namespace LegBoard.Toml

inductive Origin where
  /-- It stands on the way to the table of a header. -/
  | implied
  /-- It has a header of its own, or is the root. -/
  | header
  /-- It stands on the way to the value of a dotted key. -/
  | dotted
  /-- It is written as a value. -/
  | inlined
deriving DecidableEq, Repr

/-- A value. Of numbers, booleans and dates only the kind is kept. -/
inductive Value where
  | text (content : String)
  | boolean
  | integer
  | float
  /-- A number beyond the range of its kind. -/
  | oversized
  | dateTime
  | array (items : List Value)
  /-- An array of tables with headers of their own, the last one first. -/
  | tables (items : List (Origin × List (String × Value)))
  | table (origin : Origin) (entries : List (String × Value))

/-- A table: how it came to be, and its entries in order. -/
abbrev Table := Origin × List (String × Value)

mutual

/-- No number in a value is beyond the range of its kind. -/
def Value.fits : Value → Bool
  | .oversized => false
  | .array items => itemsFit items
  | .tables items => tablesFit items
  | .table _ entries => entriesFit entries
  | _ => true

def itemsFit : List Value → Bool
  | [] => true
  | value :: items => value.fits && itemsFit items

def tablesFit : List (Origin × List (String × Value)) → Bool
  | [] => true
  | (_, entries) :: items => entriesFit entries && tablesFit items

def entriesFit : List (String × Value) → Bool
  | [] => true
  | (_, value) :: entries => value.fits && entriesFit entries

end

/-- A key with the tables that lead to it. -/
structure Key where
  parents : List String
  name : String
deriving DecidableEq, Repr

def find? (name : String) (entries : List (String × Value)) : Option Value :=
  (entries.find? fun entry => entry.1 == name).map Prod.snd

/-- The entries with the value of a key replaced, or added at the end. -/
def put (name : String) (value : Value) : List (String × Value) → List (String × Value)
  | [] => [(name, value)]
  | entry :: entries =>
    if entry.1 = name then (name, value) :: entries else entry :: put name value entries

/-- Changes the table at a path. Tables that are missing on the way are made with the origin
`made`: `implied` for the path of a header, `dotted` for that of a key. The way leads through the
last table of an array of tables, and not through an inline table or any other value; that of a
dotted key does not lead through a table with a header. -/
def descend (made : Origin) (change : Table → Option Table) : List String → Table → Option Table
  | [], table => change table
  | name :: path, (origin, entries) =>
    match find? name entries with
    | none => do
      let (o, es) ← descend made change path (made, [])
      some (origin, put name (.table o es) entries)
    | some (.table o es) =>
      if o = .inlined ∨ (made = .dotted ∧ o = .header) then none
      else do
        let (o, es) ← descend made change path (o, es)
        some (origin, put name (.table o es) entries)
    | some (.tables (last :: others)) => do
      let last ← descend made change path last
      some (origin, put name (.tables (last :: others)) entries)
    | some _ => none

/-- Adds an entry to a table. A key is given once, and the tables of a dotted key are made by
dotted keys alone. -/
def insert (key : Key) (value : Value) (table : Table) : Option Table :=
  descend .dotted (fun (origin, entries) =>
    if (origin = .dotted) ≠ (key.parents ≠ []) then none
    else if (find? key.name entries).isSome then none
    else some (origin, entries ++ [(key.name, value)])) key.parents table

/-- Adds entries to a table, one after the other. -/
def insertAll (pairs : List (Key × Value)) (table : Table) : Option Table :=
  pairs.foldlM (fun table pair => insert pair.1 pair.2 table) table

/-- A header and the entries below it. -/
structure Section where
  key : Key
  /-- Whether the header adds a table to an array. -/
  repeated : Bool
  pairs : List (Key × Value)

/-- Adds the table of a header to the root. -/
def insertSection (root : Table) (block : Section) : Option Table :=
  let name := block.key.name
  descend .implied (fun (origin, entries) =>
    match find? name entries, block.repeated with
    | none, false => do
      let (o, es) ← insertAll block.pairs (.header, [])
      some (origin, put name (.table o es) entries)
    | some (.table .implied es), false => do
      let (o, es) ← insertAll block.pairs (.header, es)
      some (origin, put name (.table o es) entries)
    | none, true => do
      let table ← insertAll block.pairs (.header, [])
      some (origin, put name (.tables [table]) entries)
    | some (.tables items), true => do
      let table ← insertAll block.pairs (.header, [])
      some (origin, put name (.tables (table :: items)) entries)
    | _, _ => none) block.key.parents root

/-- A line of a document that says something. -/
inductive Statement where
  | pair (key : Key) (value : Value)
  | header (key : Key) (repeated : Bool)

/-- The entries before the first header, and the sections. -/
def divide : List Statement → List (Key × Value) × List Section
  | [] => ([], [])
  | .pair key value :: rest =>
    let (pairs, sections) := divide rest
    ((key, value) :: pairs, sections)
  | .header key repeated :: rest =>
    let (pairs, sections) := divide rest
    ([], ⟨key, repeated, pairs⟩ :: sections)

/-- The root table of a document, or `none` if its statements contradict each other. -/
def root? (statements : List Statement) : Option Table := do
  let (pairs, sections) := divide statements
  let root ← insertAll pairs (.header, [])
  sections.foldlM insertSection root

end LegBoard.Toml
