import LegBoard.Toml.Value

/-!
# The rules of TOML tables

Which tables come of which statements. A rule splits a table where it is changed, and says what
stands there before and after. The program makes a table of a document exactly where the rules do.
-/
namespace LegBoard.Toml

variable {name : String} {entries front back : List (String × Value)}

/-! ## The rules -/

/-- No entry has this name. -/
def Absent (name : String) (entries : List (String × Value)) : Prop :=
  ∀ entry ∈ entries, entry.1 ≠ name

/-- The table at a path is changed. Tables that are missing on the way are made with the origin
`made`. The way leads through the last table of an array of tables, which for a dotted key is more
than TOML itself allows. It does not lead through an inline table, and that of a dotted key not
through a table with a header. -/
inductive ChangesAt (made : Origin) (change : Table → Table → Prop) :
    List String → Table → Table → Prop
  | here {table table' : Table} (h : change table table') : ChangesAt made change [] table table'
  | missing {name : String} {path : List String} {origin o : Origin}
      {entries es : List (String × Value)} (habsent : Absent name entries)
      (h : ChangesAt made change path (made, []) (o, es)) :
      ChangesAt made change (name :: path) (origin, entries)
        (origin, entries ++ [(name, .table o es)])
  | table {name : String} {path : List String} {origin o o' : Origin}
      {front back es es' : List (String × Value)} (habsent : Absent name front)
      (hinlined : o ≠ .inlined) (hheader : made = .dotted → o ≠ .header)
      (h : ChangesAt made change path (o, es) (o', es')) :
      ChangesAt made change (name :: path) (origin, front ++ (name, .table o es) :: back)
        (origin, front ++ (name, .table o' es') :: back)
  | tables {name : String} {path : List String} {origin : Origin}
      {front back : List (String × Value)} {last last' : Table} {others : List Table}
      (habsent : Absent name front) (h : ChangesAt made change path last last') :
      ChangesAt made change (name :: path)
        (origin, front ++ (name, .tables (last :: others)) :: back)
        (origin, front ++ (name, .tables (last' :: others)) :: back)

/-- A key is given once, and the tables of a dotted key are made by dotted keys alone. -/
inductive Gains (key : Key) (value : Value) : Table → Table → Prop
  | mk {origin : Origin} {entries : List (String × Value)}
      (horigin : origin = .dotted ↔ key.parents ≠ []) (habsent : Absent key.name entries) :
      Gains key value (origin, entries) (origin, entries ++ [(key.name, value)])

/-- The entries of a table are added, one after the other. -/
inductive GainsAll : List (Key × Value) → Table → Table → Prop
  | nil {table : Table} : GainsAll [] table table
  | cons {key : Key} {value : Value} {pairs : List (Key × Value)} {table table' table'' : Table}
      (h : ChangesAt .dotted (Gains key value) key.parents table table')
      (hrest : GainsAll pairs table' table'') : GainsAll ((key, value) :: pairs) table table''

/-- A header makes a table or a further one of an array, or completes a table that was only implied
by deeper headers. -/
inductive Opens (name : String) (pairs : List (Key × Value)) : Bool → Table → Table → Prop
  | new {origin o : Origin} {entries es : List (String × Value)} (habsent : Absent name entries)
      (h : GainsAll pairs (.header, []) (o, es)) :
      Opens name pairs false (origin, entries) (origin, entries ++ [(name, .table o es)])
  | implied {origin o : Origin} {front back es es' : List (String × Value)}
      (habsent : Absent name front) (h : GainsAll pairs (.header, es) (o, es')) :
      Opens name pairs false (origin, front ++ (name, .table .implied es) :: back)
        (origin, front ++ (name, .table o es') :: back)
  | first {origin : Origin} {entries : List (String × Value)} {table : Table}
      (habsent : Absent name entries) (h : GainsAll pairs (.header, []) table) :
      Opens name pairs true (origin, entries) (origin, entries ++ [(name, .tables [table])])
  | next {origin : Origin} {front back : List (String × Value)} {table : Table}
      {tables : List Table} (habsent : Absent name front)
      (h : GainsAll pairs (.header, []) table) :
      Opens name pairs true (origin, front ++ (name, .tables tables) :: back)
        (origin, front ++ (name, .tables (table :: tables)) :: back)

/-- The sections of a document are added, one after the other. -/
inductive OpensAll : List Section → Table → Table → Prop
  | nil {table : Table} : OpensAll [] table table
  | cons {block : Section} {sections : List Section} {table table' table'' : Table}
      (h : ChangesAt .implied (Opens block.key.name block.pairs block.repeated) block.key.parents
        table table')
      (hrest : OpensAll sections table' table'') : OpensAll (block :: sections) table table''

/-- The root table of a document whose statements do not contradict each other. -/
def Composes (statements : List Statement) (root : Table) : Prop :=
  ∃ start, GainsAll (divide statements).1 (.header, []) start ∧
    OpensAll (divide statements).2 start root

/-! ## Entries -/

theorem find?_absent (h : Absent name entries) : find? name entries = none := by
  rw [find?, List.find?_eq_none.mpr]
  · rfl
  · intro entry hentry
    rw [beq_iff_eq]
    exact h entry hentry

theorem find?_split (h : Absent name front) (value : Value) :
    find? name (front ++ (name, value) :: back) = some value := by
  have hfront : front.find? (fun entry => entry.1 == name) = none := by
    rw [List.find?_eq_none]
    intro entry hentry
    rw [beq_iff_eq]
    exact h entry hentry
  simp [find?, List.find?_append, hfront]

theorem put_absent (h : Absent name entries) (value : Value) :
    put name value entries = entries ++ [(name, value)] := by
  induction entries with
  | nil => rfl
  | cons entry entries ih =>
    obtain ⟨hentry, hentries⟩ := List.forall_mem_cons.mp h
    rw [put, if_neg hentry, ih hentries, List.cons_append]

theorem put_split (h : Absent name front) (old value : Value) :
    put name value (front ++ (name, old) :: back) = front ++ (name, value) :: back := by
  induction front with
  | nil => exact if_pos rfl
  | cons entry front ih =>
    obtain ⟨hentry, hfront⟩ := List.forall_mem_cons.mp h
    rw [List.cons_append, put, if_neg hentry, ih hfront, List.cons_append]

theorem absent_of_find? (h : find? name entries = none) : Absent name entries := by
  intro entry hentry heq
  rw [find?, Option.map_eq_none_iff, List.find?_eq_none] at h
  exact h entry hentry (beq_iff_eq.mpr heq)

/-- The entry that is found is the first one of its name. -/
theorem split_of_find? {value : Value} (h : find? name entries = some value) :
    ∃ front back, entries = front ++ (name, value) :: back ∧ Absent name front := by
  obtain ⟨⟨key, v⟩, hentry, rfl⟩ := Option.map_eq_some_iff.mp h
  obtain ⟨hkey, front, back, rfl, hfront⟩ := List.find?_eq_some_iff_append.mp hentry
  obtain rfl : key = name := beq_iff_eq.mp hkey
  refine ⟨front, back, rfl, fun entry hmem heq => ?_⟩
  simpa [heq] using hfront entry hmem

/-! ## What the rules make is made -/

theorem descend_of_changesAt {made : Origin} {change : Table → Table → Prop}
    {change? : Table → Option Table}
    (hchange : ∀ {table table'}, change table table' → change? table = some table')
    {path : List String} {table table' : Table} (h : ChangesAt made change path table table') :
    descend made change? path table = some table' := by
  induction h with
  | here h => exact hchange h
  | missing habsent _ ih => simp [descend, find?_absent habsent, ih, put_absent habsent]
  | @table name path origin o o' front back es es' habsent hinlined hheader _ ih =>
    have hopen : ¬(o = .inlined ∨ made = .dotted ∧ o = .header) := by
      rintro (hin | ⟨hmade, hhead⟩)
      · exact hinlined hin
      · exact hheader hmade hhead
    simp [descend, find?_split habsent, if_neg hopen, ih, put_split habsent]
  | tables habsent _ ih => simp [descend, find?_split habsent, ih, put_split habsent]

theorem insertAll_of_gainsAll {pairs : List (Key × Value)} {table table' : Table}
    (h : GainsAll pairs table table') : insertAll pairs table = some table' := by
  induction h with
  | nil => rfl
  | @cons key value pairs table table' table'' h _ ih =>
    have hstep : insert key value table = some table' := by
      apply descend_of_changesAt _ h
      rintro _ _ ⟨horigin, habsent⟩
      simp only [ne_eq, horigin, find?_absent habsent]
      simp
    rw [insertAll] at ih ⊢
    rw [List.foldlM_cons, hstep]
    exact ih

theorem insertSection_of_opens {block : Section} {table table' : Table}
    (h : ChangesAt .implied (Opens block.key.name block.pairs block.repeated) block.key.parents
      table table') : insertSection table block = some table' := by
  apply descend_of_changesAt _ h
  intro table table' hopens
  generalize block.repeated = repeated at hopens
  cases hopens with
  | new habsent h =>
    simp [find?_absent habsent, insertAll_of_gainsAll h, put_absent habsent]
  | implied habsent h =>
    simp [find?_split habsent, insertAll_of_gainsAll h, put_split habsent]
  | first habsent h =>
    simp [find?_absent habsent, insertAll_of_gainsAll h, put_absent habsent]
  | next habsent h =>
    simp [find?_split habsent, insertAll_of_gainsAll h, put_split habsent]

theorem foldlM_of_opensAll {sections : List Section} {table table' : Table}
    (h : OpensAll sections table table') : sections.foldlM insertSection table = some table' := by
  induction h with
  | nil => rfl
  | cons h _ ih =>
    rw [List.foldlM_cons, insertSection_of_opens h]
    exact ih

/-- The table that the rules make of a document is its root. -/
theorem root?_of_composes {statements : List Statement} {root : Table}
    (h : Composes statements root) : root? statements = some root := by
  obtain ⟨start, hstart, hsections⟩ := h
  simp only [root?, insertAll_of_gainsAll hstart, Option.bind_eq_bind, Option.bind_some]
  exact foldlM_of_opensAll hsections

/-! ## What is made is made by the rules -/

theorem changesAt_of_descend {made : Origin} {change : Table → Table → Prop}
    {change? : Table → Option Table}
    (hchange : ∀ {table table'}, change? table = some table' → change table table') :
    ∀ {path : List String} {table table' : Table},
      descend made change? path table = some table' → ChangesAt made change path table table'
  | [], table, table', h => .here (hchange h)
  | name :: path, (origin, entries), table', h => by
    rw [descend] at h
    split at h
    · next hnone =>
      obtain ⟨⟨o, es⟩, hinner, h⟩ := Option.bind_eq_some_iff.mp h
      cases h
      rw [put_absent (absent_of_find? hnone)]
      exact .missing (absent_of_find? hnone) (changesAt_of_descend hchange hinner)
    · next o es hfind =>
      split at h
      · cases h
      · next hopen =>
        obtain ⟨⟨o', es'⟩, hinner, h⟩ := Option.bind_eq_some_iff.mp h
        cases h
        obtain ⟨front, back, rfl, habsent⟩ := split_of_find? hfind
        rw [put_split habsent]
        rw [not_or, not_and] at hopen
        exact .table habsent hopen.1 hopen.2 (changesAt_of_descend hchange hinner)
    · next last others hfind =>
      obtain ⟨last', hinner, h⟩ := Option.bind_eq_some_iff.mp h
      cases h
      obtain ⟨front, back, rfl, habsent⟩ := split_of_find? hfind
      rw [put_split habsent]
      exact .tables habsent (changesAt_of_descend hchange hinner)
    · cases h

theorem changesAt_of_insert {key : Key} {value : Value} {table table' : Table}
    (h : insert key value table = some table') :
    ChangesAt .dotted (Gains key value) key.parents table table' := by
  refine changesAt_of_descend ?_ h
  rintro ⟨origin, entries⟩ table' h
  dsimp only at h
  split at h
  · cases h
  split at h
  · cases h
  · next horigin habsent =>
    cases h
    rw [Ne, Classical.not_not, eq_iff_iff] at horigin
    exact .mk horigin (absent_of_find? (Option.not_isSome_iff_eq_none.mp habsent))

theorem gainsAll_of_insertAll {pairs : List (Key × Value)} :
    ∀ {table table' : Table}, insertAll pairs table = some table' →
      GainsAll pairs table table' := by
  induction pairs with
  | nil =>
    rintro table table' ⟨⟩
    exact .nil
  | cons pair pairs ih =>
    intro table table' h
    rw [insertAll, List.foldlM_cons] at h
    obtain ⟨next, hnext, h⟩ := Option.bind_eq_some_iff.mp h
    exact .cons (changesAt_of_insert hnext) (ih h)

theorem opens_of_insertSection {block : Section} {table table' : Table}
    (h : insertSection table block = some table') :
    ChangesAt .implied (Opens block.key.name block.pairs block.repeated) block.key.parents
      table table' := by
  refine changesAt_of_descend ?_ h
  rintro ⟨origin, entries⟩ table' h
  dsimp only at h
  generalize block.repeated = repeated at h ⊢
  split at h
  · next hnone =>
    obtain ⟨⟨o, es⟩, hinner, h⟩ := Option.bind_eq_some_iff.mp h
    cases h
    have habsent := absent_of_find? hnone
    rw [put_absent habsent]
    exact .new habsent (gainsAll_of_insertAll hinner)
  · next es hfind =>
    obtain ⟨⟨o, es'⟩, hinner, h⟩ := Option.bind_eq_some_iff.mp h
    cases h
    obtain ⟨front, back, rfl, habsent⟩ := split_of_find? hfind
    rw [put_split habsent]
    exact .implied habsent (gainsAll_of_insertAll hinner)
  · next hnone =>
    obtain ⟨inner, hinner, h⟩ := Option.bind_eq_some_iff.mp h
    cases h
    have habsent := absent_of_find? hnone
    rw [put_absent habsent]
    exact .first habsent (gainsAll_of_insertAll hinner)
  · next items hfind =>
    obtain ⟨inner, hinner, h⟩ := Option.bind_eq_some_iff.mp h
    cases h
    obtain ⟨front, back, rfl, habsent⟩ := split_of_find? hfind
    rw [put_split habsent]
    exact .next habsent (gainsAll_of_insertAll hinner)
  · cases h

theorem opensAll_of_foldlM {sections : List Section} :
    ∀ {table table' : Table}, sections.foldlM insertSection table = some table' →
      OpensAll sections table table' := by
  induction sections with
  | nil =>
    rintro table table' ⟨⟩
    exact .nil
  | cons block sections ih =>
    intro table table' h
    rw [List.foldlM_cons] at h
    obtain ⟨next, hnext, h⟩ := Option.bind_eq_some_iff.mp h
    exact .cons (opens_of_insertSection hnext) (ih h)

theorem ChangesAt.origin_eq {made : Origin} {change : Table → Table → Prop} {path : List String}
    {table table' : Table} (hchange : ∀ {table table'}, change table table' → table'.1 = table.1)
    (h : ChangesAt made change path table table') : table'.1 = table.1 := by
  cases h with
  | here h => exact hchange h
  | missing | table | tables => rfl

/-- A table stays of the origin it is of while entries are added to it. -/
theorem GainsAll.origin_eq {pairs : List (Key × Value)} {table table' : Table}
    (h : GainsAll pairs table table') : table'.1 = table.1 := by
  induction h with
  | nil => rfl
  | cons h _ ih =>
    rw [ih, h.origin_eq]
    rintro _ _ ⟨⟩
    rfl

/-- The root of a document is the table that the rules make of it. -/
theorem root?_eq_some_iff {statements : List Statement} {root : Table} :
    root? statements = some root ↔ Composes statements root := by
  constructor
  · intro h
    obtain ⟨start, hstart, hsections⟩ := Option.bind_eq_some_iff.mp h
    exact ⟨start, gainsAll_of_insertAll hstart, opensAll_of_foldlM hsections⟩
  · exact root?_of_composes

end LegBoard.Toml
