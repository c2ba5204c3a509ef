import LegBoard.Proofs.Fallible
import LegBoard.Proofs.Toml.Rules

/-!
# What stays in a table

A value that is finished, such as a text or an inline table, stays where it is while a document
adds to the tables around it. So what a statement says holds of the root of the document.
-/
namespace LegBoard.Toml

/-! ## Entries -/

theorem find?_put_ne {name other : String} (hne : other ≠ name) (value : Value)
    (entries : List (String × Value)) :
    find? other (put name value entries) = find? other entries := by
  induction entries with
  | nil => simp [put, find?, hne.symm]
  | cons entry entries ih =>
    unfold put
    split
    · next heq => simp [find?, heq, hne.symm]
    · cases hentry : entry.1 == other with
      | true => simp [find?, hentry]
      | false => simpa [find?, hentry] using ih

theorem find?_append_of_some {name : String} {value : Value} {entries : List (String × Value)}
    (h : find? name entries = some value) (more : List (String × Value)) :
    find? name (entries ++ more) = some value := by
  obtain ⟨entry, hentry, rfl⟩ := Option.map_eq_some_iff.mp h
  simp [find?, List.find?_append, hentry]

/-- The value of a name in the table at a path. -/
def valueAt? : List String → String → List (String × Value) → Option Value
  | [], name, entries => find? name entries
  | parent :: path, name, entries =>
    match find? parent entries with
    | some (.table _ es) => valueAt? path name es
    | _ => none

/-- Nothing can be added to the value. -/
def Finished : Value → Prop
  | .table origin _ => origin = .inlined
  | .tables _ => False
  | _ => True

/-- The second table has the finished values of the first one at the same paths. -/
def Keeps (table table' : Table) : Prop :=
  ∀ path name value, Finished value → valueAt? path name table.2 = some value →
    valueAt? path name table'.2 = some value

theorem Keeps.refl (table : Table) : Keeps table table := fun _ _ _ _ h => h

theorem Keeps.trans {table table' table'' : Table} (h : Keeps table table')
    (h' : Keeps table' table'') : Keeps table table'' :=
  fun path name value hvalue hat => h' path name value hvalue (h path name value hvalue hat)

/-- An entry changes to one that keeps what it held. -/
theorem keeps_change {name : String} {origin origin' : Origin} {front back : List (String × Value)}
    {value value' : Value} (habsent : Absent name front) (hopen : ¬Finished value)
    (h : ∀ o es, value = .table o es → ∃ o' es', value' = .table o' es' ∧
      Keeps (o, es) (o', es')) :
    Keeps (origin, front ++ (name, value) :: back)
      (origin', front ++ (name, value') :: back) := by
  have hother : ∀ key, key ≠ name → find? key (front ++ (name, value') :: back) =
      find? key (front ++ (name, value) :: back) := by
    intro key hne
    rw [← put_split habsent value value', find?_put_ne hne]
  rintro (_ | ⟨parent, path⟩) key v hv hat
  · have hne : key ≠ name := by
      rintro rfl
      rw [valueAt?, find?_split habsent] at hat
      cases hat
      exact hopen hv
    exact (hother key hne).trans hat
  · by_cases heq : parent = name
    · subst heq
      simp only [valueAt?, find?_split habsent] at hat ⊢
      split at hat
      · next o es hold =>
        obtain ⟨o', es', rfl, hkeeps⟩ := h o es (Option.some.inj hold)
        exact hkeeps path key v hv hat
      · cases hat
    · simp only [valueAt?, hother parent heq] at hat ⊢
      exact hat

theorem keeps_table {name : String} {origin origin' o o' : Origin}
    {front back es es' : List (String × Value)} (habsent : Absent name front) (ho : o ≠ .inlined)
    (h : Keeps (o, es) (o', es')) :
    Keeps (origin, front ++ (name, .table o es) :: back)
      (origin', front ++ (name, .table o' es') :: back) := by
  refine keeps_change habsent ho ?_
  rintro _ _ ⟨⟩
  exact ⟨o', es', rfl, h⟩

theorem keeps_tables {name : String} {origin origin' : Origin} {front back : List (String × Value)}
    {items items' : List Table} (habsent : Absent name front) :
    Keeps (origin, front ++ (name, .tables items) :: back)
      (origin', front ++ (name, .tables items') :: back) := by
  refine keeps_change habsent id ?_
  rintro _ _ ⟨⟩

theorem keeps_append {origin origin' : Origin} (entries more : List (String × Value)) :
    Keeps (origin, entries) (origin', entries ++ more) := by
  rintro (_ | ⟨parent, path⟩) key v hv hat
  · exact find?_append_of_some hat more
  · simp only [valueAt?] at hat ⊢
    split at hat
    · next hold =>
      rw [find?_append_of_some hold more]
      exact hat
    · cases hat

/-- What a change keeps in the table at a path is kept in the whole. -/
theorem ChangesAt.keeps {made : Origin} {change : Table → Table → Prop}
    (hchange : ∀ {table table'}, change table table' → Keeps table table')
    {path : List String} {table table' : Table} (h : ChangesAt made change path table table') :
    Keeps table table' := by
  induction h with
  | here h => exact hchange h
  | missing => exact keeps_append _ _
  | table habsent hinlined _ _ ih => exact keeps_table habsent hinlined ih
  | tables habsent => exact keeps_tables habsent

/-- Every name has one entry. -/
def NamesOnce (table : Table) : Prop := (table.2.map Prod.fst).Nodup

theorem namesOnce_append {name : String} {origin : Origin} {entries : List (String × Value)}
    (habsent : Absent name entries) (h : NamesOnce (origin, entries)) (value : Value) :
    NamesOnce (origin, entries ++ [(name, value)]) := by
  have hnew : name ∉ entries.map Prod.fst := by
    intro hmem
    obtain ⟨entry, hentry, hname⟩ := List.mem_map.mp hmem
    exact habsent entry hentry hname
  have hone : [name].Nodup := List.nodup_cons.mpr ⟨List.not_mem_nil, List.nodup_nil⟩
  unfold NamesOnce
  rw [List.map_append]
  refine List.nodup_append.mpr ⟨h, hone, fun a ha b hb heq => ?_⟩
  obtain rfl : b = name := List.mem_singleton.mp hb
  exact hnew (heq ▸ ha)

theorem namesOnce_change {name : String} {origin : Origin} {front back : List (String × Value)}
    {value value' : Value} (h : NamesOnce (origin, front ++ (name, value) :: back)) :
    NamesOnce (origin, front ++ (name, value') :: back) := by
  unfold NamesOnce at h ⊢
  rw [List.map_append, List.map_cons] at h ⊢
  exact h

theorem ChangesAt.namesOnce {made : Origin} {change : Table → Table → Prop}
    (hchange : ∀ {table table'}, change table table' → NamesOnce table → NamesOnce table')
    {path : List String} {table table' : Table} (h : ChangesAt made change path table table')
    (hnames : NamesOnce table) : NamesOnce table' := by
  cases h with
  | here h => exact hchange h hnames
  | missing habsent => exact namesOnce_append habsent hnames _
  | table | tables => exact namesOnce_change hnames

theorem insert_namesOnce {key : Key} {value : Value} {table table' : Table}
    (h : insert key value table = some table') (hnames : NamesOnce table) : NamesOnce table' := by
  refine (changesAt_of_insert h).namesOnce ?_ hnames
  intro table table' hgains hnames
  cases hgains with
  | mk _ habsent => exact namesOnce_append habsent hnames _

theorem insertSection_namesOnce {block : Section} {root root' : Table}
    (h : insertSection root block = some root') (hnames : NamesOnce root) : NamesOnce root' := by
  refine (opens_of_insertSection h).namesOnce ?_ hnames
  intro table table' hopens hnames
  generalize block.repeated = repeated at hopens
  cases hopens with
  | new habsent | first habsent => exact namesOnce_append habsent hnames _
  | implied | next => exact namesOnce_change hnames

/-- No name has two entries in the root of a document. -/
theorem root?_namesOnce {statements : List Statement} {root : Table}
    (h : root? statements = some root) : NamesOnce root := by
  obtain ⟨start, hstart, hsections⟩ := Option.bind_eq_some_iff.mp h
  have hempty : NamesOnce (.header, []) := List.nodup_nil
  have hnames : NamesOnce start :=
    foldlM_preserves (fun _ _ _ _ => insert_namesOnce) hstart hempty
  exact foldlM_preserves (fun _ _ _ _ => insertSection_namesOnce) hsections hnames

/-! ## What a pair or a section gives -/

end LegBoard.Toml
