import LegBoard.Proofs.Fallible
import LegBoard.Proofs.Toml.Documents

/-!
# Numbers in range

In a document without numbers beyond their range none gets into the table that is made of it.
-/
namespace LegBoard.Toml

/-! ## Tables that grow -/

theorem itemsFit_iff {items : List Value} :
    itemsFit items = true ↔ ∀ value ∈ items, value.fits = true := by
  induction items with
  | nil => exact iff_of_true rfl (List.forall_mem_nil _)
  | cons value items ih => rw [itemsFit, Bool.and_eq_true, ih, List.forall_mem_cons]

theorem entriesFit_iff {entries : List (String × Value)} :
    entriesFit entries = true ↔ ∀ entry ∈ entries, entry.2.fits = true := by
  induction entries with
  | nil => exact iff_of_true rfl (List.forall_mem_nil _)
  | cons entry entries ih => rw [entriesFit, Bool.and_eq_true, ih, List.forall_mem_cons]

theorem entriesFit_append {front back : List (String × Value)} :
    entriesFit (front ++ back) = true ↔ entriesFit front = true ∧ entriesFit back = true := by
  simp only [entriesFit_iff, List.forall_mem_append]

theorem entriesFit_cons {name : String} {value : Value} {entries : List (String × Value)} :
    entriesFit ((name, value) :: entries) = true ↔
      value.fits = true ∧ entriesFit entries = true := by
  rw [entriesFit, Bool.and_eq_true]

/-- An entry is added to the end. -/
theorem entriesFit_concat {name : String} {value : Value} {entries : List (String × Value)}
    (hfits : entriesFit entries = true) (hvalue : value.fits = true) :
    entriesFit (entries ++ [(name, value)]) = true :=
  entriesFit_append.mpr ⟨hfits, entriesFit_cons.mpr ⟨hvalue, rfl⟩⟩

/-- An entry is changed in its place. -/
theorem entriesFit_change {name : String} {value value' : Value}
    {front back : List (String × Value)}
    (hfits : entriesFit (front ++ (name, value) :: back) = true)
    (h : value.fits = true → value'.fits = true) :
    entriesFit (front ++ (name, value') :: back) = true := by
  obtain ⟨hfront, hrest⟩ := entriesFit_append.mp hfits
  obtain ⟨hvalue, hback⟩ := entriesFit_cons.mp hrest
  exact entriesFit_append.mpr ⟨hfront, entriesFit_cons.mpr ⟨h hvalue, hback⟩⟩

theorem fits_tables {table : Table} {items : List Table} :
    (Value.tables (table :: items)).fits = true ↔
      entriesFit table.2 = true ∧ tablesFit items = true := by
  rw [Value.fits, tablesFit, Bool.and_eq_true]

/-- A change that brings in no number beyond its range brings none into the whole. -/
theorem ChangesAt.fits {made : Origin} {change : Table → Table → Prop}
    (hchange : ∀ {table table'}, change table table' → entriesFit table.2 = true →
      entriesFit table'.2 = true)
    {path : List String} {table table' : Table} (h : ChangesAt made change path table table')
    (hfits : entriesFit table.2 = true) : entriesFit table'.2 = true := by
  induction h with
  | here h => exact hchange h hfits
  | missing _ _ ih => exact entriesFit_concat hfits (ih rfl)
  | table _ _ _ _ ih => exact entriesFit_change hfits ih
  | tables _ _ ih =>
    refine entriesFit_change hfits fun htables => ?_
    obtain ⟨hlast, hothers⟩ := fits_tables.mp htables
    exact fits_tables.mpr ⟨ih hlast, hothers⟩

theorem insert_fits {key : Key} {value : Value} (hvalue : value.fits = true)
    {table table' : Table} (h : insert key value table = some table')
    (hfits : entriesFit table.2 = true) : entriesFit table'.2 = true := by
  refine (changesAt_of_insert h).fits ?_ hfits
  intro table table' hgains hfits
  cases hgains with
  | mk => exact entriesFit_concat hfits hvalue

theorem insertAll_fits {pairs : List (Key × Value)} (hpairs : ∀ pair ∈ pairs, pair.2.fits = true)
    {table table' : Table} (h : insertAll pairs table = some table')
    (hfits : entriesFit table.2 = true) : entriesFit table'.2 = true :=
  foldlM_preserves (P := fun table => entriesFit table.2 = true)
    (fun pair hpair => insert_fits (hpairs pair hpair)) h hfits

theorem ItemsText.forall {α : Type} {close : Char} {item : α → List Char → Prop} {P : α → Prop}
    (hitem : ∀ {a s}, item a s → P a) {as : List α} {s : List Char}
    (h : ItemsText close item as s) : ∀ a ∈ as, P a := by
  induction h with
  | nil => exact List.forall_mem_nil _
  | last _ ha => exact List.forall_mem_singleton.mpr (hitem ha)
  | cons _ ha _ _ ih => exact List.forall_mem_cons.mpr ⟨hitem ha, ih⟩

section

variable {bounds : Bounds} (hbounds : bounds.oversized = false)

include hbounds

theorem PlainText.fits {v : Value} {s : List Char} (h : PlainText bounds v s) : v.fits = true := by
  cases h with
  | text => rfl
  | scalar h =>
    cases h with
    | yes | no | integer | float | dateTime => rfl
    | largeInteger hallowed | largeFloat hallowed =>
      rw [hbounds] at hallowed
      cases hallowed

theorem ValueText.fits : ∀ {depth : Nat} {v : Value} {s : List Char}, ValueText bounds depth v s →
    v.fits = true
  | 0, v, s, h => PlainText.fits hbounds h
  | depth + 1, v, s, h => by
    cases h with
    | plain h => exact h.fits hbounds
    | array h => exact itemsFit_iff.mpr (h.forall (P := fun v => v.fits = true) ValueText.fits)
    | table h hentries =>
      have hpairs := h.forall (P := fun pair => pair.2.fits = true) (by
        intro pair s hpair
        cases hpair with
        | mk _ _ _ _ hv => exact ValueText.fits hv)
      exact insertAll_fits hpairs (insertAll_of_gainsAll hentries) rfl

theorem DocumentText.fits {statements : List Statement} {s : List Char}
    (h : DocumentText bounds statements s) :
    ∀ key value, .pair key value ∈ statements → value.fits = true := by
  have hlines : ∀ {statement s}, LineText bounds statement s →
      ∀ key value, .pair key value ∈ statement.toList → value.fits = true := by
    intro statement s hline key value hmem
    cases hline with
    | blank => cases hmem
    | pair h =>
      cases List.mem_singleton.mp hmem
      cases h with
      | mk _ _ _ _ hv => exact ValueText.fits hbounds hv
    | header | repeated => cases List.mem_singleton.mp hmem
  induction h with
  | last _ hline => exact hlines hline
  | line _ hline _ _ _ _ ih =>
    intro key value hmem
    rcases List.mem_append.mp hmem with hmem | hmem
    · exact hlines hline key value hmem
    · exact ih key value hmem

end

end LegBoard.Toml
