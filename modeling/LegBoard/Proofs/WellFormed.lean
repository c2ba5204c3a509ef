import LegBoard.Proofs.Dressing

/-!
# Accepted texts are well formed

An accepted text holds one document of the grammar and nothing besides. The grammar leaves open
whether escapes name whole surrogate pairs. They do in every string of the document except for
those that stand inside of a value that no field asked for. Nothing is said of why another text is
refused.
-/
namespace LegBoard.Json

/-! ## Where a string stands -/

/-- A member of an object that is read with a shape is of no field. -/
def Shape.PassesOver (shape : Shape) (key : Units) : Prop :=
  ∃ fields name, shape.fields? = some fields ∧ textOf? key = some name ∧ name ∉ fields.names

/-- A string stands somewhere in a document, as a key or as a text, but not inside of a value that
is passed over. Without a shape nothing is. -/
inductive Occurs (units : Units) : Option Shape → Document → Prop
  | text {reading : Option Shape} : Occurs units reading (.text units)
  | key {reading : Option Shape} {d : Document} {ms : List (Units × Document)}
      (h : (units, d) ∈ ms) : Occurs units reading (.object ms)
  | item {reading : Option Shape} {d : Document} {ds : List Document} {i : Nat}
      (hd : ds[i]? = some d) (h : Occurs units (reading.bind (·.ofItem? i)) d) :
      Occurs units reading (.list ds)
  | member {reading : Option Shape} {key : Units} {d : Document} {ms : List (Units × Document)}
      (hmember : (key, d) ∈ ms) (hread : ∀ shape, reading = some shape → ¬shape.PassesOver key)
      (h : Occurs units (reading.bind (·.ofMember? key)) d) : Occurs units reading (.object ms)

/-! ## What an accepted document says of its parts -/

theorem mem_of_named? {key : Units} {d : Document} {ms : List (Units × Document)}
    {ns : List (String × Document)} (hns : named? ms = some ns) (h : (key, d) ∈ ms) :
    ∃ name, textOf? key = some name ∧ (name, d) ∈ ns := by
  obtain ⟨before, behind, rfl⟩ := List.append_of_mem h
  obtain ⟨name, front, back, hkey, -, -, rfl⟩ := named?_middle.mp hns
  exact ⟨name, hkey, List.mem_append_cons_self⟩

/-- A member of a field has a value of the field's shape. -/
theorem Fields.valueOf?_of_mem {name : String} {d : Document} : (fields : Fields) →
    name ∈ fields.names → {ms : List (String × Document)} → {vs : fields.Values} →
    fields.byName? ms = some vs → (name, d) ∈ ms →
    ∃ shape, fields.shapeOf? name = some shape ∧ (shape.valueOf? d).isSome = true
  | .nil, h, _, _, _, _ => nomatch h
  | .cons field shape rest, h, ms, vs, hvs, hmem => by
    obtain ⟨v, vs', hv, hvs', -⟩ := byName?_cons.mp hvs
    by_cases hname : name = field
    · have hfound : (name, d) ∈ ms.filter (·.1 = field) :=
        List.mem_filter.mpr ⟨hmem, by simpa using hname⟩
      obtain ⟨before, behind, hms⟩ := List.append_of_mem hfound
      rw [hms] at hv
      obtain ⟨-, -, hvalue⟩ := sole?_middle hv
      refine ⟨shape, if_pos hname, ?_⟩
      rw [hvalue]
      rfl
    · have hrest : name ∈ rest.names := by
        simpa [names, hname] using h
      have hkept : (name, d) ∈ ms.filter (·.1 ≠ field) :=
        List.mem_filter.mpr ⟨hmem, by simpa using hname⟩
      obtain ⟨shape', hshape', hvalue⟩ := rest.valueOf?_of_mem hrest hvs' hkept
      refine ⟨shape', ?_, hvalue⟩
      rw [shapeOf?, if_neg hname, hshape']

theorem Fields.valueOf?_of_getElem? {d : Document} : (fields : Fields) →
    {ds : List Document} → {vs : fields.Values} → fields.inOrder? ds = some vs →
    ds.length ≤ fields.size → {i : Nat} → ds[i]? = some d →
    ∃ shape, fields.shapeAt? i = some shape ∧ (shape.valueOf? d).isSome = true
  | .nil, [], _, _, _, _, hd => nomatch hd
  | .nil, _ :: _, _, _, hlen, _, _ => nomatch hlen
  | .cons _ _ _, [], _, _, _, _, hd => nomatch hd
  | .cons field shape rest, d' :: ds, vs, hvs, hlen, i, hd => by
    obtain ⟨v, vs', hv, hvs', -⟩ := inOrder?_cons.mp hvs
    cases i with
    | zero =>
      obtain rfl : d' = d := Option.some.inj hd
      refine ⟨shape, rfl, ?_⟩
      rw [hv]
      rfl
    | succ i => exact rest.valueOf?_of_getElem? hvs' (Nat.le_of_succ_le_succ hlen) hd

theorem Shape.textOf?_of_valueOf? {units : Units} : (shape : Shape) →
    (shape.valueOf? (.text units)).isSome = true → (textOf? units).isSome = true
  | .text, h => h
  | .tag, h => h
  | .optional inner, h => by
    unfold valueOf? at h
    dsimp only [Value] at h
    rw [Option.isSome_map] at h
    exact inner.textOf?_of_valueOf? h
  | .list _, h => nomatch h
  | .record _ _ _, h => nomatch h

/-- An item of an accepted list has a value of the shape with which it is read. -/
theorem Shape.valueOf?_of_getElem? {d : Document} {ds : List Document} {i : Nat}
    (hd : ds[i]? = some d) : (shape : Shape) → {v : shape.Value} →
    shape.valueOf? (.list ds) = some v →
    ∃ inner, shape.ofItem? i = some inner ∧ (inner.valueOf? d).isSome = true
  | .text, _, h => nomatch h
  | .tag, _, h => nomatch h
  | .optional inner, _, h => by
    obtain ⟨v, hv, -⟩ := Option.map_eq_some_iff.mp h
    exact inner.valueOf?_of_getElem? hd hv
  | .list item, vs, h => by
    obtain ⟨before, behind, rfl⟩ := List.append_of_mem (List.mem_of_getElem? hd)
    obtain ⟨front, v, back, -, hv, -⟩ := mapM_middle.mp h
    refine ⟨item, rfl, ?_⟩
    rw [hv]
    rfl
  | .record _ whole fields, vs, h => by
    unfold valueOf? at h
    dsimp only [Value] at h
    split at h
    · cases h
    · next hfits =>
      rw [not_or, Nat.not_lt] at hfits
      exact fields.valueOf?_of_getElem? h hfits.1 hd

/-- A member of an accepted object has a text for its key, and its value is passed over, or says
nothing, or has a value of the shape with which it is read. -/
theorem Shape.valueOf?_of_mem {key : Units} {d : Document} {ms : List (Units × Document)}
    (hmem : (key, d) ∈ ms) : (shape : Shape) → {v : shape.Value} →
    shape.valueOf? (.object ms) = some v →
    (textOf? key).isSome = true ∧ (shape.PassesOver key ∨ d = .null ∨
      ∃ inner, shape.ofMember? key = some inner ∧ (inner.valueOf? d).isSome = true)
  | .text, _, h => nomatch h
  | .tag, t, h => by
    have htag : tagOf? (.object ms) = some t := h
    obtain ⟨key', rfl⟩ := tagOf?_object_eq_some htag
    obtain ⟨rfl, rfl⟩ := Prod.mk.inj (List.mem_singleton.mp hmem)
    have hkey : textOf? key = some t := htag
    rw [hkey]
    exact ⟨rfl, .inr (.inl rfl)⟩
  | .optional inner, _, h => by
    obtain ⟨v, hv, -⟩ := Option.map_eq_some_iff.mp h
    exact inner.valueOf?_of_mem hmem hv
  | .list _, _, h => nomatch h
  | .record _ _ fields, vs, h => by
    obtain ⟨ns, hns, hvs⟩ := Option.bind_eq_some_iff.mp h
    obtain ⟨name, hkey, hname⟩ := mem_of_named? hns hmem
    rw [hkey]
    refine ⟨rfl, ?_⟩
    by_cases hfield : name ∈ fields.names
    · obtain ⟨inner, hinner, hvalue⟩ := fields.valueOf?_of_mem hfield hvs hname
      refine .inr (.inr ⟨inner, ?_, hvalue⟩)
      rw [ofMember?, hkey]
      exact hinner
    · exact .inl ⟨fields, name, rfl, hkey, hfield⟩

theorem not_occurs_null {units : Units} {reading : Option Shape} : ¬Occurs units reading .null :=
  nofun

/-- Where a document stands for a value, every string in it is a text, but for those that are
passed over. -/
theorem textOf?_of_occurs {units : Units} {reading : Option Shape} {d : Document}
    (h : Occurs units reading d) : ∀ shape, reading = some shape →
      (shape.valueOf? d).isSome = true → (textOf? units).isSome = true := by
  -- The shape of a part is only known once the value of the whole is taken apart, so it is left
  -- open in the induction on where the string stands.
  induction h with
  | text =>
    rintro shape - hvalue
    exact shape.textOf?_of_valueOf? hvalue
  | key hmem =>
    rintro shape - hvalue
    obtain ⟨v, hv⟩ := Option.isSome_iff_exists.mp hvalue
    exact (shape.valueOf?_of_mem hmem hv).1
  | item hd _ ih =>
    rintro shape rfl hvalue
    obtain ⟨v, hv⟩ := Option.isSome_iff_exists.mp hvalue
    obtain ⟨inner, hinner, hvalue⟩ := shape.valueOf?_of_getElem? hd hv
    exact ih inner hinner hvalue
  | member hmem hread hinside ih =>
    rintro shape rfl hvalue
    obtain ⟨v, hv⟩ := Option.isSome_iff_exists.mp hvalue
    obtain ⟨-, hpassed | rfl | ⟨inner, hinner, hvalue⟩⟩ := shape.valueOf?_of_mem hmem hv
    · exact absurd hpassed (hread shape rfl)
    · exact absurd hinside not_occurs_null
    · exact ih inner hinner hvalue

end LegBoard.Json

namespace LegBoard

open LegBoard.Json

/-- An accepted text holds a document, from its first character to its last, and of its strings
only those that stand inside of values of unknown fields may hold half of a surrogate pair. -/
theorem wellFormed_of_parse {α : Type} [Format α] {text : String} {a : α}
    (h : parse α text = .ok a) :
    (∃ d, Holds text d) ∧
    ∀ d, Holds text d → ∀ units, Occurs units (some (Format.shape α)) d →
      (textOf? units).isSome = true := by
  obtain ⟨v, hv, rfl⟩ := ok_of_map h
  refine ⟨Shape.holds_of_readAll hv, ?_⟩
  intro d hd units hunits
  have hvalue := Shape.readAll_holds hd (Format.shape α)
  rw [hv] at hvalue
  apply textOf?_of_occurs hunits _ rfl
  rw [← hvalue]
  rfl

open Transit

/-- A line with half of a surrogate pair under a key that no line has. Under one that it has, the
half is refused. -/
theorem wellFormed_of_passed_half :
    parse Line dressedLine = .ok { id := some "A", presentation := some {} } ∧
    ((∃ d, Holds dressedLine d) ∧
      ∀ d, Holds dressedLine d → ∀ units, Occurs units (some Line.shape) d →
        (textOf? units).isSome = true) ∧
    (∃ d, Holds dressedLine d ∧ Occurs [0xD800] none d ∧ textOf? [0xD800] = none) ∧
    (parse Line "\x7b\"id\":\"\\uD800\"\x7d").toOption = none := by
  have h : parse Line dressedLine = .ok { id := some "A", presentation := some {} } := rfl
  have hmember : lineNote ∈ [linePresentation [], lineNote, lineId] :=
    List.mem_cons_of_mem _ List.mem_cons_self
  have hinside : Occurs [0xD800] none (.list [.text [0xD800]]) := .item (i := 0) rfl .text
  have hhalf : Occurs [0xD800] none (.object [linePresentation [], lineNote, lineId]) :=
    .member hmember nofun hinside
  exact ⟨h, wellFormed_of_parse h, ⟨_, holds_dressed, hhalf, rfl⟩, rfl⟩

end LegBoard
