import LegBoard.Proofs.Json.Redressing

/-!
# One field of a record exchanged

Two documents of a record may differ in what they give for one field: a value, another value, or
none. The field is then the only one whose value can differ. An object gives a field by its name, a
list gives it by its place and may leave it out at its end.
-/
namespace LegBoard.Json

/-- The value of a field that is given a document, or nothing. -/
def Shape.valueOfGiven? (shape : Shape) : Option Document → Option shape.Value
  | none => some shape.blank
  | some d => shape.valueOf? d

/-- The member of a field that may not be given. -/
def membersGiven (key : Units) (given : Option Document) : List (Units × Document) :=
  given.toList.map (key, ·)

/-- Two documents of a record are the same, but for what they give for the field of a name. -/
inductive Exchanges (fields : Fields) (name : String) :
    Option Document → Option Document → Document → Document → Prop
  | member {key : Units} (before behind : List (Units × Document)) (given given' : Option Document)
      (hkey : textOf? key = some name) (hsole : ∀ m ∈ before ++ behind, textOf? m.1 ≠ some name) :
      Exchanges fields name given given' (.object (before ++ (membersGiven key given ++ behind)))
        (.object (before ++ (membersGiven key given' ++ behind)))
  | item (before behind : List Document) (d d' : Document)
      (hplace : fields.names.idxOf name = before.length) :
      Exchanges fields name (some d) (some d') (.list (before ++ d :: behind))
        (.list (before ++ d' :: behind))
  | last (before : List Document) (given given' : Option Document)
      (hplace : fields.names.idxOf name = before.length) :
      Exchanges fields name given given' (.list (before ++ given.toList))
        (.list (before ++ given'.toList))

/-- The values of a record, with the one of a field left open. -/
inductive Opening : (fields : Fields) → String → (inner : Shape) →
    (inner.Value → fields.Values) → Prop
  | here {name : String} {shape : Shape} {rest : Fields} (vs : rest.Values) :
      Opening (.cons name shape rest) name shape fun v => (v, vs)
  | behind {field name : String} {shape inner : Shape} {rest : Fields}
      {put : inner.Value → rest.Values} (hne : name ≠ field) (w : shape.Value)
      (h : Opening rest name inner put) :
      Opening (.cons field shape rest) name inner fun v => (w, put v)

theorem Opening.exists_first {name : String} {shape : Shape} {rest : Fields}
    {put : shape.Value → shape.Value × rest.Values}
    (h : Opening (.cons name shape rest) name shape put) : ∃ vs, put = fun v => (v, vs) := by
  cases h with
  | here vs => exact ⟨vs, rfl⟩
  | behind hne => exact absurd rfl hne

theorem Opening.exists_behind {field name : String} {shape inner : Shape} {rest : Fields}
    {put : inner.Value → shape.Value × rest.Values} (hne : name ≠ field)
    (h : Opening (.cons field shape rest) name inner put) :
    ∃ w put', Opening rest name inner put' ∧ put = fun v => (w, put' v) := by
  cases h with
  | here => exact absurd rfl hne
  | behind _ w h => exact ⟨w, _, h, rfl⟩

/-- Of two lots of values of a record, the second is the first with the value of a field
exchanged, for whatever the field is given then. -/
def Puts {fields : Fields} (name : String) (inner : Shape) (given given' : Option Document)
    (vs : fields.Values) (vs'? : Option fields.Values) : Prop :=
  ∃ put v, Opening fields name inner put ∧ inner.valueOfGiven? given = some v ∧ vs = put v ∧
    ∀ v', inner.valueOfGiven? given' = some v' → vs'? = some (put v')

/-! ## Objects -/

def namedGiven (name : String) (given : Option Document) : List (String × Document) :=
  given.toList.map (name, ·)

theorem sole?_namedGiven (name : String) (shape : Shape) (given : Option Document) :
    sole? shape.blank (fun d => shape.valueOf? d) (namedGiven name given) =
      shape.valueOfGiven? given := by
  cases given <;> rfl

theorem filter_namedGiven (p : String → Bool) (name : String) (given : Option Document)
    (front back : List (String × Document)) :
    (front ++ (namedGiven name given ++ back)).filter (fun m => p m.1) =
      front.filter (fun m => p m.1) ++ ((if p name then namedGiven name given else []) ++
        back.filter fun m => p m.1) := by
  have hgiven : (namedGiven name given).filter (fun m => p m.1) =
      if p name then namedGiven name given else [] := by
    cases given with
    | none => exact (ite_self []).symm
    | some d => cases h : p name <;> simp [namedGiven, h]
  rw [List.filter_append, List.filter_append, hgiven]

theorem filter_name_eq_nil {name : String} {ms : List (String × Document)}
    (h : ∀ m ∈ ms, m.1 ≠ name) : ms.filter (fun m => decide (m.1 = name)) = [] := by
  rw [List.filter_eq_nil_iff]
  intro m hm
  simpa using h m hm

theorem Fields.byName?_given {name : String} {inner : Shape} {given given' : Option Document} :
    (fields : Fields) → fields.shapeOf? name = some inner →
    {front back : List (String × Document)} → (∀ m ∈ front ++ back, m.1 ≠ name) →
    {vs : fields.Values} → fields.byName? (front ++ (namedGiven name given ++ back)) = some vs →
    Puts name inner given given' vs
      (fields.byName? (front ++ (namedGiven name given' ++ back)))
  | .nil, h, _, _, _, _, _ => nomatch h
  | .cons field shape rest, h, front, back, hsole, vs, hvs => by
    obtain ⟨v, vs', hv, hvs', rfl⟩ := byName?_cons.mp hvs
    by_cases hname : name = field
    · -- The field is the first one, and none of the members around is its own.
      subst hname
      rw [shapeOf?, if_pos rfl] at h
      cases h
      obtain ⟨hfront, hback⟩ := List.forall_mem_append.mp hsole
      have hown : ∀ given, (front ++ (namedGiven name given ++ back)).filter (·.1 = name) =
          namedGiven name given := by
        intro given
        rw [filter_namedGiven (fun key => decide (key = name)), filter_name_eq_nil hfront,
          filter_name_eq_nil hback, decide_eq_true rfl, if_pos rfl, List.append_nil,
          List.nil_append]
      have hrest : ∀ given, (front ++ (namedGiven name given ++ back)).filter (·.1 ≠ name) =
          front.filter (·.1 ≠ name) ++ back.filter (·.1 ≠ name) := by
        intro given
        rw [filter_namedGiven (fun key => decide (key ≠ name)), if_neg (by simp), List.nil_append]
      rw [hown, sole?_namedGiven] at hv
      rw [hrest] at hvs'
      refine ⟨_, v, .here vs', hv, rfl, fun v' hv' => ?_⟩
      refine byName?_cons.mpr ⟨v', vs', ?_, ?_, rfl⟩
      · rw [hown, sole?_namedGiven, hv']
      · rw [hrest, hvs']
    · rw [shapeOf?, if_neg hname] at h
      have hother : ∀ given, (front ++ (namedGiven name given ++ back)).filter (·.1 = field) =
          front.filter (·.1 = field) ++ back.filter (·.1 = field) := by
        intro given
        rw [filter_namedGiven (fun key => decide (key = field)), if_neg (by simpa using hname),
          List.nil_append]
      have hrest : ∀ given, (front ++ (namedGiven name given ++ back)).filter (·.1 ≠ field) =
          front.filter (·.1 ≠ field) ++
            (namedGiven name given ++ back.filter (·.1 ≠ field)) := by
        intro given
        rw [filter_namedGiven (fun key => decide (key ≠ field)), if_pos (by simpa using hname)]
      have hsole' : ∀ m ∈ front.filter (·.1 ≠ field) ++ back.filter (·.1 ≠ field),
          m.1 ≠ name := by
        intro m hm
        rw [← List.filter_append] at hm
        exact hsole m (List.mem_filter.mp hm).1
      rw [hother] at hv
      rw [hrest] at hvs'
      obtain ⟨put, w, hopening, hw, rfl, hput⟩ := rest.byName?_given h hsole' hvs'
      refine ⟨_, w, .behind hname v hopening, hw, rfl, fun v' hv' => ?_⟩
      refine byName?_cons.mpr ⟨v, put v', ?_, ?_, rfl⟩
      · rw [hother, hv]
      · rw [hrest, hput v' hv']

theorem named?_given {key : Units} {name : String} (hkey : textOf? key = some name)
    (given : Option Document) : named? (membersGiven key given) = some (namedGiven name given) := by
  cases given with
  | none => rfl
  | some d =>
    change named? [(key, d)] = _
    rw [named?_cons, hkey]
    rfl

/-- The names of the members around the one of a field. -/
theorem named?_around {key : Units} {name : String} (hkey : textOf? key = some name)
    {before behind : List (Units × Document)} {given : Option Document}
    {ns : List (String × Document)}
    (h : named? (before ++ (membersGiven key given ++ behind)) = some ns) :
    ∃ front back, ns = front ++ (namedGiven name given ++ back) ∧
      named? (before ++ behind) = some (front ++ back) ∧
      ∀ given', named? (before ++ (membersGiven key given' ++ behind)) =
        some (front ++ (namedGiven name given' ++ back)) := by
  simp only [named?_append, named?_given hkey, Option.bind_some, Option.bind_eq_some_iff,
    Option.map_eq_some_iff] at h ⊢
  obtain ⟨front, hfront, _, ⟨back, hback, rfl⟩, rfl⟩ := h
  exact ⟨front, back, rfl, ⟨front, hfront, back, hback, rfl⟩, fun given' =>
    ⟨front, hfront, _, ⟨back, hback, rfl⟩, rfl⟩⟩

theorem ne_of_named? {ms : List (Units × Document)} {ns : List (String × Document)} {name : String}
    (h : named? ms = some ns) (hms : ∀ m ∈ ms, textOf? m.1 ≠ some name) :
    ∀ m ∈ ns, m.1 ≠ name := by
  intro m hm hname
  obtain ⟨m', hm', hkey⟩ := (any_of_named? h).mp (List.any_eq_true.mpr ⟨m, hm, by simpa using hname⟩)
  exact hms m' hm' hkey

/-! ## Lists -/

/-- A list gives the first field its first item, and none only if it ends there. -/
theorem Fields.inOrder?_first {name : String} {shape : Shape} {rest : Fields}
    {given : Option Document} {behind : List Document} (h : given = none → behind = [])
    {vs : (Fields.cons name shape rest).Values} :
    (Fields.cons name shape rest).inOrder? (given.toList ++ behind) = some vs ↔
      ∃ v vs', shape.valueOfGiven? given = some v ∧ rest.inOrder? behind = some vs' ∧
        (v, vs') = vs := by
  cases given with
  | none =>
    rw [h rfl, rest.inOrder?_nil]
    constructor
    · intro hvs
      exact ⟨_, _, rfl, rfl, Option.some.inj hvs⟩
    · rintro ⟨_, _, ⟨⟩, ⟨⟩, rfl⟩
      rfl
  | some d => exact inOrder?_cons

theorem Fields.inOrder?_given {name : String} {inner : Shape} {given given' : Option Document}
    {behind : List Document} (hgiven : given = none → behind = [])
    (hgiven' : given' = none → behind = []) : (fields : Fields) →
    fields.shapeOf? name = some inner → {before : List Document} →
    fields.names.idxOf name = before.length → {vs : fields.Values} →
    fields.inOrder? (before ++ (given.toList ++ behind)) = some vs →
    Puts name inner given given' vs (fields.inOrder? (before ++ (given'.toList ++ behind)))
  | .nil, h, _, _, _, _ => nomatch h
  | .cons field shape rest, h, before, hplace, vs, hvs => by
    by_cases hname : name = field
    · subst hname
      rw [shapeOf?, if_pos rfl] at h
      cases h
      rw [names, List.idxOf_cons_self] at hplace
      obtain rfl := List.eq_nil_of_length_eq_zero hplace.symm
      obtain ⟨v, vs', hv, hvs', rfl⟩ := (inOrder?_first hgiven).mp hvs
      refine ⟨_, v, .here vs', hv, rfl, fun v' hv' => ?_⟩
      exact (inOrder?_first hgiven').mpr ⟨v', vs', hv', hvs', rfl⟩
    · rw [shapeOf?, if_neg hname] at h
      rw [names, List.idxOf_cons, beq_false_of_ne (Ne.symm hname), cond_false] at hplace
      cases before with
      | nil => cases hplace
      | cons d before =>
        obtain ⟨v, vs', hv, hvs', rfl⟩ := inOrder?_cons.mp hvs
        obtain ⟨put, w, hopening, hw, rfl, hput⟩ :=
          rest.inOrder?_given hgiven hgiven' h (Nat.succ.inj hplace) hvs'
        refine ⟨_, w, .behind hname v hopening, hw, rfl, fun v' hv' => ?_⟩
        exact inOrder?_cons.mpr ⟨v, put v', hv, hput v' hv', rfl⟩

/-! ## Records -/

theorem Fields.idxOf_lt_size {name : String} {inner : Shape} : (fields : Fields) →
    fields.shapeOf? name = some inner → fields.names.idxOf name < fields.size
  | .nil, h => nomatch h
  | .cons field shape rest, h => by
    by_cases hname : name = field
    · subst hname
      rw [names, List.idxOf_cons_self]
      exact Nat.succ_pos _
    · rw [shapeOf?, if_neg hname] at h
      rw [names, List.idxOf_cons, beq_false_of_ne (Ne.symm hname), cond_false]
      exact Nat.succ_lt_succ (rest.idxOf_lt_size h)

theorem puts_of_list {fields : Fields} {name record : String} {inner : Shape}
    {given given' : Option Document} {before behind : List Document}
    (hinner : fields.shapeOf? name = some inner)
    (hplace : fields.names.idxOf name = before.length) (hgiven : given = none → behind = [])
    (hgiven' : given' = none → behind = []) {vs : fields.Values}
    (hvs : (Shape.record record false fields).valueOf?
      (.list (before ++ (given.toList ++ behind))) = some vs) :
    Puts name inner given given' vs ((Shape.record record false fields).valueOf?
      (.list (before ++ (given'.toList ++ behind)))) := by
  have hsize := fields.idxOf_lt_size hinner
  unfold Shape.valueOf? at hvs
  dsimp only [Shape.Value] at hvs
  split at hvs
  · cases hvs
  · next hfits =>
    -- The list has the same length as before, or ends with the field.
    have hfits' : ¬(fields.size < (before ++ (given'.toList ++ behind)).length ∨
        false = true ∧ (before ++ (given'.toList ++ behind)).length < fields.size) := by
      simp only [List.length_append, Bool.false_eq_true, false_and, or_false] at hfits ⊢
      cases given' with
      | none =>
        rw [hgiven' rfl]
        simp only [Option.toList_none, List.length_nil]
        omega
      | some d' =>
        cases given with
        | none =>
          rw [hgiven rfl]
          simp only [Option.toList_some, List.length_nil, List.length_singleton]
          omega
        | some d => exact hfits
    rw [valueOf?_record_list hfits']
    exact fields.inOrder?_given hgiven hgiven' hinner hplace hvs

/-- Documents of a record that differ in what they give for one field stand for values that differ
in that field. -/
theorem Exchanges.puts {fields : Fields} {name : String} {given given' : Option Document}
    {d d' : Document} (h : Exchanges fields name given given' d d') (inner : Shape)
    (hinner : fields.shapeOf? name = some inner) {record : String} {vs : fields.Values}
    (hvs : (Shape.record record false fields).valueOf? d = some vs) :
    Puts name inner given given' vs ((Shape.record record false fields).valueOf? d') := by
  cases h with
  | member before behind given given' hkey hsole =>
    rw [valueOf?_record_object] at hvs ⊢
    obtain ⟨ns, hns, hvs⟩ := Option.bind_eq_some_iff.mp hvs
    obtain ⟨front, back, rfl, haround, hnamed⟩ := named?_around hkey hns
    rw [hnamed given', Option.bind_some]
    exact fields.byName?_given hinner (ne_of_named? haround hsole) hvs
  | item before behind d d' hplace =>
    have hgiven : ∀ d : Document, some d = none → behind = [] := nofun
    exact puts_of_list hinner hplace (hgiven d) (hgiven d') hvs
  | last before given given' hplace =>
    rw [← List.append_nil given.toList] at hvs
    rw [← List.append_nil given'.toList]
    exact puts_of_list hinner hplace (fun _ => rfl) (fun _ => rfl) hvs

end LegBoard.Json
