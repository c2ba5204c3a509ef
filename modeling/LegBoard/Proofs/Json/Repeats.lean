import LegBoard.Proofs.WellFormed

/-!
# Members given twice

A field given twice leaves the document without a value, whatever the two members say and wherever
they stand. Members of no field may come any number of times and make no difference.
-/
namespace LegBoard.Json

/-! ## Fields given twice -/

/-- Somewhere in a document an object that is read as a record has two members with the name of one
of its fields. -/
inductive Doubles (name : String) : Shape → Document → Prop
  | here {shape : Shape} {fields : Fields} {key key' : Units} {d d' : Document}
      (before between behind : List (Units × Document)) (hfields : shape.fields? = some fields)
      (hname : name ∈ fields.names) (hkey : textOf? key = some name)
      (hkey' : textOf? key' = some name) :
      Doubles name shape (.object (before ++ (key, d) :: (between ++ (key', d') :: behind)))
  | item {shape inner : Shape} {d : Document} {ds : List Document} {i : Nat}
      (hd : ds[i]? = some d) (hinner : shape.ofItem? i = some inner) (h : Doubles name inner d) :
      Doubles name shape (.list ds)
  | member {shape inner : Shape} {key : Units} {d : Document} {ms : List (Units × Document)}
      (hmember : (key, d) ∈ ms) (hinner : shape.ofMember? key = some inner)
      (h : Doubles name inner d) : Doubles name shape (.object ms)

/-- A field has its value from the members of its name, whatever other fields there are. -/
theorem Fields.sole?_of_byName? {name : String} : (fields : Fields) → name ∈ fields.names →
    {ms : List (String × Document)} → {vs : fields.Values} → fields.byName? ms = some vs →
    ∃ (shape : Shape) (v : shape.Value),
      sole? shape.blank (fun d => shape.valueOf? d) (ms.filter (·.1 = name)) = some v
  | .nil, h, _, _, _ => nomatch h
  | .cons field shape rest, h, ms, vs, hvs => by
    obtain ⟨v, vs', hv, hvs', -⟩ := byName?_cons.mp hvs
    by_cases hname : name = field
    · subst hname
      exact ⟨shape, v, hv⟩
    · have hrest : name ∈ rest.names := by
        simpa [names, hname] using h
      obtain ⟨shape', v', hv'⟩ := rest.sole?_of_byName? hrest hvs'
      have hfilter : (ms.filter (·.1 ≠ field)).filter (·.1 = name) = ms.filter (·.1 = name) := by
        rw [List.filter_filter]
        refine List.filter_congr fun m _ => ?_
        by_cases hm : m.1 = name
        · simp [hm, hname]
        · simp [hm]
      rw [hfilter] at hv'
      exact ⟨shape', v', hv'⟩

theorem Fields.byName?_twice {fields : Fields} {name : String} (h : name ∈ fields.names)
    {d d' : Document} (front mid back : List (String × Document)) :
    fields.byName? (front ++ (name, d) :: (mid ++ (name, d') :: back)) = none := by
  refine Option.eq_none_iff_forall_ne_some.mpr fun vs hvs => ?_
  obtain ⟨shape, v, hv⟩ := fields.sole?_of_byName? h hvs
  -- The first of the two is not the only one, for the second stands behind it.
  rw [filter_middle_pos (by simp)] at hv
  obtain ⟨-, hbehind, -⟩ := sole?_middle hv
  rw [filter_middle_pos (by simp)] at hbehind
  exact List.append_ne_nil_of_right_ne_nil _ (List.cons_ne_nil _ _) hbehind

/-- An object has a value only if the record as which it is read does. -/
theorem Shape.exists_byName? {fields : Fields} {ms : List (Units × Document)} : (shape : Shape) →
    shape.fields? = some fields → {v : shape.Value} → shape.valueOf? (.object ms) = some v →
    ∃ ns vs, named? ms = some ns ∧ fields.byName? ns = some vs
  | .text, h, _, _ => nomatch h
  | .tag, h, _, _ => nomatch h
  | .optional inner, h, _, hv => by
    obtain ⟨v, hv, -⟩ := Option.map_eq_some_iff.mp hv
    exact inner.exists_byName? h hv
  | .list _, h, _, _ => nomatch h
  | .record _ _ _, h, vs, hvs => by
    cases h
    obtain ⟨ns, hns, hvs⟩ := Option.bind_eq_some_iff.mp hvs
    exact ⟨ns, vs, hns, hvs⟩

theorem Fields.shapeOf?_eq_none {name : String} : (fields : Fields) → name ∉ fields.names →
    fields.shapeOf? name = none
  | .nil, _ => rfl
  | .cons field shape rest, h => by
    obtain ⟨hne, hrest⟩ : name ≠ field ∧ name ∉ rest.names := by
      simpa only [names, List.mem_cons, not_or] using h
    rw [shapeOf?, if_neg hne, rest.shapeOf?_eq_none hrest]

theorem Shape.PassesOver.ofMember? {shape : Shape} {key : Units} (h : shape.PassesOver key) :
    shape.ofMember? key = none := by
  obtain ⟨fields, name, hfields, hkey, hname⟩ := h
  rw [Shape.ofMember?, hfields, hkey]
  exact fields.shapeOf?_eq_none hname

theorem not_doubles_null {name : String} {shape : Shape} : ¬Doubles name shape .null := nofun

/-- A document with a field given twice stands for no value. -/
theorem Doubles.valueOf? {name : String} {shape : Shape} {d : Document} (h : Doubles name shape d) :
    shape.valueOf? d = none := by
  refine Option.eq_none_iff_forall_ne_some.mpr ?_
  induction h with
  | here before between behind hfields hname hkey hkey' =>
    intro v hv
    obtain ⟨ns, vs, hns, hvs⟩ := Shape.exists_byName? _ hfields hv
    obtain ⟨_, front, rest, hfirst, -, hrest, rfl⟩ := named?_middle.mp hns
    obtain ⟨_, mid, back, hsecond, -, -, rfl⟩ := named?_middle.mp hrest
    cases hkey.symm.trans hfirst
    cases hkey'.symm.trans hsecond
    rw [Fields.byName?_twice hname] at hvs
    cases hvs
  | item hd hinner _ ih =>
    intro v hv
    obtain ⟨inner, hinner', hvalue⟩ := Shape.valueOf?_of_getElem? hd _ hv
    cases hinner.symm.trans hinner'
    obtain ⟨v, hv⟩ := Option.isSome_iff_exists.mp hvalue
    exact ih v hv
  | member hmember hinner hinside ih =>
    intro v hv
    obtain ⟨-, hpassed | rfl | ⟨inner, hinner', hvalue⟩⟩ := Shape.valueOf?_of_mem hmember _ hv
    · rw [hpassed.ofMember?] at hinner
      cases hinner
    · exact absurd hinside not_doubles_null
    · cases hinner.symm.trans hinner'
      obtain ⟨v, hv⟩ := Option.isSome_iff_exists.mp hvalue
      exact ih v hv

/-! ## Members of no field -/

/-- An object that stands somewhere in a document and is read as a record has one more member, of no
field of the record. There may be members with its key already. -/
inductive Inserts : Shape → Document → Document → Prop
  | here {shape : Shape} {key : Units} {d : Document} (before behind : List (Units × Document))
      (h : shape.PassesOver key) :
      Inserts shape (.object (before ++ behind)) (.object (before ++ (key, d) :: behind))
  | item {shape inner : Shape} {d d' : Document} (before behind : List Document)
      (hinner : shape.ofItem? before.length = some inner) (h : Inserts inner d d') :
      Inserts shape (.list (before ++ d :: behind)) (.list (before ++ d' :: behind))
  | member {shape inner : Shape} {key : Units} {d d' : Document}
      (before behind : List (Units × Document)) (hinner : shape.ofMember? key = some inner)
      (h : Inserts inner d d') :
      Inserts shape (.object (before ++ (key, d) :: behind))
        (.object (before ++ (key, d') :: behind))

/-- The same document, but for members of no field: which there are, how often, and where. -/
def SameButStrangers (shape : Shape) : Document → Document → Prop :=
  Relation.EqvGen (Inserts shape)

theorem Inserts.ne_null {shape : Shape} {d d' : Document} (h : Inserts shape d d') :
    d ≠ .null ∧ d' ≠ .null := by
  cases h <;> exact ⟨nofun, nofun⟩

/-- A member of no field may as well not be there. -/
theorem valueOf?_remove {shape : Shape} {key : Units} {d : Document}
    {before behind : List (Units × Document)} (h : shape.PassesOver key) (v : shape.Value)
    (hv : shape.valueOf? (.object (before ++ (key, d) :: behind)) = some v) :
    shape.valueOf? (.object (before ++ behind)) = some v := by
  obtain ⟨fields, name, hfields, hkey, hname⟩ := h
  refine shape.valueOf?_object (fun fields' hfields' vs hvs => ?_) (fun hnone => ?_) v hv
  · cases hfields.symm.trans hfields'
    obtain ⟨ns, hns, hvs⟩ := Option.bind_eq_some_iff.mp hvs
    obtain ⟨name', front, back, hkey', hfront, hback, rfl⟩ := named?_middle.mp hns
    cases hkey.symm.trans hkey'
    rw [fields.byName?_insert hname] at hvs
    rw [named?_append, hfront, hback]
    exact hvs
  · rw [hfields] at hnone
    cases hnone

theorem Inserts.valueOf?_iff {shape : Shape} {d d' : Document} (h : Inserts shape d d') :
    ∀ v : shape.Value, shape.valueOf? d = some v ↔ shape.valueOf? d' = some v := by
  induction h with
  | here before behind hpassed =>
    intro v
    obtain ⟨fields, name, hfields, hkey, hname⟩ := id hpassed
    exact ⟨valueOf?_insert hfields hkey hname v, valueOf?_remove hpassed v⟩
  | @item shape inner d d' before behind hinner _ ih =>
    intro v
    have hpart : ∀ inner', shape.ofItem? before.length = some inner' → ∀ v : inner'.Value,
        inner'.valueOf? d = some v ↔ inner'.valueOf? d' = some v := by
      intro inner' hinner'
      cases hinner.symm.trans hinner'
      exact ih
    constructor
    · exact shape.valueOf?_list (fun inner' hinner' v hv => (hpart inner' hinner' v).mp hv) v
    · exact shape.valueOf?_list (fun inner' hinner' v hv => (hpart inner' hinner' v).mpr hv) v
  | @member shape inner key d d' before behind hinner hinside ih =>
    intro v
    have hpart : ∀ inner', shape.ofMember? key = some inner' → ∀ v : inner'.Value,
        inner'.valueOf? d = some v ↔ inner'.valueOf? d' = some v := by
      intro inner' hinner'
      cases hinner.symm.trans hinner'
      exact ih
    obtain ⟨hnull, hnull'⟩ := hinside.ne_null
    constructor
    · exact valueOf?_member hnull (fun inner' hinner' v hv => (hpart inner' hinner' v).mp hv) v
    · exact valueOf?_member hnull' (fun inner' hinner' v hv => (hpart inner' hinner' v).mpr hv) v

theorem SameButStrangers.valueOf?_iff {shape : Shape} {d d' : Document}
    (h : SameButStrangers shape d d') (v : shape.Value) :
    shape.valueOf? d = some v ↔ shape.valueOf? d' = some v := by
  induction h with
  | rel _ _ h => exact h.valueOf?_iff v
  | refl => exact Iff.rfl
  | symm _ _ _ ih => exact ih.symm
  | trans _ _ _ _ _ ih ih' => exact ih.trans ih'

end LegBoard.Json
