import Mathlib.Logic.Relation
import LegBoard.Proofs.Json.Accepting

/-!
# Reading does not depend on how a text is dressed

Two texts of one document differ in their blanks and in how their characters are spelt. A document
may be altered further without a change of its value: members change places, members that a record
does not know come in, fields that hold `null` anyway go. The relation below says where each of
this is allowed, from the shape with which a part of the document is read.
-/
namespace LegBoard.Json

/-! ## How the parts of a document are read -/

/-- The record as which an object is read. -/
def Shape.fields? : Shape → Option Fields
  | .record _ _ fields => some fields
  | .optional inner => inner.fields?
  | _ => none

/-- The shape of the field of a name. -/
def Fields.shapeOf? : Fields → String → Option Shape
  | .nil, _ => none
  | .cons name shape rest, key => if key = name then some shape else rest.shapeOf? key

def Fields.shapeAt? : Fields → Nat → Option Shape
  | .nil, _ => none
  | .cons _ shape _, 0 => some shape
  | .cons _ _ rest, i + 1 => rest.shapeAt? i

/-- The shape with which an item of a list is read, if it is not passed over. -/
def Shape.ofItem? : Shape → Nat → Option Shape
  | .list item, _ => some item
  | .optional inner, i => inner.ofItem? i
  | .record _ _ fields, i => fields.shapeAt? i
  | _, _ => none

/-- The shape with which a member of an object is read, if it is not passed over. -/
def Shape.ofMember? (shape : Shape) (key : Units) : Option Shape := do
  let fields ← shape.fields?
  let name ← textOf? key
  fields.shapeOf? name

/-- One change to a document, or to a part of it, that is read with a shape or passed over. -/
inductive Alters : Option Shape → Document → Document → Prop
  | permute {reading : Option Shape} {ms ms' : List (Units × Document)} (h : ms.Perm ms') :
      Alters reading (.object ms) (.object ms')
  | insert {shape : Shape} {fields : Fields} {key : Units} {name : String} {d : Document}
      (before behind : List (Units × Document)) (hfields : shape.fields? = some fields)
      (hkey : textOf? key = some name) (hname : name ∉ fields.names) :
      Alters (some shape) (.object (before ++ behind)) (.object (before ++ (key, d) :: behind))
  | delete {shape inner : Shape} {fields : Fields} {key : Units} {name : String}
      (before behind : List (Units × Document)) (hfields : shape.fields? = some fields)
      (hkey : textOf? key = some name) (hoptional : fields.shapeOf? name = some (.optional inner)) :
      Alters (some shape) (.object (before ++ (key, .null) :: behind)) (.object (before ++ behind))
  | item {reading : Option Shape} {d d' : Document} (before behind : List Document)
      (h : Alters (reading.bind (·.ofItem? before.length)) d d') :
      Alters reading (.list (before ++ d :: behind)) (.list (before ++ d' :: behind))
  | member {reading : Option Shape} {key : Units} {d d' : Document}
      (before behind : List (Units × Document))
      (h : Alters (reading.bind (·.ofMember? key)) d d') :
      Alters reading (.object (before ++ (key, d) :: behind))
        (.object (before ++ (key, d') :: behind))

/-- The second text is the first one in another dress: after any number of changes to its
document, with any blanks and any spelling of its characters. -/
def Redressed (shape : Shape) (text text' : String) : Prop :=
  ∃ d d', Holds text d ∧ Relation.ReflTransGen (Alters (some shape)) d d' ∧ Holds text' d'

/-! ## Members -/

theorem sole?_perm {α : Type} (blank : α) (value? : Document → Option α)
    {ms ms' : List (String × Document)} (h : ms.Perm ms') :
    sole? blank value? ms = sole? blank value? ms' := by
  match ms, ms', h with
  | [], _, h => rw [h.nil_eq]
  | [m], _, h => rw [h.singleton_eq]
  | m :: m₁ :: ms, ms', h =>
    have hlen := h.length_eq
    match ms' with
    | [] => cases hlen
    | [m'] => cases hlen
    | m' :: m₁' :: ms' => rfl

/-- What one of several members says is only asked if it is the only one. -/
theorem sole?_middle {α : Type} {blank v : α} {value? : Document → Option α}
    {m : String × Document} {before behind : List (String × Document)}
    (h : sole? blank value? (before ++ m :: behind) = some v) :
    before = [] ∧ behind = [] ∧ value? m.2 = some v := by
  match before, behind, h with
  | [], [], h => exact ⟨rfl, rfl, h⟩
  | [], _ :: _, h => cases h
  | [_], _, h => cases h
  | _ :: _ :: _, _, h => cases h

theorem Fields.byName?_perm : (fields : Fields) → {ms ms' : List (String × Document)} →
    ms.Perm ms' → fields.byName? ms = fields.byName? ms'
  | .nil, _, _, _ => rfl
  | .cons name shape rest, _, _, h => by
    rw [byName?, byName?, sole?_perm _ _ (h.filter _), rest.byName?_perm (h.filter _)]

theorem filter_middle_pos {α : Type} {p : α → Bool} {a : α} (h : p a = true)
    (before behind : List α) :
    (before ++ a :: behind).filter p = before.filter p ++ a :: behind.filter p := by
  rw [List.filter_append, List.filter_cons_of_pos h]

theorem filter_middle_neg {α : Type} {p : α → Bool} {a : α} (h : ¬p a = true)
    (before behind : List α) :
    (before ++ a :: behind).filter p = before.filter p ++ behind.filter p := by
  rw [List.filter_append, List.filter_cons_of_neg h]

/-- A member of no field does not count. -/
theorem Fields.byName?_insert {name : String} {d : Document} : (fields : Fields) →
    name ∉ fields.names → (before behind : List (String × Document)) →
    fields.byName? (before ++ (name, d) :: behind) = fields.byName? (before ++ behind)
  | .nil, _, _, _ => rfl
  | .cons field shape rest, h, before, behind => by
    obtain ⟨hne, hrest⟩ : name ≠ field ∧ name ∉ rest.names := by
      simpa only [names, List.mem_cons, not_or] using h
    rw [byName?, byName?, filter_middle_neg (by simpa using hne),
      filter_middle_pos (by simpa using hne), rest.byName?_insert hrest, List.filter_append,
      List.filter_append]

/-- A field that holds `null` anyway may as well not be given. -/
theorem Fields.byName?_delete {name : String} {inner : Shape} : (fields : Fields) →
    fields.shapeOf? name = some (.optional inner) → {vs : fields.Values} →
    {before behind : List (String × Document)} →
    fields.byName? (before ++ (name, .null) :: behind) = some vs →
    fields.byName? (before ++ behind) = some vs
  | .nil, h, _, _, _, _ => nomatch h
  | .cons field shape rest, h, vs, before, behind, hvs => by
    obtain ⟨v, vs', hv, hvs', heq⟩ := byName?_cons.mp hvs
    refine byName?_cons.mpr ⟨v, vs', ?_, ?_, heq⟩
    · by_cases hname : name = field
      · rw [shapeOf?, if_pos hname] at h
        cases h
        rw [filter_middle_pos (by simpa using hname)] at hv
        obtain ⟨hbefore, hbehind, hnull⟩ := sole?_middle hv
        rw [List.filter_append, hbefore, hbehind]
        exact hnull
      · rw [filter_middle_neg (by simpa using hname), ← List.filter_append] at hv
        exact hv
    · by_cases hname : name = field
      · rw [filter_middle_neg (by simpa using hname), ← List.filter_append] at hvs'
        exact hvs'
      · rw [shapeOf?, if_neg hname] at h
        rw [filter_middle_pos (by simpa using hname)] at hvs'
        rw [List.filter_append]
        exact rest.byName?_delete h hvs'

/-- A member matters by its value only, and only if it is of a field. -/
theorem Fields.byName?_member {name : String} {d d' : Document} : (fields : Fields) →
    (∀ shape, fields.shapeOf? name = some shape →
      ∀ v, shape.valueOf? d = some v → shape.valueOf? d' = some v) →
    {vs : fields.Values} → {before behind : List (String × Document)} →
    fields.byName? (before ++ (name, d) :: behind) = some vs →
    fields.byName? (before ++ (name, d') :: behind) = some vs
  | .nil, _, _, _, _, hvs => hvs
  | .cons field shape rest, h, vs, before, behind, hvs => by
    obtain ⟨v, vs', hv, hvs', heq⟩ := byName?_cons.mp hvs
    refine byName?_cons.mpr ⟨v, vs', ?_, ?_, heq⟩
    · by_cases hname : name = field
      · rw [filter_middle_pos (by simpa using hname)] at hv ⊢
        obtain ⟨hbefore, hbehind, hvalue⟩ := sole?_middle hv
        rw [hbefore, hbehind]
        exact h shape (if_pos hname) v hvalue
      · rw [filter_middle_neg (by simpa using hname)] at hv ⊢
        exact hv
    · by_cases hname : name = field
      · rw [filter_middle_neg (by simpa using hname)] at hvs' ⊢
        exact hvs'
      · rw [filter_middle_pos (by simpa using hname)] at hvs' ⊢
        refine rest.byName?_member (fun shape' hshape' => h shape' ?_) hvs'
        rw [shapeOf?, if_neg hname, hshape']

/-! ## Items -/

theorem mapM_middle {α β : Type} {f : α → Option β} {a : α} {before behind : List α}
    {bs : List β} : (before ++ a :: behind).mapM f = some bs ↔
      ∃ front b back, before.mapM f = some front ∧ f a = some b ∧ behind.mapM f = some back ∧
        bs = front ++ b :: back := by
  rw [List.mapM_append, List.mapM_cons]
  cases before.mapM f <;> cases f a <;> cases behind.mapM f <;> simp [eq_comm]

theorem Fields.inOrder?_item {d d' : Document} : (fields : Fields) →
    {vs : fields.Values} → {before behind : List Document} →
    (∀ shape, fields.shapeAt? before.length = some shape →
      ∀ v, shape.valueOf? d = some v → shape.valueOf? d' = some v) →
    fields.inOrder? (before ++ d :: behind) = some vs →
    fields.inOrder? (before ++ d' :: behind) = some vs
  | .nil, _, _, _, _, hvs => hvs
  | .cons field shape rest, vs, before, behind, h, hvs => by
    cases before with
    | nil =>
      obtain ⟨v, vs', hv, hvs', heq⟩ := inOrder?_cons.mp hvs
      exact inOrder?_cons.mpr ⟨v, vs', h shape rfl v hv, hvs', heq⟩
    | cons d₀ before =>
      obtain ⟨v, vs', hv, hvs', heq⟩ := inOrder?_cons.mp hvs
      exact inOrder?_cons.mpr ⟨v, vs', hv, rest.inOrder?_item h hvs', heq⟩

/-! ## Objects -/

theorem named?_cons (key : Units) (d : Document) (ms : List (Units × Document)) :
    named? ((key, d) :: ms) =
      (textOf? key).bind fun name => (named? ms).map ((name, d) :: ·) := by
  rw [named?, List.mapM_cons]
  cases textOf? key with
  | none => rfl
  | some name => exact Option.map_eq_bind.symm

theorem named?_append (before behind : List (Units × Document)) :
    named? (before ++ behind) =
      (named? before).bind fun ns => (named? behind).map (ns ++ ·) := by
  rw [named?, List.mapM_append]
  exact congrArg (named? before).bind (funext fun ns => Option.map_eq_bind.symm)

/-- The names of members among others. -/
theorem named?_middle {key : Units} {d : Document} {before behind : List (Units × Document)}
    {ns : List (String × Document)} :
    named? (before ++ (key, d) :: behind) = some ns ↔
      ∃ name front back, textOf? key = some name ∧ named? before = some front ∧
        named? behind = some back ∧ ns = front ++ (name, d) :: back := by
  rw [named?, mapM_middle]
  constructor
  · rintro ⟨front, m, back, hfront, hm, hback, heq⟩
    obtain ⟨name, hkey, rfl⟩ := Option.map_eq_some_iff.mp hm
    exact ⟨name, front, back, hkey, hfront, hback, heq⟩
  · rintro ⟨name, front, back, hkey, hfront, hback, heq⟩
    exact ⟨front, (name, d), back, hfront, Option.map_eq_some_iff.mpr ⟨name, hkey, rfl⟩, hback, heq⟩

theorem any_of_named? {ms : List (Units × Document)} {ns : List (String × Document)} {name : String}
    (h : named? ms = some ns) :
    ns.any (·.1 = name) = true ↔ ∃ m ∈ ms, textOf? m.1 = some name := by
  induction ms generalizing ns with
  | nil =>
    cases h
    simp
  | cons m ms ih =>
    obtain ⟨key, d⟩ := m
    rw [named?_cons] at h
    obtain ⟨name', hkey, h⟩ := Option.bind_eq_some_iff.mp h
    obtain ⟨back, hback, rfl⟩ := Option.map_eq_some_iff.mp h
    rw [List.any_cons, Bool.or_eq_true, ih hback]
    simp [hkey]

theorem named?_perm {ms ms' : List (Units × Document)} (h : ms.Perm ms')
    {ns : List (String × Document)} (hns : named? ms = some ns) :
    ∃ ns', named? ms' = some ns' ∧ ns.Perm ns' := by
  induction h generalizing ns with
  | nil => exact ⟨ns, hns, .refl ns⟩
  | cons m _ ih =>
    rw [named?_cons] at hns
    obtain ⟨name, hkey, hns⟩ := Option.bind_eq_some_iff.mp hns
    obtain ⟨back, hback, rfl⟩ := Option.map_eq_some_iff.mp hns
    obtain ⟨back', hback', hperm⟩ := ih hback
    refine ⟨(name, m.2) :: back', ?_, hperm.cons _⟩
    rw [named?_cons, hkey, hback']
    rfl
  | swap m m' ms =>
    obtain ⟨key, d⟩ := m
    obtain ⟨key', d'⟩ := m'
    rw [named?_cons, named?_cons] at hns
    obtain ⟨name', hkey', hns⟩ := Option.bind_eq_some_iff.mp hns
    obtain ⟨tail, htail, rfl⟩ := Option.map_eq_some_iff.mp hns
    obtain ⟨name, hkey, hmap⟩ := Option.bind_eq_some_iff.mp htail
    obtain ⟨back, hback, rfl⟩ := Option.map_eq_some_iff.mp hmap
    refine ⟨(name, d) :: (name', d') :: back, ?_, .swap _ _ _⟩
    simp only [named?_cons, hkey, hkey', hback, Option.bind_some, Option.map_some]
  | trans _ _ ih ih' =>
    obtain ⟨ns₁, hns₁, hperm₁⟩ := ih hns
    obtain ⟨ns₂, hns₂, hperm₂⟩ := ih' hns₁
    exact ⟨ns₂, hns₂, hperm₁.trans hperm₂⟩

/-- An object stands for what it stood for if the record as which it is read does, and the name
as which it is read if it is not read as a record. -/
theorem Shape.valueOf?_object {ms ms' : List (Units × Document)} : (shape : Shape) →
    (∀ fields, shape.fields? = some fields → ∀ vs, (named? ms).bind fields.byName? = some vs →
      (named? ms').bind fields.byName? = some vs) →
    (shape.fields? = none → ∀ t, tagOf? (.object ms) = some t → tagOf? (.object ms') = some t) →
    ∀ v, shape.valueOf? (.object ms) = some v → shape.valueOf? (.object ms') = some v
  | .text, _, _, v, hv => nomatch hv
  | .tag, _, htag, t, ht => htag rfl t ht
  | .optional inner, hrecord, htag, v, hv => by
    obtain ⟨v', hv', rfl⟩ := Option.map_eq_some_iff.mp hv
    exact Option.map_eq_some_iff.mpr ⟨v', inner.valueOf?_object hrecord htag v' hv', rfl⟩
  | .list _, _, _, v, hv => nomatch hv
  | .record _ _ fields, hrecord, _, vs, hvs => hrecord fields rfl vs hvs

theorem Shape.valueOf?_list {d d' : Document} {before behind : List Document} : (shape : Shape) →
    (∀ item, shape.ofItem? before.length = some item →
      ∀ v, item.valueOf? d = some v → item.valueOf? d' = some v) →
    ∀ v, shape.valueOf? (.list (before ++ d :: behind)) = some v →
      shape.valueOf? (.list (before ++ d' :: behind)) = some v
  | .text, _, v, hv => nomatch hv
  | .tag, _, v, hv => nomatch hv
  | .optional inner, h, v, hv => by
    obtain ⟨v', hv', rfl⟩ := Option.map_eq_some_iff.mp hv
    exact Option.map_eq_some_iff.mpr ⟨v', inner.valueOf?_list h v' hv', rfl⟩
  | .list item, h, vs, hvs => by
    obtain ⟨front, v, back, hfront, hv, hback, heq⟩ := mapM_middle.mp hvs
    exact mapM_middle.mpr ⟨front, v, back, hfront, h item rfl v hv, hback, heq⟩
  | .record _ whole fields, h, vs, hvs => by
    have hlen : (before ++ d' :: behind).length = (before ++ d :: behind).length := by
      simp only [List.length_append, List.length_cons]
    unfold valueOf? at hvs ⊢
    dsimp only [Value] at hvs ⊢
    rw [hlen]
    split at hvs
    · cases hvs
    · next hfits =>
      rw [if_neg hfits]
      exact fields.inOrder?_item h hvs

/-- The only member of a name holds `null`, which no change applies to. -/
theorem tagOf?_object_eq_some {ms : List (Units × Document)} {t : String}
    (h : tagOf? (.object ms) = some t) : ∃ key, ms = [(key, .null)] := by
  unfold tagOf? at h
  split at h
  · next heq => cases heq
  · next key heq =>
    cases heq
    exact ⟨key, rfl⟩
  · cases h

theorem Alters.ne_null {reading : Option Shape} {d d' : Document} (h : Alters reading d d') :
    d ≠ .null := by
  rintro rfl
  cases h

/-! ## Documents -/

theorem valueOf?_permute {ms ms' : List (Units × Document)} (h : ms.Perm ms') (shape : Shape)
    (v : shape.Value) (hv : shape.valueOf? (.object ms) = some v) :
    shape.valueOf? (.object ms') = some v := by
  refine shape.valueOf?_object (fun fields _ vs hvs => ?_) (fun _ t ht => ?_) v hv
  · obtain ⟨ns, hns, hvs⟩ := Option.bind_eq_some_iff.mp hvs
    obtain ⟨ns', hns', hperm⟩ := named?_perm h hns
    rw [hns', Option.bind_some, ← fields.byName?_perm hperm, hvs]
  · obtain ⟨key, rfl⟩ := tagOf?_object_eq_some ht
    rw [← h.singleton_eq, ht]

theorem valueOf?_insert {shape : Shape} {fields : Fields} {key : Units} {name : String}
    {d : Document} {before behind : List (Units × Document)}
    (hfields : shape.fields? = some fields) (hkey : textOf? key = some name)
    (hname : name ∉ fields.names) (v : shape.Value)
    (hv : shape.valueOf? (.object (before ++ behind)) = some v) :
    shape.valueOf? (.object (before ++ (key, d) :: behind)) = some v := by
  refine shape.valueOf?_object (fun fields' hfields' vs hvs => ?_) (fun hnone => ?_) v hv
  · cases hfields.symm.trans hfields'
    obtain ⟨ns, hns, hvs⟩ := Option.bind_eq_some_iff.mp hvs
    rw [named?_append] at hns
    obtain ⟨front, hfront, hns⟩ := Option.bind_eq_some_iff.mp hns
    obtain ⟨back, hback, rfl⟩ := Option.map_eq_some_iff.mp hns
    rw [named?_middle.mpr ⟨name, front, back, hkey, hfront, hback, rfl⟩, Option.bind_some,
      fields.byName?_insert hname, hvs]
  · rw [hfields] at hnone
    cases hnone

theorem valueOf?_delete {shape inner : Shape} {fields : Fields} {key : Units} {name : String}
    {before behind : List (Units × Document)} (hfields : shape.fields? = some fields)
    (hkey : textOf? key = some name) (hoptional : fields.shapeOf? name = some (.optional inner))
    (v : shape.Value) (hv : shape.valueOf? (.object (before ++ (key, .null) :: behind)) = some v) :
    shape.valueOf? (.object (before ++ behind)) = some v := by
  refine shape.valueOf?_object (fun fields' hfields' vs hvs => ?_) (fun hnone => ?_) v hv
  · cases hfields.symm.trans hfields'
    obtain ⟨ns, hns, hvs⟩ := Option.bind_eq_some_iff.mp hvs
    obtain ⟨name', front, back, hkey', hfront, hback, rfl⟩ := named?_middle.mp hns
    cases hkey.symm.trans hkey'
    rw [named?_append, hfront, hback]
    exact fields.byName?_delete hoptional hvs
  · rw [hfields] at hnone
    cases hnone

theorem valueOf?_member {shape : Shape} {key : Units} {d d' : Document}
    {before behind : List (Units × Document)} (hnull : d ≠ .null)
    (h : ∀ inner, shape.ofMember? key = some inner →
      ∀ v, inner.valueOf? d = some v → inner.valueOf? d' = some v)
    (v : shape.Value) (hv : shape.valueOf? (.object (before ++ (key, d) :: behind)) = some v) :
    shape.valueOf? (.object (before ++ (key, d') :: behind)) = some v := by
  refine shape.valueOf?_object (fun fields hfields vs hvs => ?_) (fun _ t ht => ?_) v hv
  · obtain ⟨ns, hns, hvs⟩ := Option.bind_eq_some_iff.mp hvs
    obtain ⟨name, front, back, hkey, hfront, hback, rfl⟩ := named?_middle.mp hns
    rw [named?_middle.mpr ⟨name, front, back, hkey, hfront, hback, rfl⟩, Option.bind_some]
    refine fields.byName?_member (fun inner hinner => h inner ?_) hvs
    rw [Shape.ofMember?, hfields, hkey]
    exact hinner
  · obtain ⟨key', hms⟩ := tagOf?_object_eq_some ht
    have hmem : (key, d) ∈ [(key', Document.null)] := hms ▸ List.mem_append_cons_self
    exact absurd (Prod.mk.inj (List.mem_singleton.mp hmem)).2 hnull

/-- No change makes a difference to what a document stands for. -/
theorem Alters.valueOf? {reading : Option Shape} {d d' : Document} (h : Alters reading d d') :
    ∀ shape, reading = some shape → ∀ v : shape.Value, shape.valueOf? d = some v →
      shape.valueOf? d' = some v := by
  induction h with
  | permute hperm => exact fun shape _ => valueOf?_permute hperm shape
  | insert _ _ hfields hkey hname =>
    rintro shape ⟨⟩
    exact valueOf?_insert hfields hkey hname
  | delete _ _ hfields hkey hoptional =>
    rintro shape ⟨⟩
    exact valueOf?_delete hfields hkey hoptional
  | item _ _ _ ih =>
    rintro shape rfl
    exact shape.valueOf?_list ih
  | member _ _ hchange ih =>
    rintro shape rfl
    exact valueOf?_member hchange.ne_null ih

/-- Any number of them makes no difference either. -/
theorem valueOf?_of_alters {shape : Shape} {d d' : Document}
    (h : Relation.ReflTransGen (Alters (some shape)) d d') {v : shape.Value}
    (hv : shape.valueOf? d = some v) : shape.valueOf? d' = some v := by
  induction h with
  | refl => exact hv
  | tail _ hchange ih => exact hchange.valueOf? shape rfl v ih

theorem Shape.readAll_redressed {shape : Shape} {text text' : String} {v : shape.Value}
    (h : shape.readAll text = .ok v) (hdress : Redressed shape text text') :
    shape.readAll text' = .ok v := by
  obtain ⟨d, d', hd, hchanges, hd'⟩ := hdress
  have hvalue := readAll_holds hd shape
  rw [h] at hvalue
  exact readAll_eq_ok_iff.mpr ⟨d', hd', valueOf?_of_alters hchanges hvalue.symm⟩

end LegBoard.Json
