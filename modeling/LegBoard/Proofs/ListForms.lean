import LegBoard.Proofs.Formats
import LegBoard.Proofs.Json.Assembly
import LegBoard.Proofs.Json.Redressing

/-!
# Records written as lists

A record may be written as the list of its values, the first ones of them if not all. It is then
read as the object that has these values under the names of the record's fields. Where records
stand inside of records, each may be written in either way. Which of the two faults is told when
both are refused is not said.
-/
namespace LegBoard.Json

/-! ## Either form of a record -/

/-- The least number of items in a list as which a record is written. -/
def Shape.least : Shape → Nat
  | .record _ true fields => fields.size
  | .optional inner => inner.least
  | _ => 0

/-- A record that stands somewhere in a document is written as an object instead of a list. -/
inductive Reforms : Option Shape → Document → Document → Prop
  | record {shape : Shape} {fields : Fields} {ds : List Document}
      (hfields : shape.fields? = some fields) (hleast : shape.least ≤ ds.length)
      (hmost : ds.length ≤ fields.size) :
      Reforms (some shape) (.list ds) (.object (membersOf fields.names ds))
  | item {reading : Option Shape} {d d' : Document} (before behind : List Document)
      (h : Reforms (reading.bind (·.ofItem? before.length)) d d') :
      Reforms reading (.list (before ++ d :: behind)) (.list (before ++ d' :: behind))
  | member {reading : Option Shape} {key : Units} {d d' : Document}
      (before behind : List (Units × Document))
      (h : Reforms (reading.bind (·.ofMember? key)) d d') :
      Reforms reading (.object (before ++ (key, d) :: behind))
        (.object (before ++ (key, d') :: behind))

/-- The same document, but for which of its records are written as lists. -/
def SameButForms (shape : Shape) : Document → Document → Prop :=
  Relation.EqvGen (Reforms (some shape))

/-! ## Order and names -/

theorem Fields.length_names (fields : Fields) : fields.names.length = fields.size := by
  cases fields with
  | nil => rfl
  | cons name shape rest => exact congrArg (· + 1) rest.length_names

theorem Fields.byName?_nil (fields : Fields) : fields.byName? [] = some fields.blank := by
  cases fields with
  | nil => rfl
  | cons name shape rest =>
    rw [byName?, List.filter_nil, List.filter_nil, rest.byName?_nil]
    rfl

/-- Values in order are found under the names in order. -/
theorem Fields.inOrder?_eq_byName? : (fields : Fields) → fields.isUnambiguous = true →
    (ds : List Document) → fields.inOrder? ds = fields.byName? (fields.names.zip ds)
  | .nil, _, _ => rfl
  | .cons name shape rest, _, [] => by
    rw [inOrder?_nil, List.zip_nil_right, byName?_nil]
  | .cons name shape rest, h, d :: ds => by
    simp only [isUnambiguous, Bool.and_eq_true, Bool.not_eq_true'] at h
    obtain ⟨⟨hname, -⟩, hrest⟩ := h
    -- The field finds its own value and leaves those behind it alone, for its name is not theirs.
    have hother : ∀ m ∈ rest.names.zip ds, m.1 ≠ name := by
      rintro ⟨key, d'⟩ hmem rfl
      have hkey := (List.of_mem_zip hmem).1
      rw [← List.contains_iff_mem, hname] at hkey
      cases hkey
    have hfound : ((name, d) :: rest.names.zip ds).filter (·.1 = name) = [(name, d)] := by
      rw [List.filter_cons_of_pos (by simp), List.filter_eq_nil_iff.mpr]
      intro m hm
      simpa using hother m hm
    have hkept : ((name, d) :: rest.names.zip ds).filter (·.1 ≠ name) = rest.names.zip ds := by
      rw [List.filter_cons_of_neg (by simp), List.filter_eq_self.mpr]
      intro m hm
      simpa using hother m hm
    rw [names, List.zip_cons_cons, byName?, hfound, hkept, ← rest.inOrder?_eq_byName? hrest ds]
    rfl

theorem named?_membersOf : (names : List String) → (ds : List Document) →
    named? (membersOf names ds) = some (names.zip ds)
  | [], _ => rfl
  | _ :: _, [] => rfl
  | name :: names, d :: ds => by
    have hcons : membersOf (name :: names) (d :: ds) =
        (unitsOfText name, d) :: membersOf names ds := rfl
    rw [hcons, named?_cons, textOf?_unitsOfText, named?_membersOf names ds]
    rfl

/-! ## Unambiguous parts -/

theorem Fields.isUnambiguous_shapeOf? {name : String} {inner : Shape} : (fields : Fields) →
    fields.isUnambiguous = true → fields.shapeOf? name = some inner → inner.isUnambiguous = true
  | .nil, _, h => nomatch h
  | .cons field shape rest, h, hinner => by
    simp only [isUnambiguous, Bool.and_eq_true] at h
    rw [shapeOf?] at hinner
    split at hinner
    · cases hinner
      exact h.1.2
    · exact rest.isUnambiguous_shapeOf? h.2 hinner

theorem Fields.isUnambiguous_shapeAt? {inner : Shape} : (fields : Fields) → {i : Nat} →
    fields.isUnambiguous = true → fields.shapeAt? i = some inner → inner.isUnambiguous = true
  | .nil, _, _, h => nomatch h
  | .cons field shape rest, 0, h, hinner => by
    simp only [isUnambiguous, Bool.and_eq_true] at h
    cases hinner
    exact h.1.2
  | .cons field shape rest, i + 1, h, hinner => by
    simp only [isUnambiguous, Bool.and_eq_true] at h
    exact rest.isUnambiguous_shapeAt? h.2 hinner

theorem Shape.isUnambiguous_fields? {fields : Fields} : (shape : Shape) →
    shape.isUnambiguous = true → shape.fields? = some fields → fields.isUnambiguous = true
  | .text, _, h => nomatch h
  | .tag, _, h => nomatch h
  | .optional inner, h, hfields => by
    simp only [isUnambiguous, Bool.and_eq_true] at h
    exact inner.isUnambiguous_fields? h.2 hfields
  | .list _, _, h => nomatch h
  | .record _ _ _, h, hfields => by
    cases hfields
    exact h

theorem Shape.isUnambiguous_ofItem? {i : Nat} : (shape : Shape) → {part : Shape} →
    shape.isUnambiguous = true → shape.ofItem? i = some part → part.isUnambiguous = true
  | .text, _, _, h => nomatch h
  | .tag, _, _, h => nomatch h
  | .optional inner, _, h, hitem => by
    simp only [isUnambiguous, Bool.and_eq_true] at h
    exact inner.isUnambiguous_ofItem? h.2 hitem
  | .list _, _, h, hitem => by
    cases hitem
    exact h
  | .record _ _ fields, _, h, hitem => fields.isUnambiguous_shapeAt? h hitem

theorem Shape.isUnambiguous_ofMember? {shape inner : Shape} {key : Units}
    (h : shape.isUnambiguous = true) (hmember : shape.ofMember? key = some inner) :
    inner.isUnambiguous = true := by
  obtain ⟨fields, hfields, hmember⟩ := Option.bind_eq_some_iff.mp hmember
  obtain ⟨name, -, hinner⟩ := Option.bind_eq_some_iff.mp hmember
  exact fields.isUnambiguous_shapeOf? (shape.isUnambiguous_fields? h hfields) hinner

/-! ## Either form has the same value -/

theorem Shape.valueOf?_membersOf {fields : Fields} {ds : List Document}
    (hmost : ds.length ≤ fields.size) : (shape : Shape) → shape.isUnambiguous = true →
    shape.fields? = some fields → shape.least ≤ ds.length →
    shape.valueOf? (.list ds) = shape.valueOf? (.object (membersOf fields.names ds))
  | .text, _, h, _ => nomatch h
  | .tag, _, h, _ => nomatch h
  | .optional inner, h, hfields, hleast => by
    simp only [isUnambiguous, Bool.and_eq_true] at h
    have hinner := inner.valueOf?_membersOf hmost h.2 hfields hleast
    exact congrArg (Option.map some) hinner
  | .list _, _, h, _ => nomatch h
  | .record _ whole fields', h, hfields, hleast => by
    obtain rfl : fields' = fields := Option.some.inj hfields
    have hfits : ¬(fields'.size < ds.length ∨ whole = true ∧ ds.length < fields'.size) := by
      rintro (hlong | ⟨rfl, hshort⟩)
      · omega
      · have hsize : fields'.size ≤ ds.length := hleast
        omega
    rw [valueOf?_record_list hfits, valueOf?_record_object, named?_membersOf, Option.bind_some,
      fields'.inOrder?_eq_byName? h]

/-- A list that is too short or too long for a record has no value. -/
theorem Shape.valueOf?_list_eq_none {fields : Fields} {ds : List Document} : (shape : Shape) →
    shape.fields? = some fields → (ds.length < shape.least ∨ fields.size < ds.length) →
    shape.valueOf? (.list ds) = none
  | .text, h, _ => nomatch h
  | .tag, h, _ => nomatch h
  | .optional inner, hfields, hlength => by
    have hinner := inner.valueOf?_list_eq_none hfields hlength
    exact congrArg (Option.map some) hinner
  | .list _, h, _ => nomatch h
  | .record _ whole fields', hfields, hlength => by
    obtain rfl : fields' = fields := Option.some.inj hfields
    unfold valueOf?
    apply if_pos
    rcases hlength with hshort | hlong
    · cases whole with
      | true => exact .inr ⟨rfl, hshort⟩
      | false => exact absurd hshort (Nat.not_lt_zero _)
    · exact .inl hlong

theorem Reforms.ne_null {reading : Option Shape} {d d' : Document} (h : Reforms reading d d') :
    d ≠ .null ∧ d' ≠ .null := by
  cases h <;> exact ⟨nofun, nofun⟩

/-- Writing one record as an object makes no difference to what a document stands for. -/
theorem Reforms.valueOf?_iff {reading : Option Shape} {d d' : Document} (h : Reforms reading d d') :
    ∀ shape, reading = some shape → shape.isUnambiguous = true → ∀ v : shape.Value,
      shape.valueOf? d = some v ↔ shape.valueOf? d' = some v := by
  induction h with
  | record hfields hleast hmost =>
    rintro _ ⟨⟩ hclear v
    rw [Shape.valueOf?_membersOf hmost _ hclear hfields hleast]
  | item _ _ _ ih =>
    rintro shape rfl hclear v
    have hpart := fun inner hinner => ih inner hinner (shape.isUnambiguous_ofItem? hclear hinner)
    -- A part is exchanged from left to right only, so the lemma is used once for each direction.
    constructor
    · exact shape.valueOf?_list (fun inner hinner v hv => (hpart inner hinner v).mp hv) v
    · exact shape.valueOf?_list (fun inner hinner v hv => (hpart inner hinner v).mpr hv) v
  | member _ _ hinside ih =>
    rintro shape rfl hclear v
    have hpart := fun inner hinner => ih inner hinner (Shape.isUnambiguous_ofMember? hclear hinner)
    obtain ⟨hnull, hnull'⟩ := hinside.ne_null
    constructor
    · exact valueOf?_member hnull (fun inner hinner v hv => (hpart inner hinner v).mp hv) v
    · exact valueOf?_member hnull' (fun inner hinner v hv => (hpart inner hinner v).mpr hv) v

theorem SameButForms.valueOf?_iff {shape : Shape} (hclear : shape.isUnambiguous = true)
    {d d' : Document} (h : SameButForms shape d d') (v : shape.Value) :
    shape.valueOf? d = some v ↔ shape.valueOf? d' = some v := by
  induction h with
  | rel _ _ h => exact h.valueOf?_iff shape rfl hclear v
  | refl => exact Iff.rfl
  | symm _ _ _ ih => exact ih.symm
  | trans _ _ _ _ _ ih ih' => exact ih.trans ih'

/-! ## Texts -/

theorem parse_eq_ok_iff {α : Type} [Format α] {text : String} {d : Document} (h : Holds text d)
    {a : α} : parse α text = .ok a ↔
      ∃ v, (Format.shape α).valueOf? d = some v ∧ Format.ofValue v = a := by
  have hread := Shape.readAll_holds h (Format.shape α)
  rw [← hread, parse]
  cases (Format.shape α).readAll text with
  | error fault =>
    constructor
    · intro heq
      cases heq
    · rintro ⟨v, hv, -⟩
      cases hv
  | ok v =>
    constructor
    · intro heq
      exact ⟨v, rfl, Except.ok.inj heq⟩
    · rintro ⟨v', ⟨⟩, rfl⟩
      rfl

theorem parse_eq_error {α : Type} [Format α] {text : String} {d : Document} (h : Holds text d)
    (hnone : (Format.shape α).valueOf? d = none) : ∃ fault, parse α text = .error fault := by
  cases hparse : parse α text with
  | error fault => exact ⟨fault, rfl⟩
  | ok a =>
    obtain ⟨v, hv, -⟩ := (parse_eq_ok_iff h).mp hparse
    rw [hnone] at hv
    cases hv

/-- Texts of a type may be lists of the values of its fields, which have these names in order. -/
structure ListForms (α : Type) [Format α] (least : Nat) (names : List String) : Prop where
  /-- A list of values is read as the object that has them under the first names. -/
  object : ∀ vs : List String, (∀ v ∈ vs, ∃ d, Holds v d) → least ≤ vs.length →
    vs.length ≤ names.length → ∀ a : α,
      parse α (listText vs) = .ok a ↔ parse α (objectText (names.zip vs)) = .ok a
  /-- Records inside of the text may be of either form, each by itself. -/
  nested : ∀ (text text' : String) (d d' : Document), Holds text d → Holds text' d' →
    SameButForms (Format.shape α) d d' → ∀ a : α, parse α text = .ok a ↔ parse α text' = .ok a
  short : ∀ vs : List String, (∀ v ∈ vs, ∃ d, Holds v d) → vs.length < least →
    ∃ fault, parse α (listText vs) = .error fault
  long : ∀ vs : List String, (∀ v ∈ vs, ∃ d, Holds v d) → names.length < vs.length →
    ∃ fault, parse α (listText vs) = .error fault

theorem listForms_of_lawful {α : Type} [Format α] [LawfulFormat α] {fields : Fields} {least : Nat}
    {names : List String} (hfields : (Format.shape α).fields? = some fields)
    (hleast : (Format.shape α).least = least) (hnames : fields.names = names)
    (hplain : names.all isPlainName = true) : ListForms α least names := by
  subst hleast hnames
  have hnested : ∀ (text text' : String) (d d' : Document), Holds text d → Holds text' d' →
      SameButForms (Format.shape α) d d' → ∀ a : α,
        parse α text = .ok a ↔ parse α text' = .ok a := by
    intro text text' d d' hd hd' hsame a
    rw [parse_eq_ok_iff hd, parse_eq_ok_iff hd']
    simp only [hsame.valueOf?_iff LawfulFormat.isUnambiguous]
  have hrefused : ∀ vs : List String, (∀ v ∈ vs, ∃ d, Holds v d) →
      (vs.length < (Format.shape α).least ∨ fields.size < vs.length) →
      ∃ fault, parse α (listText vs) = .error fault := by
    intro vs hvs hlength
    obtain ⟨ds, hds⟩ := exists_documents hvs
    rw [hds.length_eq] at hlength
    exact parse_eq_error (holds_listText hds) (Shape.valueOf?_list_eq_none _ hfields hlength)
  constructor
  · intro vs hvs hleast hmost
    obtain ⟨ds, hds⟩ := exists_documents hvs
    rw [hds.length_eq] at hleast hmost
    rw [fields.length_names] at hmost
    apply hnested _ _ _ _ (holds_listText hds) (holds_objectText hds hplain)
    exact .rel _ _ (.record hfields hleast hmost)
  · exact hnested
  · intro vs hvs hshort
    exact hrefused vs hvs (.inl hshort)
  · intro vs hvs hlong
    rw [fields.length_names] at hlong
    exact hrefused vs hvs (.inr hlong)

end LegBoard.Json

namespace LegBoard

open LegBoard.Json
open Transit

/-- Every record of an itinerary may be written as a list of its first values. The variables of the
line query need all of theirs, so the empty list is none of them, while the empty object is. -/
theorem records_listForms :
    ListForms Presentation 0 ["colour", "textColour"] ∧
    ListForms Line 0 ["id", "publicCode", "presentation"] ∧
    ListForms DestinationDisplay 0 ["frontText"] ∧
    ListForms EstimatedCall 0 ["destinationDisplay"] ∧
    ListForms Leg 0 ["mode", "line", "toEstimatedCall"] ∧
    ListForms Itinerary 0 ["legs"] ∧
    ListForms LineQueryVariables 1 ["id"] ∧
    (∃ fault, parse LineQueryVariables "[]" = .error fault) ∧
    parse LineQueryVariables "\x7b\x7d" = .ok ⟨none⟩ := by
  refine ⟨?_, ?_, ?_, ?_, ?_, ?_, ?_, ⟨_, rfl⟩, rfl⟩
  all_goals exact listForms_of_lawful rfl rfl rfl (by decide)

theorem holds_quoted {text name : String} (h : isPlainName name = true)
    (htext : text.toList = '"' :: name.toList ++ ['"']) :
    Holds text (.text (unitsOfText name)) := by
  refine ⟨_, [], .nil _, ?_, .nil _⟩
  rw [htext]
  exact .text (spelt_raw _ h)

def busValue : Document := .text (unitsOfText "bus")

def idValue : Document := .text (unitsOfText "A")

theorem reforms_line : Reforms (some (.optional Line.shape)) (.list [idValue])
    (.object (membersOf ["id", "publicCode", "presentation"] [idValue])) := by
  have hfields : (Shape.optional Line.shape).fields? = some _ := rfl
  exact .record hfields (by decide) (by decide)

theorem sameButForms_leg : SameButForms Leg.shape (.list [busValue, .list [idValue]])
    (.object (membersOf ["mode", "line", "toEstimatedCall"] [busValue,
      .object (membersOf ["id", "publicCode", "presentation"] [idValue])])) := by
  have hfields : Leg.shape.fields? = some _ := rfl
  exact .trans _ _ _ (.rel _ _ (.item [busValue] [] reforms_line))
    (.rel _ _ (.record hfields (by decide) (by decide)))

/-- A leg as a list with its line as a list, as an object with its line as a list, and with both as
objects. A fourth value is refused. -/
theorem listForms_of_leg :
    let leg : Leg := { mode := .bus, line := some { id := some "A" } }
    parse Leg "[\"bus\",[\"A\"]]" = .ok leg ∧
    parse Leg "\x7b\"mode\":\"bus\",\"line\":[\"A\"]\x7d" = .ok leg ∧
    parse Leg "\x7b\"mode\":\"bus\",\"line\":\x7b\"id\":\"A\"\x7d\x7d" = .ok leg ∧
    ∃ fault, parse Leg "[\"bus\",[\"A\"],[\"A\"],[\"A\"]]" = .error fault := by
  intro leg
  obtain ⟨-, -, -, -, hleg, -⟩ := records_listForms
  have hread : parse Leg "[\"bus\",[\"A\"]]" = .ok leg := rfl
  have hbus : Holds "\"bus\"" busValue := holds_quoted (by decide) (by decide)
  have hid : List.Forall₂ Holds ["\"A\""] [idValue] :=
    .cons (holds_quoted (by decide) (by decide)) .nil
  have hline : Holds "[\"A\"]" (.list [idValue]) := by
    have htext : "[\"A\"]" = listText ["\"A\""] := by decide
    rw [htext]
    exact holds_listText hid
  have hobject : Holds "\x7b\"id\":\"A\"\x7d"
      (.object (membersOf ["id", "publicCode", "presentation"] [idValue])) := by
    have htext : "\x7b\"id\":\"A\"\x7d" =
        objectText (["id", "publicCode", "presentation"].zip ["\"A\""]) := by decide
    rw [htext]
    exact holds_objectText hid (by decide)
  have hvalues : ∀ v ∈ ["\"bus\"", "[\"A\"]", "[\"A\"]", "[\"A\"]"], ∃ d, Holds v d := by
    simp only [List.forall_mem_cons]
    exact ⟨⟨_, hbus⟩, ⟨_, hline⟩, ⟨_, hline⟩, ⟨_, hline⟩, nofun⟩
  have hlist : "[\"bus\",[\"A\"]]" = listText ["\"bus\"", "[\"A\"]"] := by decide
  refine ⟨hread, ?_, ?_, ?_⟩
  · have htext : "\x7b\"mode\":\"bus\",\"line\":[\"A\"]\x7d" =
        objectText (["mode", "line", "toEstimatedCall"].zip ["\"bus\"", "[\"A\"]"]) := by decide
    rw [htext, ← hleg.object _ ?_ (by decide) (by decide), ← hlist]
    · exact hread
    · intro v hv
      exact hvalues v (List.mem_append_left ["[\"A\"]", "[\"A\"]"] hv)
  · have htext : "\x7b\"mode\":\"bus\",\"line\":\x7b\"id\":\"A\"\x7d\x7d" =
        objectText (["mode", "line", "toEstimatedCall"].zip
          ["\"bus\"", "\x7b\"id\":\"A\"\x7d"]) := by decide
    have hbefore := holds_listText (.cons hbus (.cons hline .nil))
    have hbehind := holds_objectText (.cons hbus (.cons hobject .nil))
      (by decide : ["mode", "line", "toEstimatedCall"].all isPlainName = true)
    rw [htext, ← hleg.nested _ _ _ _ hbefore hbehind sameButForms_leg, ← hlist]
    exact hread
  · have htext : "[\"bus\",[\"A\"],[\"A\"],[\"A\"]]" =
        listText ["\"bus\"", "[\"A\"]", "[\"A\"]", "[\"A\"]"] := by decide
    rw [htext]
    exact hleg.long _ hvalues (by decide)

end LegBoard
