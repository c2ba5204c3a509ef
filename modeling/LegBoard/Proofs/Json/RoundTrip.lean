import LegBoard.Json.Format
import LegBoard.Proofs.Json.Spelling

/-!
# Reading back what was written

A shape is unambiguous if none of its options holds an option directly, where
two values would both be written `null`, and no record names a field twice.
Reading at such a shape takes a written value for that value, whatever text
follows it, and stops right behind it. The induction is on the shape. For the
fields of a record it ranges over every state that embeds what is known of
them, so that fields already read can wait in that state for the rest.
-/
namespace LegBoard.Json

def Shape.isOptional : Shape → Bool
  | .optional _ => true
  | _ => false

def Fields.names : Fields → List String
  | .nil => []
  | .cons name _ rest => name :: rest.names

mutual

/-- Whether a text of this shape holds one value only. -/
def Shape.isUnambiguous : Shape → Bool
  | .text => true
  | .tag => true
  | .optional inner => !inner.isOptional && inner.isUnambiguous
  | .list item => item.isUnambiguous
  | .record _ _ fields => fields.isUnambiguous

def Fields.isUnambiguous : Fields → Bool
  | .nil => true
  | .cons name shape rest =>
    !rest.names.contains name && shape.isUnambiguous && rest.isUnambiguous

end

/-- What is known of a field, in front of what is known of those behind it. -/
def Fields.consSlots (name : String) {shape : Shape} {rest : Fields} (slot : Option shape.Value)
    (slots : rest.Slots) : (Fields.cons name shape rest).Slots := (slot, slots)

def Fields.known : (fields : Fields) → fields.Values → fields.Slots
  | .nil, _ => ()
  | .cons _ _ rest, (v, vs) => (some v, rest.known vs)

theorem Fields.fill_known : (fields : Fields) → (vs : fields.Values) →
    fields.fill (fields.known vs) = vs
  | .nil, () => rfl
  | .cons _ _ rest, (v, vs) => congrArg (Prod.mk v) (rest.fill_known vs)

/-! ## What written values start with -/

/-- A character that a written value may start with. -/
def Opens (c : Char) : Prop := c = '"' ∨ c = '[' ∨ c = '{' ∨ c = 'n'

/-- What is not an option is never written `null`. -/
theorem Shape.write_of_not_optional (shape : Shape) (h : shape.isOptional = false)
    (v : shape.Value) : ∃ c cs, shape.write v = c :: cs ∧ Opens c ∧ c ≠ 'n' := by
  cases shape with
  | text | tag => exact ⟨'"', _, rfl, .inl rfl, by decide⟩
  | list => exact ⟨'[', _, rfl, .inr (.inl rfl), by decide⟩
  | record => exact ⟨'{', _, rfl, .inr (.inr (.inl rfl)), by decide⟩
  | optional => cases h

theorem Shape.write_opens (shape : Shape) (h : shape.isUnambiguous = true) (v : shape.Value) :
    ∃ c cs, shape.write v = c :: cs ∧ Opens c := by
  cases ho : shape.isOptional with
  | false =>
    obtain ⟨c, cs, heq, hc, -⟩ := shape.write_of_not_optional ho v
    exact ⟨c, cs, heq, hc⟩
  | true =>
    cases shape with
    | optional inner =>
      cases v with
      | none => exact ⟨'n', _, rfl, .inr (.inr (.inr rfl))⟩
      | some v =>
        simp only [Shape.isUnambiguous, Bool.and_eq_true, Bool.not_eq_true'] at h
        obtain ⟨c, cs, heq, hc, -⟩ := inner.write_of_not_optional h.1 v
        exact ⟨c, cs, heq, hc⟩
    | _ => cases ho

/-! ## Texts in front of other texts -/

/-- A reader takes a text for a value and stops behind it, whatever follows. -/
def Takes {α : Type} (read : Cursor → Except Fault (α × Cursor)) (text : List Char) (a : α) :
    Prop :=
  ∀ (p : Position) (rest : List Char), read ⟨p, text ++ rest⟩ = .ok (a, ⟨p.afterAll text, rest⟩)

/-- Texts with a comma before each, except before the first one of a list. -/
def separated : Bool → List (List Char) → List Char
  | _, [] => []
  | first, t :: ts => (if first then [] else [',']) ++ t ++ separated false ts

theorem commaSeparated_eq (ts : List (List Char)) : commaSeparated ts = separated true ts := by
  induction ts with
  | nil => rfl
  | cons t ts ih =>
    cases ts with
    | nil => simp only [commaSeparated, separated, ↓reduceIte, List.nil_append, List.append_nil]
    | cons u us =>
      rw [commaSeparated, ih]
      · simp only [separated, Bool.false_eq_true, ↓reduceIte, List.nil_append, List.cons_append]
      · exact List.cons_ne_nil u us

theorem length_le_separated (first : Bool) {ts : List (List Char)} (h : ∀ t ∈ ts, t ≠ []) :
    ts.length ≤ (separated first ts).length := by
  induction ts generalizing first with
  | nil => exact Nat.zero_le _
  | cons t ts ih =>
    have ht := List.length_pos_iff.mpr (h t List.mem_cons_self)
    have hts := ih false fun u hu => h u (List.mem_cons_of_mem t hu)
    simp only [separated, List.length_append, List.length_cons]
    omega

/-! ## Lists -/

theorem nextElement_end (first : Bool) (p : Position) (rest : List Char) :
    nextElement first ⟨p, ']' :: rest⟩ = .ok (false, ⟨p, ']' :: rest⟩) := by
  cases first <;> rfl

theorem nextElement_opens (first : Bool) {c : Char} (hc : Opens c) (p : Position)
    (cs : List Char) :
    nextElement first ⟨p, (if first then [] else [',']) ++ c :: cs⟩ =
      .ok (true, ⟨p.afterAll (if first then [] else [',']), c :: cs⟩) := by
  cases first with
  | true => rcases hc with rfl | rfl | rfl | rfl <;> rfl
  | false => rcases hc with rfl | rfl | rfl | rfl <;> rfl

/-- A list is read back if its elements are, as long as the clock has a tick for each of them and
one for the closing bracket. -/
theorem elements_separated {α : Type} (item : Cursor → Except Fault (α × Cursor))
    {write : α → List Char} (vs : List α) (hitem : ∀ v ∈ vs, Takes item (write v) v)
    (hopens : ∀ v ∈ vs, ∃ c cs, write v = c :: cs ∧ Opens c) (first : Bool) (clock : List Char)
    (hclock : vs.length < clock.length) (taken : List α) (p : Position) (rest : List Char) :
    elements item clock first taken ⟨p, separated first (vs.map write) ++ ']' :: rest⟩ =
      .ok (taken.reverse ++ vs, ⟨p.afterAll (separated first (vs.map write) ++ [']']), rest⟩) := by
  induction vs generalizing first clock taken p with
  | nil =>
    obtain ⟨tick, clock, rfl⟩ := List.exists_cons_of_length_pos hclock
    simp only [elements, List.map_nil, separated, List.nil_append, nextElement_end]
    simp only [bind, Except.bind, Bool.false_eq_true, ↓reduceIte, Cursor.step_cons,
      List.append_nil, Position.afterAll_cons, Position.afterAll_nil]
  | cons v vs ih =>
    rw [List.length_cons] at hclock
    obtain ⟨tick, clock, rfl⟩ := List.exists_cons_of_length_pos (Nat.zero_lt_of_lt hclock)
    rw [List.length_cons] at hclock
    obtain ⟨c, cs, hv, hc⟩ := hopens v List.mem_cons_self
    have hread := hitem v List.mem_cons_self
    have hrest := ih (fun u hu => hitem u (List.mem_cons_of_mem v hu))
      (fun u hu => hopens u (List.mem_cons_of_mem v hu)) false clock (by omega) (v :: taken)
    have hnext : ∀ tail, nextElement first
        ⟨p, (if first then [] else [',']) ++ (write v ++ tail)⟩ =
          .ok (true, ⟨p.afterAll (if first then [] else [',']), write v ++ tail⟩) := by
      intro tail
      rw [hv, List.cons_append]
      exact nextElement_opens first hc p (cs ++ tail)
    simp only [elements, List.map_cons, separated, List.append_assoc, hnext]
    simp only [bind, Except.bind, ↓reduceIte, hread _ _, hrest]
    simp only [List.reverse_cons, List.append_assoc, List.cons_append, List.nil_append,
      Position.afterAll_append]

/-! ## Records -/

theorem nextKey_end (first : Bool) (p : Position) (rest : List Char) :
    nextKey first ⟨p, '}' :: rest⟩ = .ok (none, ⟨p, '}' :: rest⟩) := by
  cases first <;> rfl

theorem nextKey_writeText (first : Bool) (name : String) (p : Position) (rest : List Char) :
    nextKey first ⟨p, (if first then [] else [',']) ++ (writeText name ++ rest)⟩ =
      .ok (some name,
        ⟨p.afterAll ((if first then [] else [',']) ++ writeText name), rest⟩) := by
  cases first with
  | true =>
    have hkey : nextKey true ⟨p, writeText name ++ rest⟩ =
        (readText (⟨p, writeText name ++ rest⟩ : Cursor).step).bind
          fun r => .ok (some r.1, r.2) := rfl
    rw [if_pos rfl, List.nil_append, hkey, readText_writeText]
    rfl
  | false =>
    have hkey : nextKey false ⟨p, ',' :: (writeText name ++ rest)⟩ =
        (readText (⟨p.after ',', writeText name ++ rest⟩ : Cursor).step).bind
          fun r => .ok (some r.1, r.2) := rfl
    rw [if_neg Bool.false_ne_true, List.singleton_append, hkey, readText_writeText]
    rfl

/-- One tick of the clock takes one member. -/
theorem members_step {σ : Type} {member : String → σ → Cursor → Except Fault (σ × Cursor)}
    {key : String} {known next : σ} {text : List Char} (h : Takes (member key known) text next)
    (first : Bool) (tick : Char) (clock : List Char) (p : Position) (rest : List Char) :
    members member (tick :: clock) first known
        ⟨p, (if first then [] else [',']) ++ (writeText key ++ text) ++ rest⟩ =
      members member clock false next
        ⟨p.afterAll ((if first then [] else [',']) ++ (writeText key ++ text)), rest⟩ := by
  simp only [members, List.append_assoc, nextKey_writeText]
  simp only [bind, Except.bind, h _ _, Position.afterAll_append]

theorem colon_cons (p : Position) (rest : List Char) :
    colon ⟨p, ':' :: rest⟩ = .ok ⟨p.after ':', rest⟩ := rfl

theorem Fields.writeMembers_ne_nil : (fields : Fields) → (vs : fields.Values) →
    ∀ t ∈ fields.writeMembers vs, t ≠ []
  | .nil, (), _, ht => nomatch ht
  | .cons name shape rest, (v, vs), t, ht => by
    rcases List.mem_cons.mp ht with rfl | ht
    · exact List.cons_ne_nil _ _
    · exact rest.writeMembers_ne_nil vs t ht

theorem Fields.readMember_head {name : String} {shape : Shape} {rest : Fields}
    {text : List Char} {v : shape.Value} (h : Takes shape.read text v) (slots : rest.Slots)
    (p : Position) (cs : List Char) :
    (Fields.cons name shape rest).readMember name (consSlots name none slots)
        ⟨p, ':' :: (text ++ cs)⟩ =
      .ok (consSlots name (some v) slots, ⟨p.afterAll (':' :: text), cs⟩) := by
  simp only [consSlots, Fields.readMember, ↓reduceIte, Option.isSome_none, Bool.false_eq_true, colon_cons]
  simp only [bind, Except.bind, h _ _, Position.afterAll_cons]

theorem Fields.readMember_tail {name key : String} {shape : Shape} {rest : Fields}
    (h : key ≠ name) (slot : Option shape.Value) (slots : rest.Slots) (s : Cursor) :
    (Fields.cons name shape rest).readMember key (consSlots name slot slots) s =
      (rest.readMember key slots s).map fun r => (consSlots name slot r.1, r.2) := by
  simp only [consSlots, Fields.readMember, if_neg h]
  cases rest.readMember key slots s <;> rfl

/-- What is no `null` is read at an option as it is without. -/
theorem Shape.read_optional {inner : Shape} {c : Char} (hc : Opens c) (hn : c ≠ 'n')
    (p : Position) (cs : List Char) :
    (Shape.optional inner).read ⟨p, c :: cs⟩ =
      (inner.read ⟨p, c :: cs⟩).map fun r => (some r.1, r.2) := by
  rcases hc with rfl | rfl | rfl | rfl
  · rfl
  · rfl
  · rfl
  · exact absurd rfl hn

theorem takes_list {item : Shape} (hitem : ∀ v, Takes item.read (item.write v) v)
    (hopens : ∀ v, ∃ c cs, item.write v = c :: cs ∧ Opens c) (vs : List item.Value) :
    Takes (Shape.list item).read ((Shape.list item).write vs) vs := by
  intro p rest
  have hwrite : (Shape.list item).write vs =
      '[' :: (separated true (vs.map item.write) ++ [']']) := by
    rw [← commaSeparated_eq]
    rfl
  have hclock : vs.length < (separated true (vs.map item.write) ++ ']' :: rest).length := by
    have hne : ∀ t ∈ vs.map item.write, t ≠ [] := by
      intro t ht
      obtain ⟨v, -, rfl⟩ := List.mem_map.mp ht
      obtain ⟨c, cs, hv, -⟩ := hopens v
      rw [hv]
      exact List.cons_ne_nil c cs
    have hlen := length_le_separated true hne
    rw [List.length_map] at hlen
    rw [List.length_append, List.length_cons]
    omega
  have hread := elements_separated (fun s => item.read s) vs (fun v _ => hitem v)
    (fun v _ => hopens v) true _ hclock [] (p.after '[') rest
  rw [hwrite, List.cons_append, List.append_assoc]
  exact hread

/-- A record is read back if its members are, with nothing known at the start. -/
theorem takes_record (name : String) (whole : Bool) {fields : Fields} (vs : fields.Values)
    (hmembers : ∀ clock : List Char, (fields.writeMembers vs).length < clock.length →
      ∀ (p : Position) (rest : List Char),
        members (fun key slots s => fields.readMember key slots s) clock true fields.noSlots
            ⟨p, separated true (fields.writeMembers vs) ++ '}' :: rest⟩ =
          .ok (fields.known vs,
            ⟨p.afterAll (separated true (fields.writeMembers vs) ++ ['}']), rest⟩)) :
    Takes (Shape.record name whole fields).read ((Shape.record name whole fields).write vs) vs := by
  intro p rest
  have hwrite : (Shape.record name whole fields).write vs =
      '{' :: (separated true (fields.writeMembers vs) ++ ['}']) := by
    rw [← commaSeparated_eq]
    rfl
  have hclock : (fields.writeMembers vs).length <
      (separated true (fields.writeMembers vs) ++ '}' :: rest).length := by
    have hlen := length_le_separated true (fields.writeMembers_ne_nil vs)
    rw [List.length_append, List.length_cons]
    omega
  have hread : ∀ cs, (Shape.record name whole fields).read ⟨p, '{' :: cs⟩ =
      (members (fun key slots s => fields.readMember key slots s) cs true fields.noSlots
        ⟨p.after '{', cs⟩).map fun r => (fields.fill r.1, r.2) := fun _ => rfl
  rw [hwrite, List.cons_append, List.append_assoc]
  rw [List.singleton_append, hread, hmembers _ hclock]
  rw [Except.map, fields.fill_known]
  rfl

mutual

theorem Shape.takes_write : (shape : Shape) → shape.isUnambiguous = true → (v : shape.Value) →
    Takes shape.read (shape.write v) v
  | .text, _, v => readText_writeText v
  | .tag, _, v => readText_writeText v
  | .optional _, _, none => fun _ _ => rfl
  | .optional inner, h, some v => by
    simp only [Shape.isUnambiguous, Bool.and_eq_true, Bool.not_eq_true'] at h
    intro p rest
    obtain ⟨c, cs, hv, hc, hn⟩ := inner.write_of_not_optional h.1 v
    have hread : (Shape.optional inner).read ⟨p, inner.write v ++ rest⟩ =
        (inner.read ⟨p, inner.write v ++ rest⟩).map fun r => (some r.1, r.2) := by
      rw [hv, List.cons_append]
      exact Shape.read_optional hc hn p (cs ++ rest)
    rw [Shape.write, hread, inner.takes_write h.2 v p rest]
    rfl
  | .list item, h, vs => takes_list (item.takes_write h) (item.write_opens h) vs
  | .record name whole fields, h, vs =>
    takes_record name whole vs fun clock hclock p rest =>
      fields.members_write h vs (fun key slots s => fields.readMember key slots s) id
        (fun key _ slots s => by rw [id_eq]; cases fields.readMember key slots s <;> rfl) true
        clock hclock p rest

theorem Fields.members_write : (fields : Fields) → fields.isUnambiguous = true →
    (vs : fields.Values) → {σ : Type} →
    (member : String → σ → Cursor → Except Fault (σ × Cursor)) → (embed : fields.Slots → σ) →
    (∀ key ∈ fields.names, ∀ slots s, member key (embed slots) s =
      (fields.readMember key slots s).map fun r => (embed r.1, r.2)) →
    (first : Bool) → (clock : List Char) → (fields.writeMembers vs).length < clock.length →
    (p : Position) → (rest : List Char) →
    members member clock first (embed fields.noSlots)
        ⟨p, separated first (fields.writeMembers vs) ++ '}' :: rest⟩ =
      .ok (embed (fields.known vs),
        ⟨p.afterAll (separated first (fields.writeMembers vs) ++ ['}']), rest⟩)
  | .nil, _, (), σ, member, embed, hmember, first, clock, hclock, p, rest => by
    obtain ⟨tick, clock, rfl⟩ := List.exists_cons_of_length_pos hclock
    simp only [members, Fields.writeMembers, separated, List.nil_append, nextKey_end]
    rfl
  | .cons name shape fields, h, (v, vs), σ, member, embed, hmember, first, clock, hclock, p,
      rest => by
    simp only [Fields.isUnambiguous, Bool.and_eq_true, Bool.not_eq_true'] at h
    obtain ⟨⟨hname, hshape⟩, hfields⟩ := h
    rw [Fields.writeMembers, List.length_cons] at hclock
    obtain ⟨tick, clock, rfl⟩ := List.exists_cons_of_length_pos (Nat.zero_lt_of_lt hclock)
    rw [List.length_cons] at hclock
    have hhead : Takes (member name (embed (Fields.consSlots name none fields.noSlots)))
        (':' :: shape.write v) (embed (Fields.consSlots name (some v) fields.noSlots)) := by
      intro q cs
      rw [hmember name List.mem_cons_self, List.cons_append,
        Fields.readMember_head (shape.takes_write hshape v) fields.noSlots q cs]
      rfl
    have htail : ∀ key ∈ fields.names, ∀ slots s,
        member key (embed (Fields.consSlots name (some v) slots)) s =
          (fields.readMember key slots s).map fun r =>
            (embed (Fields.consSlots name (some v) r.1), r.2) := by
      intro key hkey slots s
      have hne : key ≠ name := by
        rintro rfl
        rw [List.contains_iff_mem.mpr hkey] at hname
        cases hname
      rw [hmember key (List.mem_cons_of_mem name hkey), Fields.readMember_tail hne]
      cases fields.readMember key slots s <;> rfl
    have hrest := fields.members_write hfields vs member
      (fun slots => embed (Fields.consSlots name (some v) slots)) htail false clock (by omega)
    have hnone : (Fields.cons name shape fields).noSlots =
        Fields.consSlots name none fields.noSlots := rfl
    rw [Fields.writeMembers, separated, hnone, List.append_assoc, members_step hhead, hrest]
    simp only [Position.afterAll_append]
    rfl

end

/-- The only thing that a whole text holds is the value it was written for. -/
theorem Shape.readAll_writeAll (shape : Shape) (h : shape.isUnambiguous = true)
    (v : shape.Value) : shape.readAll (shape.writeAll v) = .ok v := by
  have hread := shape.takes_write h v .start []
  rw [List.append_nil] at hread
  rw [Shape.readAll, Shape.writeAll, String.toList_ofList, Cursor.ofList, hread]
  rfl

/-! ## Types -/

/-- A type whose values survive being written: its shape is unambiguous, and a value is got back
from the value of the shape that stands for it. -/
class LawfulFormat (α : Type) [Format α] : Prop where
  isUnambiguous : (Format.shape α).isUnambiguous = true
  ofValue_toValue : ∀ a : α, Format.ofValue (Format.toValue a) = a

theorem map_ofValue_toValue {α : Type} [Format α] [LawfulFormat α] (o : Option α) :
    (o.map Format.toValue).map (Format.ofValue : _ → α) = o := by
  cases o with
  | none => rfl
  | some a => exact congrArg some (LawfulFormat.ofValue_toValue a)

theorem listMap_ofValue_toValue {α : Type} [Format α] [LawfulFormat α] (as : List α) :
    (as.map Format.toValue).map (Format.ofValue : _ → α) = as := by
  induction as with
  | nil => rfl
  | cons a as ih => exact congr (congrArg List.cons (LawfulFormat.ofValue_toValue a)) ih

/-- A rendered value is parsed to that value. -/
theorem parse_render {α : Type} [Format α] [LawfulFormat α] (a : α) :
    parse α (render a) = .ok a := by
  rw [parse, render, Shape.readAll_writeAll _ LawfulFormat.isUnambiguous, Except.map,
    LawfulFormat.ofValue_toValue]

theorem render_injective {α : Type} [Format α] [LawfulFormat α] {a b : α}
    (h : render a = render b) : a = b := by
  have ha := parse_render a
  rw [h, parse_render b] at ha
  exact (Except.ok.inj ha).symm

end LegBoard.Json
