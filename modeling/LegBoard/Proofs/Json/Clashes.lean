import LegBoard.Proofs.Json.Repeats

/-!
# The fault of a field given twice

A text is read from left to right, so a field given twice is told as soon as its second key is read,
if nothing before that was refused. What comes behind the key is not looked at any more: it may be
anything, also text that is no JSON. Of the place that is blamed nothing is said.
-/
namespace LegBoard.Json

/-! ## Texts up to a second key -/

/-- A text starts like a value that is read with a shape, and is readable up to a key that gives a
field of some record in it a second time. -/
inductive Clashes (name : String) : Shape → List Char → Prop
  | here {shape : Shape} {fields : Fields} {key : Units} {ms : List (Units × Document)}
      {s t s₁ rest : List Char} (hfields : shape.fields? = some fields)
      (hname : name ∈ fields.names) (hms : Members true ms s t)
      (hread : (shape.valueOf? (.object ms)).isSome = true)
      (hfirst : ∃ m ∈ ms, textOf? m.1 = some name) (hsep : Separator false t ('"' :: s₁))
      (hkey : Spelt key s₁ ('"' :: rest)) (hsecond : textOf? key = some name) :
      Clashes name shape ('{' :: s)
  | member {shape inner : Shape} {key : Units} {ms : List (Units × Document)}
      {s t s₁ s₂ s₃ s₄ : List Char} (hms : Members true ms s t)
      (hread : (shape.valueOf? (.object ms)).isSome = true)
      (hsep : Separator ms.isEmpty t ('"' :: s₁)) (hkey : Spelt key s₁ ('"' :: s₂))
      (hnew : ∀ m ∈ ms, textOf? m.1 ≠ textOf? key) (hcolon : Blanks s₂ (':' :: s₃))
      (hblanks : Blanks s₃ s₄) (hinner : shape.ofMember? key = some inner)
      (h : Clashes name inner s₄) : Clashes name shape ('{' :: s)
  | item {shape inner : Shape} {ds : List Document} {s t u : List Char} (hds : Items true ds s t)
      (hread : ∀ i d, ds[i]? = some d →
        ∃ inner, shape.ofItem? i = some inner ∧ (inner.valueOf? d).isSome = true)
      (hsep : Separator ds.isEmpty t u) (hinner : shape.ofItem? ds.length = some inner)
      (h : Clashes name inner u) : Clashes name shape ('[' :: s)

theorem Clashes.opens {name : String} {shape : Shape} {s : List Char} (h : Clashes name shape s) :
    ∃ c cs, s = c :: cs ∧ Cursor.isBlank c = false ∧ c ≠ ']' := by
  cases h with
  | here => exact ⟨'{', _, rfl, by decide, by decide⟩
  | member => exact ⟨'{', _, rfl, by decide, by decide⟩
  | item => exact ⟨'[', _, rfl, by decide, by decide⟩

/-! ## Refusals -/

/-- A reader refuses a text for a given reason, whichever place it is reached at. -/
def Refuses {α : Type} (read : Cursor → Except Fault α) (s : List Char) (problem : Problem) :
    Prop :=
  ∀ p, ∃ q, read ⟨p, s⟩ = .error ⟨problem, q⟩

theorem Refuses.map {α β : Type} {read : Cursor → Except Fault α} {s : List Char}
    {problem : Problem} (h : Refuses read s problem) (f : α → β) :
    Refuses (fun c => (read c).map f) s problem := by
  intro p
  obtain ⟨q, hq⟩ := h p
  refine ⟨q, ?_⟩
  dsimp only
  rw [hq]
  rfl

theorem Refuses.blanks {shape : Shape} {s t : List Char} {problem : Problem}
    (h : Refuses shape.read t problem) (hb : Blanks s t) (ht : Settled t) :
    Refuses shape.read s problem := by
  intro p
  obtain ⟨q, hq⟩ := shape.read_blanks hb ht p
  rw [hq]
  exact h q

/-! ## Lists -/

/-- The items before one that is refused are read, and then that one is. -/
theorem elements_refuses {α : Type} {item : Cursor → Except Fault (α × Cursor)}
    {value? : Document → Option α} (hitem : ReadsDocument item value?) {ds : List Document}
    {first : Bool} {c : Char} {s t cs : List Char} {problem : Problem}
    (h : Items first ds s t) (hread : ∀ d ∈ ds, (value? d).isSome = true)
    (hsep : Separator (first && ds.isEmpty) t (c :: cs)) (hb : Cursor.isBlank c = false)
    (hc : c ≠ ']') (hrefused : Refuses item (c :: cs) problem) {clock : List Char}
    (hclock : ds.length < clock.length) (taken : List α) :
    Refuses (elements item clock first taken) s problem := by
  intro p
  induction ds generalizing first s clock taken p with
  | nil =>
    obtain ⟨tick, clock, rfl⟩ := List.exists_cons_of_length_pos (by omega : 0 < clock.length)
    cases h with
    | nil hblanks =>
      rw [List.isEmpty_nil, Bool.and_true] at hsep
      obtain ⟨q, hq⟩ := nextElement_cons (hsep.behind_blanks hblanks) hb hc p
      obtain ⟨q₁, hq₁⟩ := hrefused q
      refine ⟨q₁, ?_⟩
      rw [elements_more hq, hq₁]
      rfl
  | cons d ds ih =>
    obtain ⟨tick, clock, rfl⟩ := List.exists_cons_of_length_pos (by omega : 0 < clock.length)
    simp only [List.length_cons] at hclock
    obtain ⟨hd, hds⟩ := List.forall_mem_cons.mp hread
    rw [List.isEmpty_cons, Bool.and_false] at hsep
    cases h with
    | cons hsep' hwritten rest =>
      obtain ⟨q, hq⟩ := nextElement_separator hsep' hwritten p
      obtain ⟨v, hv⟩ := Option.isSome_iff_exists.mp hd
      obtain ⟨q₁, hq₁⟩ := (hitem (.nil _) hwritten q).of_some hv
      rw [elements_more hq, hq₁]
      exact ih rest hds hsep (by omega) (v :: taken) q₁

/-- The same for the fields of a record that is written as a list. -/
theorem Fields.readInOrder_refuses {inner : Shape} {c : Char} {t cs : List Char}
    {problem : Problem} (hb : Cursor.isBlank c = false) (hc : c ≠ ']')
    (hrefused : Refuses inner.read (c :: cs) problem) : (fields : Fields) →
    {ds : List Document} → {first : Bool} → {s : List Char} → Items first ds s t →
    (∀ i d, ds[i]? = some d →
      ∃ shape, fields.shapeAt? i = some shape ∧ (shape.valueOf? d).isSome = true) →
    Separator (first && ds.isEmpty) t (c :: cs) → fields.shapeAt? ds.length = some inner →
    Refuses (fields.readInOrder first) s problem
  | .nil, _, _, _, _, _, _, hinner => nomatch hinner
  | .cons name shape rest, [], first, s, .nil hblanks, _, hsep, hinner => by
    intro p
    cases hinner
    rw [List.isEmpty_nil, Bool.and_true] at hsep
    obtain ⟨q, hq⟩ := nextElement_cons (hsep.behind_blanks hblanks) hb hc p
    obtain ⟨q₁, hq₁⟩ := hrefused q
    refine ⟨q₁, ?_⟩
    rw [readInOrder, hq]
    change inner.read ⟨q, c :: cs⟩ >>= _ = _
    rw [hq₁]
    rfl
  | .cons name shape rest, d :: ds, first, s, .cons hsep' hwritten hitems, hread, hsep, hinner => by
    intro p
    rw [List.isEmpty_cons, Bool.and_false] at hsep
    obtain ⟨q, hq⟩ := nextElement_separator hsep' hwritten p
    obtain ⟨_, ⟨⟩, hvalue⟩ := hread 0 d rfl
    obtain ⟨v, hv⟩ := Option.isSome_iff_exists.mp hvalue
    obtain ⟨q₁, hq₁⟩ := (shape.reads (.nil _) hwritten q).of_some hv
    obtain ⟨q₂, hq₂⟩ := rest.readInOrder_refuses hb hc hrefused hitems
      (fun i d hd => hread (i + 1) d hd) hsep hinner q₁
    refine ⟨q₂, ?_⟩
    rw [readInOrder, hq]
    change shape.read ⟨q, _⟩ >>= _ = _
    rw [hq₁]
    change rest.readInOrder false ⟨q₁, _⟩ >>= _ = _
    rw [hq₂]
    rfl

/-- An item that is refused lets the list be refused, as whatever the list is read. -/
theorem Shape.refuses_item {inner : Shape} {ds : List Document} {c : Char} {s t cs : List Char}
    {problem : Problem} (h : Items true ds s t) (hsep : Separator ds.isEmpty t (c :: cs))
    (hb : Cursor.isBlank c = false) (hc : c ≠ ']')
    (hrefused : Refuses inner.read (c :: cs) problem) : (shape : Shape) →
    (∀ i d, ds[i]? = some d →
      ∃ inner, shape.ofItem? i = some inner ∧ (inner.valueOf? d).isSome = true) →
    shape.ofItem? ds.length = some inner → Refuses shape.read ('[' :: s) problem
  | .text, _, hinner => nomatch hinner
  | .tag, _, hinner => nomatch hinner
  | .optional inner', hread, hinner =>
    (refuses_item h hsep hb hc hrefused inner' hread hinner).map fun r => (some r.1, r.2)
  | .list item, hread, hinner => by
    cases hinner
    have hitems : ∀ d ∈ ds, (inner.valueOf? d).isSome = true := by
      intro d hd
      obtain ⟨i, hi⟩ := List.getElem?_of_mem hd
      obtain ⟨_, ⟨⟩, hvalue⟩ := hread i d hi
      exact hvalue
    have hlen := h.length_le
    have hahead := hsep.length_le
    rw [List.length_cons] at hahead
    intro p
    exact elements_refuses inner.reads h hitems hsep hb hc hrefused
      (show ds.length < s.length by omega) [] (p.after '[')
  | .record name whole fields, hread, hinner => by
    have hfields := fields.readInOrder_refuses hb hc hrefused h hread hsep hinner
    intro p
    obtain ⟨q, hq⟩ := hfields (p.after '[')
    refine ⟨q, ?_⟩
    change fields.readInOrder true ⟨p.after '[', s⟩ >>= _ = _
    rw [hq]
    rfl

/-! ## Objects -/

/-- Whether the field of a name has been given. -/
def Fields.knows : (fields : Fields) → fields.Slots → String → Bool
  | .nil, _, _ => false
  | .cons name _ rest, (slot, slots), key =>
    if key = name then slot.isSome else rest.knows slots key

theorem Fields.knows_noSlots (fields : Fields) (key : String) :
    fields.knows fields.noSlots key = false := by
  cases fields with
  | nil => rfl
  | cons name shape rest =>
    rw [noSlots, knows]
    split
    · rfl
    · exact rest.knows_noSlots key

/-- One more member makes its own field known and no other. -/
theorem Fields.knows_add {key name : String} {d : Document} : (fields : Fields) →
    name ∈ fields.names → {slots slots' : fields.Slots} →
    fields.add? slots (key, d) = some slots' →
    fields.knows slots' name = (decide (key = name) || fields.knows slots name)
  | .nil, h, _, _, _ => nomatch h
  | .cons field shape rest, h, (slot, slots), slots', hslots => by
    rw [add?] at hslots
    by_cases hkey : key = field
    · rw [if_pos hkey] at hslots
      split at hslots
      · cases hslots
      · obtain ⟨v, -, rfl⟩ := Option.map_eq_some_iff.mp hslots
        rw [knows, knows]
        by_cases hname : name = field
        · simp [hname, hkey]
        · have hne : key ≠ name := fun heq => hname (heq ▸ hkey)
          simp [hname, hne]
    · rw [if_neg hkey] at hslots
      obtain ⟨slots₁, hslots₁, rfl⟩ := Option.map_eq_some_iff.mp hslots
      rw [knows, knows]
      by_cases hname : name = field
      · have hne : key ≠ name := fun heq => hkey (heq.trans hname)
        simp [hname, hkey]
      · have hrest : name ∈ rest.names := by
          simpa [names, hname] using h
        rw [if_neg hname, if_neg hname, rest.knows_add hrest hslots₁]

theorem Fields.knows_foldlM {name : String} {fields : Fields} (h : name ∈ fields.names)
    {ns : List (String × Document)} {slots slots' : fields.Slots}
    (hslots : ns.foldlM fields.add? slots = some slots') :
    fields.knows slots' name = (ns.any (·.1 = name) || fields.knows slots name) := by
  induction ns generalizing slots with
  | nil =>
    cases hslots
    rfl
  | cons m ns ih =>
    obtain ⟨key, d⟩ := m
    rw [List.foldlM_cons] at hslots
    obtain ⟨slots₁, hadd, hslots⟩ := Option.bind_eq_some_iff.mp hslots
    rw [ih hslots, fields.knows_add h hadd, List.any_cons]
    cases decide (key = name) <;> simp

/-- A key that is known already is refused, whatever comes behind it. -/
theorem Fields.readMember_known {name : String} {s : List Char} : (fields : Fields) →
    {slots : fields.Slots} → fields.knows slots name = true →
    Refuses (fields.readMember name slots) s (.duplicateField name)
  | .nil, _, h => nomatch h
  | .cons field shape rest, (slot, slots), h => by
    intro p
    rw [knows] at h
    rw [readMember]
    split at h
    · next hname =>
      rw [if_pos hname, if_pos h, ← hname]
      exact ⟨_, rfl⟩
    · next hname =>
      obtain ⟨q, hq⟩ := rest.readMember_known h p
      rw [if_neg hname, hq]
      exact ⟨q, rfl⟩

/-- A value that is refused lets its member be refused, if the field has not been given before. -/
theorem Fields.readMember_refuses {key : String} {inner : Shape} {s s₁ : List Char}
    {problem : Problem} (hcolon : Blanks s (':' :: s₁)) (hrefused : Refuses inner.read s₁ problem) :
    (fields : Fields) → {slots : fields.Slots} → fields.knows slots key = false →
    fields.shapeOf? key = some inner → Refuses (fields.readMember key slots) s problem
  | .nil, _, _, hinner => nomatch hinner
  | .cons field shape rest, (slot, slots), hnew, hinner => by
    intro p
    rw [knows] at hnew
    rw [shapeOf?] at hinner
    rw [readMember]
    by_cases hkey : key = field
    · rw [if_pos hkey] at hnew hinner
      cases hinner
      obtain ⟨q, hq⟩ := colon_blanks hcolon p
      obtain ⟨q₁, hq₁⟩ := hrefused q
      refine ⟨q₁, ?_⟩
      rw [if_pos hkey, if_neg (by rw [hnew]; decide), hq]
      change inner.read ⟨q, s₁⟩ >>= _ = _
      rw [hq₁]
      rfl
    · rw [if_neg hkey] at hnew hinner
      obtain ⟨q, hq⟩ := rest.readMember_refuses hcolon hrefused hnew hinner p
      refine ⟨q, ?_⟩
      rw [if_neg hkey, hq]
      rfl

/-- The members before one that is refused are read, and then that one is. -/
theorem members_refuses {σ : Type} {member : String → σ → Cursor → Except Fault (σ × Cursor)}
    {add? : σ → String × Document → Option σ} (hmember : ReadsMember member add?)
    {ms : List (Units × Document)} {first : Bool} {key : Units} {name : String}
    {s t s₁ s₂ : List Char} {known known' : σ} {problem : Problem} (h : Members first ms s t)
    (hread : (named? ms).bind (·.foldlM add? known) = some known')
    (hsep : Separator (first && ms.isEmpty) t ('"' :: s₁)) (hkey : Spelt key s₁ ('"' :: s₂))
    (hname : textOf? key = some name) (hrefused : Refuses (member name known') s₂ problem)
    {clock : List Char} (hclock : ms.length < clock.length) :
    Refuses (members member clock first known) s problem := by
  intro p
  induction ms generalizing first s clock known p with
  | nil =>
    obtain ⟨tick, clock, rfl⟩ := List.exists_cons_of_length_pos (by omega : 0 < clock.length)
    cases h with
    | nil hblanks =>
      rw [List.isEmpty_nil, Bool.and_true] at hsep
      cases hread
      have hanswer := nextKey_separator (hsep.behind_blanks hblanks) hkey p
      obtain ⟨q, hq⟩ := hanswer.of_some (congrArg (Option.map some) hname)
      obtain ⟨q₁, hq₁⟩ := hrefused q
      refine ⟨q₁, ?_⟩
      rw [members, hq]
      change member name known' ⟨q, s₂⟩ >>= _ = _
      rw [hq₁]
      rfl
  | cons m ms ih =>
    obtain ⟨tick, clock, rfl⟩ := List.exists_cons_of_length_pos (by omega : 0 < clock.length)
    simp only [List.length_cons] at hclock
    rw [List.isEmpty_cons, Bool.and_false] at hsep
    cases h with
    | @cons _ key' d _ _ _ _ _ _ s₃ _ hsep' hkey' hcolon hblanks hd rest =>
      rw [foldlM_named] at hread
      obtain ⟨name', hname', hread⟩ := Option.bind_eq_some_iff.mp hread
      obtain ⟨known₁, hadd, hread⟩ := Option.bind_eq_some_iff.mp hread
      obtain ⟨q, hq⟩ := (nextKey_separator hsep' hkey' p).of_some
        (congrArg (Option.map some) hname')
      have hstops := rest.stops_before hsep.stops
      obtain ⟨q₁, hq₁⟩ := (hmember name' known hcolon hblanks hd hstops q).of_some hadd
      obtain ⟨q₂, hq₂⟩ := ih rest hread hsep (show ms.length < clock.length by omega) q₁
      refine ⟨q₂, ?_⟩
      rw [members, hq]
      change member name' known ⟨q, _⟩ >>= _ = _
      rw [hq₁]
      exact hq₂

/-- What lets the members of a record be refused lets the object be refused, as whatever it is
read. -/
theorem Shape.refuses_members {fields : Fields} {ms : List (Units × Document)} {key : Units}
    {name : String} {s t s₁ s₂ : List Char} {problem : Problem} (h : Members true ms s t)
    (hsep : Separator ms.isEmpty t ('"' :: s₁)) (hkey : Spelt key s₁ ('"' :: s₂))
    (hname : textOf? key = some name)
    (hrefused : ∀ ns slots, named? ms = some ns →
      ns.foldlM fields.add? fields.noSlots = some slots →
      Refuses (fields.readMember name slots) s₂ problem) : (shape : Shape) →
    shape.fields? = some fields → (shape.valueOf? (.object ms)).isSome = true →
    Refuses shape.read ('{' :: s) problem
  | .text, hfields, _ => nomatch hfields
  | .tag, hfields, _ => nomatch hfields
  | .optional inner, hfields, hread => by
    have hinner : (inner.valueOf? (.object ms)).isSome = true := by
      obtain ⟨v, hv⟩ := Option.isSome_iff_exists.mp hread
      obtain ⟨v, hv, -⟩ := Option.map_eq_some_iff.mp hv
      rw [hv]
      rfl
    exact (refuses_members h hsep hkey hname hrefused inner hfields hinner).map
      fun r => (some r.1, r.2)
  | .list _, hfields, _ => nomatch hfields
  | .record _ _ _, hfields, hread => by
    cases hfields
    obtain ⟨vs, hvs⟩ := Option.isSome_iff_exists.mp hread
    obtain ⟨ns, hns, hvs⟩ := Option.bind_eq_some_iff.mp hvs
    rw [← fields.fill_foldlM_add ns] at hvs
    obtain ⟨slots, hslots, -⟩ := Option.map_eq_some_iff.mp hvs
    have hlen := h.length_le
    have hahead := hsep.length_le
    rw [List.length_cons] at hahead
    have hknown : (named? ms).bind (·.foldlM fields.add? fields.noSlots) = some slots := by
      rw [hns]
      exact hslots
    intro p
    obtain ⟨q, hq⟩ := members_refuses fields.readsMember h hknown hsep hkey hname
      (hrefused ns slots hns hslots) (show ms.length < s.length by omega) (p.after '{')
    refine ⟨q, ?_⟩
    change members fields.readMember s true fields.noSlots ⟨p.after '{', s⟩ >>= _ = _
    rw [hq]
    rfl

/-! ## Whole values -/

/-- The second key of a field is the fault that is told. -/
theorem Clashes.refuses {name : String} {shape : Shape} {s : List Char} (h : Clashes name shape s) :
    Refuses shape.read s (.duplicateField name) := by
  -- On where the second key stands: each record or list around it hands the fault on, for what it
  -- read before is no reason to stop earlier.
  induction h with
  | @here shape fields key ms s t s₁ rest hfields hname hms hread hfirst hsep hkey hsecond =>
    have hne : ms.isEmpty = false := by
      obtain ⟨m, hm, -⟩ := hfirst
      exact List.isEmpty_eq_false_iff.mpr (List.ne_nil_of_mem hm)
    rw [← hne] at hsep
    refine Shape.refuses_members hms hsep hkey hsecond (fun ns slots hns hslots => ?_) shape hfields
      hread
    apply fields.readMember_known
    rw [Fields.knows_foldlM hname hslots, (any_of_named? hns).mpr hfirst, Bool.true_or]
  | @member shape inner key ms s t s₁ s₂ s₃ s₄ hms hread hsep hkey hnew hcolon hblanks hinner hin
      ih =>
    obtain ⟨fields, hfields, hinner⟩ := Option.bind_eq_some_iff.mp hinner
    obtain ⟨field, hfield, hinner⟩ := Option.bind_eq_some_iff.mp hinner
    obtain ⟨c, cs, rfl, hb, -⟩ := hin.opens
    have hvalue : Refuses inner.read s₃ (.duplicateField name) :=
      ih.blanks hblanks (stops_cons hb cs)
    refine Shape.refuses_members hms hsep hkey hfield (fun ns slots hns hslots => ?_) shape hfields
      hread
    apply fields.readMember_refuses hcolon hvalue _ hinner
    have hmem : field ∈ fields.names := by
      refine Decidable.byContradiction fun hstranger => ?_
      rw [fields.shapeOf?_eq_none hstranger] at hinner
      cases hinner
    have hunseen : ns.any (·.1 = field) = false := by
      rw [Bool.eq_false_iff, Ne, any_of_named? hns]
      rintro ⟨m, hm, hsame⟩
      exact hnew m hm (hsame.trans hfield.symm)
    rw [Fields.knows_foldlM hmem hslots, hunseen, fields.knows_noSlots, Bool.or_false]
  | item hds hread hsep hinner hin ih =>
    obtain ⟨c, cs, rfl, hb, hc⟩ := hin.opens
    exact Shape.refuses_item hds hsep hb hc ih _ hread hinner

end LegBoard.Json
