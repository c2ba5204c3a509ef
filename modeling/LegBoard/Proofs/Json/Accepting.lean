import LegBoard.Proofs.Json.Reading

/-!
# What is read is a document

The other direction: what any reader takes off a text is a document of the grammar, the members
that a record does not know included. Together, a text is read as a value exactly if it holds a
document that stands for the value.
-/
namespace LegBoard.Json

/-- What a reader takes off a text is a document, with the blanks before it. -/
def TakesDocuments {α : Type} (read : Cursor → Except Fault (α × Cursor)) : Prop :=
  ∀ {s s' : Cursor} {a : α}, read s = .ok (a, s') →
    ∃ d s₁, Blanks s.rest s₁ ∧ Written d s₁ s'.rest

/-! ## Lists -/

theorem Separator.blanks {first : Bool} {s t u : List Char} (h : Separator first s t)
    (h' : Blanks t u) : Separator first s u := by
  cases h with
  | first h => exact .first (h.trans h')
  | comma before behind => exact .comma before (behind.trans h')

theorem Separator.behind_blanks {first : Bool} {s t u : List Char} (h : Separator first t u)
    (hb : Blanks s t) : Separator first s u := by
  cases h with
  | first h => exact .first (hb.trans h)
  | comma before behind => exact .comma (hb.trans before) behind

theorem taken_of_nextElement {first more : Bool} {s s' : Cursor}
    (h : nextElement first s = .ok (more, s')) :
    if more then Separator first s.rest s'.rest
    else Blanks s.rest s'.rest ∧ s'.rest = ']' :: s'.step.rest := by
  obtain ⟨p, rest, hskip, hb⟩ := exists_skipBlank s
  unfold nextElement at h
  dsimp only at h
  rw [hskip] at h
  dsimp only at h
  split at h
  · cases h
  · cases h
    exact ⟨hb, rfl⟩
  · next c rest _ =>
    split at h
    · next hfirst =>
      cases h
      rw [if_pos rfl, hfirst]
      exact .first hb
    · next hfirst =>
      rw [Bool.not_eq_true] at hfirst
      split at h
      · next hcomma =>
        have hb' := blanks_skipBlank ⟨p.after c, rest⟩
        split at h
        · cases h
        · cases h
        · cases h
          rw [if_pos rfl, hfirst]
          exact .comma (hcomma ▸ hb) hb'
      · cases h

theorem items_of_elements {α : Type} {item : Cursor → Except Fault (α × Cursor)}
    (hitem : TakesDocuments item) {clock : List Char} {first : Bool} {taken as : List α}
    {s s' : Cursor} (h : elements item clock first taken s = .ok (as, s')) :
    ∃ ds, Items first ds s.rest (']' :: s'.rest) := by
  induction clock generalizing first taken s with
  | nil => cases h
  | cons tick clock ih =>
    obtain ⟨⟨more, s₁⟩, hnext, h⟩ := ok_of_bind h
    cases more with
    | false =>
      cases h
      obtain ⟨hblanks, hclose⟩ := taken_of_nextElement hnext
      rw [hclose] at hblanks
      exact ⟨[], .nil hblanks⟩
    | true =>
      have hsep : Separator first s.rest s₁.rest := taken_of_nextElement hnext
      obtain ⟨⟨a, s₂⟩, hread, htail⟩ := ok_of_bind h
      obtain ⟨d, s₃, hblanks, hd⟩ := hitem hread
      obtain ⟨ds, hds⟩ := ih htail
      exact ⟨d :: ds, .cons (hsep.blanks hblanks) hd hds⟩

/-! ## Objects -/

/-- What the readers of an object's members take off a text is the rest of a member, from behind
its key. -/
def TakesMembers {σ : Type} (member : String → σ → Cursor → Except Fault (σ × Cursor)) : Prop :=
  ∀ {name : String} {known known' : σ} {s s' : Cursor}, member name known s = .ok (known', s') →
    ∃ d s₁ s₂, Blanks s.rest (':' :: s₁) ∧ Blanks s₁ s₂ ∧ Written d s₂ s'.rest

theorem taken_of_nextKey {first : Bool} {s s' : Cursor} {name? : Option String}
    (h : nextKey first s = .ok (name?, s')) :
    if name?.isSome then
      ∃ key s₁, Separator first s.rest ('"' :: s₁) ∧ Spelt key s₁ ('"' :: s'.rest)
    else Blanks s.rest ('}' :: s'.step.rest) := by
  obtain ⟨p, rest, hskip, hb⟩ := exists_skipBlank s
  unfold nextKey at h
  dsimp only at h
  rw [hskip] at h
  dsimp only at h
  split at h
  · cases h
  · cases h
    exact hb
  · next c rest _ =>
    split at h
    · next hfirst =>
      split at h
      · next hquote =>
        obtain ⟨⟨t, s₂⟩, hread, heq⟩ := ok_of_bind h
        obtain ⟨key, hkey⟩ := spelt_of_readText hread
        cases heq
        rw [Option.isSome_some, if_pos rfl, hfirst]
        exact ⟨key, _, .first (hquote ▸ hb), hkey⟩
      · cases h
    · next hfirst =>
      rw [Bool.not_eq_true] at hfirst
      split at h
      · next hcomma =>
        obtain ⟨p₂, rest₂, hskip₂, hb'⟩ := exists_skipBlank ⟨p.after c, rest⟩
        rw [Cursor.step_cons, hskip₂] at h
        dsimp only at h
        split at h
        · cases h
        · obtain ⟨⟨t, s₃⟩, hread, heq⟩ := ok_of_bind h
          obtain ⟨key, hkey⟩ := spelt_of_readText hread
          cases heq
          rw [Option.isSome_some, if_pos rfl, hfirst]
          exact ⟨key, _, .comma (hcomma ▸ hb) hb', hkey⟩
        · cases h
        · cases h
      · cases h

theorem members_of_members {σ : Type}
    {member : String → σ → Cursor → Except Fault (σ × Cursor)} (hmember : TakesMembers member)
    {clock : List Char} {first : Bool} {known known' : σ} {s s' : Cursor}
    (h : members member clock first known s = .ok (known', s')) :
    ∃ ms, Members first ms s.rest ('}' :: s'.rest) := by
  induction clock generalizing first known s with
  | nil => cases h
  | cons tick clock ih =>
    obtain ⟨⟨key, s₁⟩, hnext, h⟩ := ok_of_bind h
    cases key with
    | none =>
      cases h
      exact ⟨[], .nil (taken_of_nextKey hnext)⟩
    | some name =>
      obtain ⟨⟨known₁, s₂⟩, hread, htail⟩ := ok_of_bind h
      obtain ⟨key, s₃, hsep, hkey⟩ := taken_of_nextKey hnext
      obtain ⟨d, s₄, s₅, hcolon, hblanks, hd⟩ := hmember hread
      obtain ⟨ms, hms⟩ := ih htail
      exact ⟨(key, d) :: ms, .cons hsep hkey hcolon hblanks hd hms⟩

/-! ## Values -/

theorem takesDocuments_text : TakesDocuments Shape.text.read := by
  intro s s' t h
  obtain ⟨p, rest, hskip, hb⟩ := exists_skipBlank s
  unfold Shape.read at h
  dsimp only [Shape.Value] at h
  rw [hskip] at h
  dsimp only at h
  split at h
  · cases h
  · obtain ⟨units, hunits⟩ := spelt_of_readText h
    exact ⟨.text units, _, hb, .text hunits⟩
  · cases h

theorem takesDocuments_tag : TakesDocuments Shape.tag.read := by
  intro s s' name h
  obtain ⟨p, rest, hskip, hb⟩ := exists_skipBlank s
  unfold Shape.read readTag at h
  dsimp only [Shape.Value] at h
  rw [hskip] at h
  dsimp only at h
  split at h
  · cases h
  · obtain ⟨units, hunits⟩ := spelt_of_readText h
    exact ⟨.text units, _, hb, .text hunits⟩
  · next rest =>
    obtain ⟨p₂, rest₂, hskip₂, hfirst⟩ := exists_skipBlank ⟨p.after '{', rest⟩
    rw [Cursor.step_cons, hskip₂] at h
    dsimp only at h
    split at h
    · cases h
    · obtain ⟨⟨t, s₃⟩, hread, h⟩ := ok_of_bind h
      obtain ⟨key, hkey⟩ := spelt_of_readText hread
      obtain ⟨s₄, hcolon, h⟩ := ok_of_bind h
      obtain ⟨p₅, rest₅, hskip₅, hblanks⟩ := exists_skipBlank s₄
      rw [hskip₅] at h
      dsimp only at h
      split at h
      · cases h
      · obtain ⟨s₆, hword, h⟩ := ok_of_bind h
        have hnull := rest_of_word hword
        obtain ⟨p₇, rest₇, hskip₇, hlast⟩ := exists_skipBlank s₆
        rw [hskip₇] at h
        dsimp only at h
        split at h
        · cases h
        · cases h
          cases hnull
          exact ⟨.object [(key, .null)], _, hb, .object
            (.cons (.first hfirst) hkey (blanks_of_colon hcolon) hblanks .null (.nil hlast))⟩
        · cases h
      · cases h
    · cases h
  · cases h

theorem takesDocuments_optional {inner : Shape} (hinner : TakesDocuments inner.read) :
    TakesDocuments (Shape.optional inner).read := by
  intro s s' v h
  obtain ⟨p, rest, hskip, hb⟩ := exists_skipBlank s
  unfold Shape.read at h
  dsimp only at h
  rw [hskip] at h
  dsimp only at h
  split at h
  · obtain ⟨s₂, hword, heq⟩ := ok_of_bind h
    have hnull := rest_of_word hword
    cases heq
    cases hnull
    exact ⟨.null, _, hb, .null⟩
  · obtain ⟨⟨v, s₂⟩, hread, heq⟩ := ok_of_bind h
    cases heq
    obtain ⟨d, s₃, hblanks, hd⟩ := hinner hread
    exact ⟨d, s₃, hb.trans hblanks, hd⟩

theorem takesDocuments_list {item : Shape} (hitem : TakesDocuments item.read) :
    TakesDocuments (Shape.list item).read := by
  intro s s' vs h
  obtain ⟨p, rest, hskip, hb⟩ := exists_skipBlank s
  unfold Shape.read at h
  dsimp only [Shape.Value] at h
  rw [hskip] at h
  dsimp only at h
  split at h
  · cases h
  · obtain ⟨ds, hds⟩ := items_of_elements hitem h
    exact ⟨.list ds, _, hb, .list hds⟩
  · cases h

/-! ## Records -/

theorem takesMembers_nil : TakesMembers Fields.nil.readMember := by
  intro name known known' s s' h
  obtain ⟨s₁, hcolon, h⟩ := ok_of_bind h
  obtain ⟨s₂, hskip, heq⟩ := ok_of_bind h
  cases heq
  obtain ⟨d, s₃, hblanks, hd⟩ := written_of_skipValue hskip
  exact ⟨d, _, s₃, blanks_of_colon hcolon, hblanks, hd⟩

theorem takesMembers_cons {name : String} {shape : Shape} {rest : Fields}
    (hshape : TakesDocuments shape.read) (hrest : TakesMembers rest.readMember) :
    TakesMembers (Fields.cons name shape rest).readMember := by
  rintro key ⟨slot, slots⟩ known' s s' h
  simp only [Fields.readMember] at h
  split at h
  · split at h
    · cases h
    · obtain ⟨s₁, hcolon, h⟩ := ok_of_bind h
      obtain ⟨⟨v, s₂⟩, hread, heq⟩ := ok_of_bind h
      cases heq
      obtain ⟨d, s₃, hblanks, hd⟩ := hshape hread
      exact ⟨d, _, s₃, blanks_of_colon hcolon, hblanks, hd⟩
  · obtain ⟨⟨slots', s₂⟩, hread, heq⟩ := ok_of_bind h
    cases heq
    exact hrest hread

/-- What is taken off a text in the order of the fields are items of a list, if that ends behind
them. -/
def Fields.TakesItems (fields : Fields) : Prop :=
  ∀ {first : Bool} {s s' : Cursor} {slots : fields.Slots} {t : List Char},
    fields.readInOrder first s = .ok (slots, s') → Blanks s'.rest (']' :: t) →
    ∃ ds, Items first ds s.rest (']' :: t)

theorem takesItems_nil : Fields.nil.TakesItems := by
  intro first s s' slots t h hend
  cases h
  exact ⟨[], .nil hend⟩

theorem takesItems_cons {name : String} {shape : Shape} {rest : Fields}
    (hshape : TakesDocuments shape.read) (hrest : rest.TakesItems) :
    (Fields.cons name shape rest).TakesItems := by
  intro first s s' slots t h hend
  rw [Fields.readInOrder] at h
  obtain ⟨⟨more, s₁⟩, hnext, h⟩ := ok_of_bind h
  cases more with
  | false =>
    cases h
    obtain ⟨hblanks, -⟩ := taken_of_nextElement hnext
    exact ⟨[], .nil (hblanks.trans hend)⟩
  | true =>
    have hsep : Separator first s.rest s₁.rest := taken_of_nextElement hnext
    obtain ⟨⟨v, s₂⟩, hread, h⟩ := ok_of_bind h
    obtain ⟨⟨slots', s₃⟩, htail, heq⟩ := ok_of_bind h
    cases heq
    obtain ⟨d, s₄, hblanks, hd⟩ := hshape hread
    obtain ⟨ds, hds⟩ := hrest htail hend
    exact ⟨d :: ds, .cons (hsep.blanks hblanks) hd hds⟩

theorem blanks_of_endList {s s' : Cursor} (h : endList s = .ok s') :
    Blanks s.rest (']' :: s'.rest) := by
  obtain ⟨p, rest, hskip, hb⟩ := exists_skipBlank s
  unfold endList at h
  dsimp only at h
  rw [hskip] at h
  dsimp only at h
  split at h
  · cases h
  · cases h
    exact hb
  · split at h <;> cases h
  · cases h

theorem takesDocuments_record {name : String} {whole : Bool} {fields : Fields}
    (hitems : fields.TakesItems) (hmember : TakesMembers fields.readMember) :
    TakesDocuments (Shape.record name whole fields).read := by
  intro s s' vs h
  obtain ⟨p, rest, hskip, hb⟩ := exists_skipBlank s
  unfold Shape.read at h
  dsimp only [Shape.Value] at h
  rw [hskip] at h
  dsimp only at h
  split at h
  · cases h
  · obtain ⟨⟨slots, s₂⟩, hread, h⟩ := ok_of_bind h
    dsimp only at h
    split at h
    · cases h
    · obtain ⟨s₃, hend, heq⟩ := ok_of_bind h
      cases heq
      obtain ⟨ds, hds⟩ := hitems hread (blanks_of_endList hend)
      exact ⟨.list ds, _, hb, .list hds⟩
  · obtain ⟨⟨slots, s₂⟩, hread, heq⟩ := ok_of_bind h
    cases heq
    obtain ⟨ms, hms⟩ := members_of_members hmember hread
    exact ⟨.object ms, _, hb, .object hms⟩
  · cases h

mutual

/-- Whatever its shape, what is read is a document. -/
theorem Shape.takesDocuments : (shape : Shape) → TakesDocuments shape.read
  | .text => takesDocuments_text
  | .tag => takesDocuments_tag
  | .optional inner => takesDocuments_optional inner.takesDocuments
  | .list item => takesDocuments_list item.takesDocuments
  | .record _ _ fields => takesDocuments_record fields.takesItems fields.takesMembers

theorem Fields.takesItems : (fields : Fields) → fields.TakesItems
  | .nil => takesItems_nil
  | .cons _ shape rest => takesItems_cons shape.takesDocuments rest.takesItems

theorem Fields.takesMembers : (fields : Fields) → TakesMembers fields.readMember
  | .nil => takesMembers_nil
  | .cons _ shape rest => takesMembers_cons shape.takesDocuments rest.takesMembers

end

/-! ## Whole texts -/

theorem Shape.readAll_eq (shape : Shape) (text : String) :
    shape.readAll text = shape.read ⟨.start, text.toList⟩ >>= fun r =>
      if r.2.skipBlank.rest.isEmpty then .ok r.1 else .error (r.2.skipBlank.ahead .trailingText) :=
  rfl

/-- A text is read as its document says. -/
theorem Shape.readAll_holds {text : String} {d : Document} (h : Holds text d) (shape : Shape) :
    (shape.readAll text).toOption = shape.valueOf? d := by
  obtain ⟨s, t, hbefore, hd, hbehind⟩ := h
  have hread := shape.reads hbefore hd Position.start
  rw [readAll_eq]
  cases hv : shape.valueOf? d with
  | none =>
    rw [hv] at hread
    obtain ⟨fault, hfault⟩ := hread
    rw [hfault]
    rfl
  | some v =>
    rw [hv] at hread
    obtain ⟨q, hq⟩ := hread
    obtain ⟨q', hq'⟩ := hbehind.skipBlank (stops_nil _) q
    rw [hq]
    change (if (Cursor.skipBlank ⟨q, t⟩).rest.isEmpty then _ else _ : Except Fault _).toOption = _
    rw [hq']
    rfl

theorem Shape.holds_of_readAll {text : String} {shape : Shape} {v : shape.Value}
    (h : shape.readAll text = .ok v) : ∃ d, Holds text d := by
  obtain ⟨⟨v', s⟩, hread, hend⟩ := ok_of_bind h
  obtain ⟨d, s₁, hbefore, hd⟩ := shape.takesDocuments hread
  have hbehind := blanks_skipBlank s
  dsimp only at hend
  split at hend
  · next hempty =>
    rw [List.isEmpty_iff.mp hempty] at hbehind
    exact ⟨d, s₁, s.rest, hbefore, hd, hbehind⟩
  · cases hend

/-- A text is read as a value exactly if it holds a document that stands for the value. -/
theorem Shape.readAll_eq_ok_iff {text : String} {shape : Shape} {v : shape.Value} :
    shape.readAll text = .ok v ↔ ∃ d, Holds text d ∧ shape.valueOf? d = some v := by
  constructor
  · intro h
    obtain ⟨d, hd⟩ := holds_of_readAll h
    have hvalue := readAll_holds hd shape
    rw [h] at hvalue
    exact ⟨d, hd, hvalue.symm⟩
  · rintro ⟨d, hd, hvalue⟩
    have hread := readAll_holds hd shape
    rw [hvalue] at hread
    cases h : shape.readAll text with
    | error fault => rw [h] at hread; cases hread
    | ok v' => rw [h] at hread; cases hread; rfl

end LegBoard.Json
