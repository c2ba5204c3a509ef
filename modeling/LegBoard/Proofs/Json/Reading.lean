import LegBoard.Json.Read
import LegBoard.Proofs.Json.Meaning
import LegBoard.Proofs.Json.RoundTrip
import LegBoard.Proofs.Json.Skipping

/-!
# Reading documents

A text is read as a value exactly if it holds a document that stands for the value. So what is
read depends on the document alone.
-/
namespace LegBoard.Json

/-! ## Lengths -/

theorem Separator.length_le {first : Bool} {s t : List Char} (h : Separator first s t) :
    t.length ≤ s.length := by
  cases h with
  | first h => exact h.length_le
  | comma before behind =>
    have h₁ := before.length_le
    have h₂ := behind.length_le
    rw [List.length_cons] at h₁
    omega

mutual

theorem Written.length_lt : {d : Document} → {s t : List Char} → Written d s t →
    t.length < s.length
  | _, _, _, .null => by simp only [List.length_cons]; omega
  | _, _, _, .yes => by simp only [List.length_cons]; omega
  | _, _, _, .no => by simp only [List.length_cons]; omega
  | _, _, _, .number h => by
    obtain ⟨c, cs, rfl, -⟩ := h.opens
    simp only [List.length_append, List.length_cons]
    omega
  | _, _, _, .text h => by
    have hlen := h.length_le
    simp only [List.length_cons] at hlen ⊢
    omega
  | _, _, _, .list h => by
    have hlen := h.length_le
    simp only [List.length_cons] at hlen ⊢
    omega
  | _, _, _, .object h => by
    have hlen := h.length_le
    simp only [List.length_cons] at hlen ⊢
    omega

/-- Every item takes a character. -/
theorem Items.length_le : {first : Bool} → {ds : List Document} → {s t : List Char} →
    Items first ds s t → ds.length + t.length ≤ s.length
  | _, _, _, _, .nil h => by simpa only [List.length_nil, Nat.zero_add] using h.length_le
  | _, _, _, _, .cons hsep hd rest => by
    have h₁ := hsep.length_le
    have h₂ := hd.length_lt
    have h₃ := rest.length_le
    simp only [List.length_cons]
    omega

/-- Every member takes a character. -/
theorem Members.length_le : {first : Bool} → {ms : List (Units × Document)} → {s t : List Char} →
    Members first ms s t → ms.length + t.length ≤ s.length
  | _, _, _, _, .nil h => by simpa only [List.length_nil, Nat.zero_add] using h.length_le
  | _, _, _, _, .cons hsep hkey hcolon hblanks hd rest => by
    have h₁ := hsep.length_le
    have h₂ := length_le_key (.nil _) hkey hcolon
    have h₃ := hblanks.length_le
    have h₄ := hd.length_lt
    have h₅ := rest.length_le
    simp only [List.length_cons] at h₁ h₂ ⊢
    omega

end

/-! ## Lists -/

/-- Answers to each of the documents that may stand in front of a text. -/
def ReadsDocument {α : Type} (read : Cursor → Except Fault (α × Cursor))
    (value? : Document → Option α) : Prop :=
  ∀ {d : Document} {s₀ s t : List Char}, Blanks s₀ s → Written d s t → ∀ p : Position,
    Answers (read ⟨p, s₀⟩) (value? d) t

theorem nextElement_close (first : Bool) {s t : List Char} (h : Blanks s (']' :: t))
    (p : Position) : ∃ q, nextElement first ⟨p, s⟩ = .ok (false, ⟨q, ']' :: t⟩) := by
  obtain ⟨q, hq⟩ := h.skipBlank (stops_cons (by decide) t) p
  exact ⟨q, by simp only [nextElement, hq]⟩

/-- A list goes on with whatever is neither a blank nor its closing bracket. -/
theorem nextElement_cons {first : Bool} {c : Char} {s cs : List Char}
    (hsep : Separator first s (c :: cs)) (hb : Cursor.isBlank c = false) (hne : c ≠ ']')
    (p : Position) : ∃ q, nextElement first ⟨p, s⟩ = .ok (true, ⟨q, c :: cs⟩) := by
  have hsettled : Settled (c :: cs) := stops_cons hb cs
  cases hsep with
  | first h =>
    obtain ⟨q, hq⟩ := h.skipBlank hsettled p
    refine ⟨q, ?_⟩
    unfold nextElement
    rw [hq]
    dsimp only
    split
    · next heq => cases heq
    · next heq => exact absurd (List.cons.inj heq).1 hne
    · rfl
  | comma before behind =>
    obtain ⟨q₁, hq₁⟩ := before.skipBlank (stops_cons (by decide) _) p
    obtain ⟨q, hq⟩ := behind.skipBlank hsettled (q₁.after ',')
    refine ⟨q, ?_⟩
    unfold nextElement
    rw [hq₁]
    dsimp only
    rw [Cursor.step_cons, hq]
    split
    · next heq => cases heq
    · next heq => exact absurd (List.cons.inj heq).1 (by decide)
    · next heq =>
      cases heq
      rw [if_neg Bool.false_ne_true, if_pos rfl]
      split
      · next heq => cases heq
      · next heq => exact absurd (List.cons.inj heq).1 hne
      · rfl

theorem nextElement_separator {first : Bool} {d : Document} {s s₁ s₂ : List Char}
    (hsep : Separator first s s₁) (hd : Written d s₁ s₂) (p : Position) :
    ∃ q, nextElement first ⟨p, s⟩ = .ok (true, ⟨q, s₁⟩) := by
  obtain ⟨c, cs, rfl, hc⟩ := hd.opens
  have hne : c ≠ ']' := Document.opensWith_ne hc (.inr (.inr (.inl rfl)))
  exact nextElement_cons hsep (Document.isBlank_of_opensWith hc) hne p

theorem elements_more {α : Type} {item : Cursor → Except Fault (α × Cursor)} {first : Bool}
    {s s' : Cursor} (h : nextElement first s = .ok (true, s')) (tick : Char) (clock : List Char)
    (taken : List α) :
    elements item (tick :: clock) first taken s =
      item s' >>= fun r => elements item clock false (r.1 :: taken) r.2 := by
  rw [elements, h]
  rfl

theorem mapM_taken {α β : Type} (f : α → Option β) (a : α) (as : List α) (taken : List β) :
    ((a :: as).mapM f).map (taken.reverse ++ ·) =
      (f a).bind fun b => (as.mapM f).map ((b :: taken).reverse ++ ·) := by
  rw [List.mapM_cons]
  cases f a with
  | none => rfl
  | some b =>
    cases as.mapM f with
    | none => rfl
    | some bs => simp only [Option.bind_eq_bind, Option.bind_some, Option.map_some, Option.pure_def,
        List.reverse_cons, List.append_assoc, List.cons_append, List.nil_append]

theorem elements_items {α : Type} {item : Cursor → Except Fault (α × Cursor)}
    {value? : Document → Option α} (hitem : ReadsDocument item value?) {ds : List Document}
    {first : Bool} {s t : List Char} (h : Items first ds s (']' :: t)) {clock : List Char}
    (hclock : ds.length < clock.length) (taken : List α) (p : Position) :
    Answers (elements item clock first taken ⟨p, s⟩)
      ((ds.mapM value?).map (taken.reverse ++ ·)) t := by
  induction ds generalizing first s clock taken p with
  | nil =>
    obtain ⟨tick, clock, rfl⟩ := List.exists_cons_of_length_pos (by omega : 0 < clock.length)
    cases h with
    | nil hb =>
      obtain ⟨q, hq⟩ := nextElement_close first hb p
      have htaken : taken.reverse ++ [] = taken.reverse := List.append_nil _
      refine ⟨q.after ']', ?_⟩
      rw [elements, hq]
      exact congrArg (fun as => Except.ok (as, _)) htaken.symm
  | cons d ds ih =>
    obtain ⟨tick, clock, rfl⟩ := List.exists_cons_of_length_pos (by omega : 0 < clock.length)
    simp only [List.length_cons] at hclock
    cases h with
    | cons hsep hd rest =>
      obtain ⟨q, hq⟩ := nextElement_separator hsep hd p
      have htail := fun a q' => ih rest (show ds.length < clock.length by omega) (a :: taken) q'
      rw [elements_more hq, mapM_taken]
      exact (hitem (.nil _) hd q).bind htail

/-! ## Objects -/

/-- The readers of an object's members answer to each member that may stand in front of a text, by
adding it to what is known. -/
def ReadsMember {σ : Type} (member : String → σ → Cursor → Except Fault (σ × Cursor))
    (add? : σ → String × Document → Option σ) : Prop :=
  ∀ (name : String) {d : Document} (known : σ) {s s₁ s₂ t : List Char}, Blanks s (':' :: s₁) →
    Blanks s₁ s₂ → Written d s₂ t → Stops Numeral.continues t → ∀ p : Position,
    Answers (member name known ⟨p, s⟩) (add? known (name, d)) t

theorem nextKey_close (first : Bool) {s t : List Char} (h : Blanks s ('}' :: t)) (p : Position) :
    ∃ q, nextKey first ⟨p, s⟩ = .ok (none, ⟨q, '}' :: t⟩) := by
  obtain ⟨q, hq⟩ := h.skipBlank (stops_cons (by decide) t) p
  exact ⟨q, by simp only [nextKey, hq]⟩

theorem nextKey_separator {first : Bool} {key : Units} {s s₁ t : List Char}
    (hsep : Separator first s ('"' :: s₁)) (hkey : Spelt key s₁ ('"' :: t)) (p : Position) :
    Answers (nextKey first ⟨p, s⟩) ((textOf? key).map some) t := by
  have hquote : Settled ('"' :: s₁) := stops_cons (by decide) s₁
  cases hsep with
  | first h =>
    obtain ⟨q, hq⟩ := h.skipBlank hquote p
    have hnext : nextKey true ⟨p, s⟩ =
        (readText ⟨q.after '"', s₁⟩).map fun r => (some r.1, r.2) := by
      simp only [nextKey, hq, ↓reduceIte, Cursor.step_cons]
      rfl
    rw [hnext]
    exact (readText_spelt hkey _).map some
  | comma before behind =>
    obtain ⟨q₁, hq₁⟩ := before.skipBlank (stops_cons (by decide) _) p
    obtain ⟨q, hq⟩ := behind.skipBlank hquote (q₁.after ',')
    have hnext : nextKey false ⟨p, s⟩ =
        (readText ⟨q.after '"', s₁⟩).map fun r => (some r.1, r.2) := by
      simp only [nextKey, hq₁, Bool.false_eq_true, ↓reduceIte, Cursor.step_cons, hq]
      rfl
    rw [hnext]
    exact (readText_spelt hkey _).map some

/-- A key and its member, then the other members. -/
theorem foldlM_named {σ : Type} (add? : σ → String × Document → Option σ) (key : Units)
    (d : Document) (ms : List (Units × Document)) (known : σ) :
    (named? ((key, d) :: ms)).bind (·.foldlM add? known) =
      (textOf? key).bind fun name => (add? known (name, d)).bind fun known =>
        (named? ms).bind (·.foldlM add? known) := by
  rw [named?, List.mapM_cons]
  cases textOf? key with
  | none => rfl
  | some name =>
    change ((named? ms).bind fun ms => some ((name, d) :: ms)).bind _ =
      (add? known (name, d)).bind _
    rw [Option.bind_comm (add? known (name, d))]
    cases named? ms with
    | none => rfl
    | some ms => exact List.foldlM_cons

theorem members_members {σ : Type} {member : String → σ → Cursor → Except Fault (σ × Cursor)}
    {add? : σ → String × Document → Option σ} (hmember : ReadsMember member add?)
    {ms : List (Units × Document)} {first : Bool} {s t : List Char}
    (h : Members first ms s ('}' :: t)) {clock : List Char} (hclock : ms.length < clock.length)
    (known : σ) (p : Position) :
    Answers (members member clock first known ⟨p, s⟩)
      ((named? ms).bind (·.foldlM add? known)) t := by
  induction ms generalizing first s clock known p with
  | nil =>
    obtain ⟨tick, clock, rfl⟩ := List.exists_cons_of_length_pos (by omega : 0 < clock.length)
    cases h with
    | nil hb =>
      obtain ⟨q, hq⟩ := nextKey_close first hb p
      refine ⟨q.after '}', ?_⟩
      rw [members, hq]
      rfl
  | cons m ms ih =>
    obtain ⟨tick, clock, rfl⟩ := List.exists_cons_of_length_pos (by omega : 0 < clock.length)
    simp only [List.length_cons] at hclock
    cases h with
    | cons hsep hkey hcolon hblanks hd rest =>
      rw [foldlM_named, members]
      refine (nextKey_separator hsep hkey p).bind_map fun name q => ?_
      refine (hmember name known hcolon hblanks hd rest.stops q).bind fun known q' => ?_
      exact ih rest (by omega) known q'

/-! ## What a first character says -/

/-- A document of a kind that no shape asks for. -/
inductive Document.Plain : Document → Prop
  | boolean (value : Bool) : Plain (.boolean value)
  | number (spelling : List Char) : Plain (.number spelling)

/-- A first character of a value that some shape asks for. -/
def isWanted (c : Char) : Bool := c == 'n' || c == '"' || c == '[' || c == '{'

theorem isWanted_number {c : Char} (h : (c == '-' || isDigit c) = true) : isWanted c = false := by
  cases hw : isWanted c with
  | false => rfl
  | true =>
    simp only [isWanted, Bool.or_eq_true, beq_iff_eq] at hw
    rcases hw with ((rfl | rfl) | rfl) | rfl <;> exact absurd h (by decide)

theorem Written.of_first {c : Char} {d : Document} {s t : List Char} (h : Written d (c :: s) t) :
    (c = 'n' ∧ d = .null ∧ s = 'u' :: 'l' :: 'l' :: t) ∨
    (c = '"' ∧ ∃ units, d = .text units ∧ Spelt units s ('"' :: t)) ∨
    (c = '[' ∧ ∃ ds, d = .list ds ∧ Items true ds s (']' :: t)) ∨
    (c = '{' ∧ ∃ ms, d = .object ms ∧ Members true ms s ('}' :: t)) ∨
    (isWanted c = false ∧ d.Plain) := by
  generalize hs : c :: s = s₀ at h
  cases h with
  | null =>
    cases hs
    exact .inl ⟨rfl, rfl, rfl⟩
  | yes =>
    cases hs
    exact .inr (.inr (.inr (.inr ⟨by decide, .boolean _⟩)))
  | no =>
    cases hs
    exact .inr (.inr (.inr (.inr ⟨by decide, .boolean _⟩)))
  | number h =>
    obtain ⟨c', cs, rfl, hc⟩ := h.opens
    cases hs
    exact .inr (.inr (.inr (.inr ⟨isWanted_number hc, .number _⟩)))
  | text h =>
    cases hs
    exact .inr (.inl ⟨rfl, _, rfl, h⟩)
  | list h =>
    cases hs
    exact .inr (.inr (.inl ⟨rfl, _, rfl, h⟩))
  | object h =>
    cases hs
    exact .inr (.inr (.inr (.inl ⟨rfl, _, rfl, h⟩)))

theorem Shape.valueOf?_plain {d : Document} (h : d.Plain) :
    (shape : Shape) → shape.valueOf? d = none
  | .text | .tag | .list _ | .record .. => by cases h <;> rfl
  | .optional inner => by
    have hinner := inner.valueOf?_plain h
    cases h <;> exact congrArg (Option.map some) hinner

theorem Shape.read_unwanted {c : Char} (hc : isWanted c = false) (hb : Cursor.isBlank c = false)
    (p : Position) (s t : List Char) :
    (shape : Shape) → Answers (shape.read ⟨p, c :: s⟩) none t
  | .text => by
    unfold Shape.read
    rw [skipBlank_settled (stops_cons hb s)]
    dsimp only [Shape.Value]
    split
    · exact ⟨_, rfl⟩
    · next heq =>
      cases heq
      exact absurd hc (by decide)
    · exact ⟨_, rfl⟩
  | .tag => by
    unfold Shape.read readTag
    rw [skipBlank_settled (stops_cons hb s)]
    dsimp only [Shape.Value]
    split
    · exact ⟨_, rfl⟩
    · next heq =>
      cases heq
      exact absurd hc (by decide)
    · next heq =>
      cases heq
      exact absurd hc (by decide)
    · exact ⟨_, rfl⟩
  | .optional inner => by
    have hinner := inner.read_unwanted hc hb p s t
    unfold Shape.read
    rw [skipBlank_settled (stops_cons hb s)]
    dsimp only [Shape.Value]
    split
    · next heq =>
      cases heq
      exact absurd hc (by decide)
    · exact hinner.map some
  | .list item => by
    unfold Shape.read
    rw [skipBlank_settled (stops_cons hb s)]
    dsimp only [Shape.Value]
    split
    · exact ⟨_, rfl⟩
    · next heq =>
      cases heq
      exact absurd hc (by decide)
    · exact ⟨_, rfl⟩
  | .record name whole fields => by
    unfold Shape.read
    rw [skipBlank_settled (stops_cons hb s)]
    dsimp only [Shape.Value]
    split
    · exact ⟨_, rfl⟩
    · next heq =>
      cases heq
      exact absurd hc (by decide)
    · next heq =>
      cases heq
      exact absurd hc (by decide)
    · exact ⟨_, rfl⟩

theorem Shape.read_blanks {s₀ s : List Char} (h : Blanks s₀ s) (hs : Settled s) (p : Position)
    (shape : Shape) : ∃ q, shape.read ⟨p, s₀⟩ = shape.read ⟨q, s⟩ := by
  obtain ⟨q, hq⟩ := h.skipBlank hs p
  refine ⟨q, ?_⟩
  cases shape with
  | tag =>
    unfold Shape.read readTag
    rw [hq, skipBlank_settled hs]
  | _ =>
    unfold Shape.read
    rw [hq, skipBlank_settled hs]

/-- A shape reads every document if it reads those of a kind that some shape asks for. -/
theorem Shape.readsDocument (shape : Shape)
    (hnull : ∀ p t, Answers (shape.read ⟨p, 'n' :: 'u' :: 'l' :: 'l' :: t⟩)
      (shape.valueOf? .null) t)
    (htext : ∀ units s t, Spelt units s ('"' :: t) → ∀ p,
      Answers (shape.read ⟨p, '"' :: s⟩) (shape.valueOf? (.text units)) t)
    (hlist : ∀ ds s t, Items true ds s (']' :: t) → ∀ p,
      Answers (shape.read ⟨p, '[' :: s⟩) (shape.valueOf? (.list ds)) t)
    (hobject : ∀ ms s t, Members true ms s ('}' :: t) → ∀ p,
      Answers (shape.read ⟨p, '{' :: s⟩) (shape.valueOf? (.object ms)) t) :
    ReadsDocument shape.read shape.valueOf? := by
  intro d s₀ s t hblanks hd p
  obtain ⟨q, hq⟩ := shape.read_blanks hblanks hd.settled p
  rw [hq]
  obtain ⟨c, cs, rfl, hc⟩ := hd.opens
  have hb := Document.isBlank_of_opensWith hc
  rcases hd.of_first with ⟨rfl, rfl, rfl⟩ | ⟨rfl, units, rfl, h⟩ | ⟨rfl, ds, rfl, h⟩ |
    ⟨rfl, ms, rfl, h⟩ | ⟨hc, hplain⟩
  · exact hnull q t
  · exact htext units cs t h q
  · exact hlist ds cs t h q
  · exact hobject ms cs t h q
  · rw [Shape.valueOf?_plain hplain]
    exact Shape.read_unwanted hc hb q cs t shape

/-! ## Values -/

theorem readsDocument_text : ReadsDocument Shape.text.read Shape.text.valueOf? :=
  Shape.text.readsDocument (fun _ _ => ⟨_, rfl⟩) (fun _ _ _ h p => readText_spelt h (p.after '"'))
    (fun _ _ _ _ _ => ⟨_, rfl⟩) (fun _ _ _ _ _ => ⟨_, rfl⟩)

theorem tagOf?_object (key : Units) (d : Document) (ms : List (Units × Document)) :
    tagOf? (.object ((key, d) :: ms)) = (textOf? key).bind fun name =>
      match d, ms with
      | .null, [] => some name
      | _, _ => none := by
  cases d <;> cases ms <;> simp only [tagOf?, Option.bind_fun_none, Option.bind_fun_some]

theorem Written.eq_null {d : Document} {s t : List Char} (h : Written d ('n' :: s) t) :
    d = .null ∧ s = 'u' :: 'l' :: 'l' :: t := by
  rcases h.of_first with ⟨-, hd, hs⟩ | ⟨hc, -⟩ | ⟨hc, -⟩ | ⟨hc, -⟩ | ⟨hc, -⟩
  · exact ⟨hd, hs⟩
  all_goals exact absurd hc (by decide)

theorem readTag_object {ms : List (Units × Document)} {s t : List Char}
    (h : Members true ms s ('}' :: t)) (p : Position) :
    Answers (readTag ⟨p, '{' :: s⟩) (tagOf? (.object ms)) t := by
  have hbrace : Settled ('{' :: s) := stops_cons (by decide) s
  unfold readTag
  rw [skipBlank_settled hbrace]
  dsimp only
  rw [Cursor.step_cons]
  cases h with
  | nil hb =>
    obtain ⟨q, hq⟩ := hb.skipBlank (stops_cons (by decide) t) (p.after '{')
    rw [hq]
    exact ⟨_, rfl⟩
  | @cons _ key d ms _ _ _ _ s₄ s₅ _ hsep hkey hcolon hblanks hd rest =>
    cases hsep with
    | first hb =>
      obtain ⟨q, hq⟩ := hb.skipBlank (stops_cons (by decide) _) (p.after '{')
      rw [hq, tagOf?_object]
      refine (readText_spelt hkey (q.after '"')).bind fun name q₁ => ?_
      obtain ⟨q₂, hq₂⟩ := colon_blanks hcolon q₁
      obtain ⟨q₃, hq₃⟩ := hblanks.skipBlank hd.settled q₂
      dsimp only
      rw [hq₂]
      dsimp only [bind, Except.bind]
      rw [hq₃]
      -- only `null` is taken, and only if the object ends behind it
      split
      · next heq =>
        cases show s₄ = _ from heq
        exact absurd hd.length_lt (Nat.not_lt_zero _)
      · next heq =>
        cases show s₄ = _ from heq
        obtain ⟨rfl, rfl⟩ := hd.eq_null
        have hword : word ['u', 'l', 'l'] ⟨q₃.after 'n', 'u' :: 'l' :: 'l' :: s₅⟩ = .ok ⟨_, s₅⟩ :=
          word_append ['u', 'l', 'l'] s₅ (q₃.after 'n')
        rw [Cursor.step_cons, hword]
        dsimp only
        cases rest with
        | nil hb =>
          obtain ⟨q₄, hq₄⟩ := hb.skipBlank (stops_cons (by decide) t) _
          rw [hq₄]
          exact ⟨_, rfl⟩
        | cons hsep =>
          cases hsep with
          | comma before =>
            obtain ⟨q₄, hq₄⟩ := before.skipBlank (stops_cons (by decide) _) _
            rw [hq₄]
            exact ⟨_, rfl⟩
      · next hn =>
        cases d with
        | null =>
          cases hd
          exact absurd rfl (hn _)
        | _ => exact ⟨_, rfl⟩

theorem readsDocument_tag : ReadsDocument Shape.tag.read Shape.tag.valueOf? :=
  Shape.tag.readsDocument (fun _ _ => ⟨_, rfl⟩) (fun _ _ _ h p => readText_spelt h (p.after '"'))
    (fun _ _ _ _ _ => ⟨_, rfl⟩) (fun _ _ _ h p => readTag_object h p)

theorem readsDocument_optional {inner : Shape} (h : ReadsDocument inner.read inner.valueOf?) :
    ReadsDocument (Shape.optional inner).read (Shape.optional inner).valueOf? := by
  refine (Shape.optional inner).readsDocument (fun p t => ?_) (fun units s t hs p => ?_)
    (fun ds s t hs p => ?_) (fun ms s t hs p => ?_)
  · exact ⟨_, rfl⟩
  · exact (h (.nil _) (.text hs) p).map some
  · exact (h (.nil _) (.list hs) p).map some
  · exact (h (.nil _) (.object hs) p).map some

theorem readsDocument_list {item : Shape} (h : ReadsDocument item.read item.valueOf?) :
    ReadsDocument (Shape.list item).read (Shape.list item).valueOf? := by
  refine (Shape.list item).readsDocument (fun p t => ⟨_, rfl⟩) (fun units s t hs p => ⟨_, rfl⟩)
    (fun ds s t hs p => ?_) (fun ms s t hs p => ⟨_, rfl⟩)
  have hlen := hs.length_le
  rw [List.length_cons] at hlen
  have helements := elements_items h hs (show ds.length < s.length by omega) [] (p.after '[')
  have hvalues : (ds.mapM item.valueOf?).map ([].reverse ++ ·) = ds.mapM item.valueOf? :=
    Option.map_id'
  rw [hvalues] at helements
  exact helements

/-! ## Records -/

/-- What is known of the fields of a record, with one more member. -/
def Fields.add? : (fields : Fields) → fields.Slots → String × Document → Option fields.Slots
  | .nil, _, _ => some ()
  | .cons name shape rest, (slot, slots), (key, d) =>
    if key = name then
      if slot.isSome then none else (shape.valueOf? d).map fun v => (some v, slots)
    else (rest.add? slots (key, d)).map fun slots => (slot, slots)

theorem readsMember_nil : ReadsMember Fields.nil.readMember Fields.nil.add? := by
  intro name d known s s₁ s₂ t hcolon hblanks hd ht p
  obtain ⟨q₁, hq₁⟩ := colon_blanks hcolon p
  obtain ⟨q₂, hq₂⟩ := skipValue_written hblanks hd ht q₁
  refine ⟨q₂, ?_⟩
  rw [Fields.readMember, hq₁]
  change (skipValue ⟨q₁, s₁⟩ >>= _) = _
  rw [hq₂]
  rfl

theorem readsMember_cons {name : String} {shape : Shape} {rest : Fields}
    (hshape : ReadsDocument shape.read shape.valueOf?)
    (hrest : ReadsMember rest.readMember rest.add?) :
    ReadsMember (Fields.cons name shape rest).readMember (Fields.cons name shape rest).add? := by
  rintro key d ⟨slot, slots⟩ s s₁ s₂ t hcolon hblanks hd ht p
  simp only [Fields.readMember, Fields.add?]
  split
  · split
    · exact ⟨_, rfl⟩
    · obtain ⟨q₁, hq₁⟩ := colon_blanks hcolon p
      rw [hq₁]
      exact (hshape hblanks hd q₁).map fun v => (some v, slots)
  · exact (hrest key slots hcolon hblanks hd ht p).map fun slots => (slot, slots)

/-- What is known of a field, with one more member of its name. -/
def Shape.offer? (shape : Shape) (slot : Option shape.Value) (m : String × Document) :
    Option (Option shape.Value) :=
  if slot.isSome then none else (shape.valueOf? m.2).map some

theorem Shape.foldlM_offer (shape : Shape) : (ms : List (String × Document)) →
    (ms.foldlM shape.offer? none).map (·.getD shape.blank) =
      sole? shape.blank shape.valueOf? ms
  | [] => rfl
  | [m] => by
    rw [List.foldlM_cons, sole?]
    cases h : shape.valueOf? m.2 <;> simp [offer?, h]
  | m :: m' :: ms => by
    change _ = none
    rw [List.foldlM_cons]
    cases h : shape.valueOf? m.2 <;> simp [offer?, h]

/-- The members that have the name of the first field, and the others. -/
theorem Fields.foldlM_add {name : String} {shape : Shape} {rest : Fields}
    (ms : List (String × Document)) (slot : Option shape.Value) (slots : rest.Slots) :
    ms.foldlM (Fields.cons name shape rest).add? (consSlots name slot slots) =
      ((ms.filter (·.1 = name)).foldlM shape.offer? slot).bind fun slot =>
        ((ms.filter (·.1 ≠ name)).foldlM rest.add? slots).map fun slots =>
          consSlots name slot slots := by
  induction ms generalizing slot slots with
  | nil => rfl
  | cons m ms ih =>
    obtain ⟨key, d⟩ := m
    rw [List.foldlM_cons]
    by_cases hkey : key = name
    · have hadd : (Fields.cons name shape rest).add? (consSlots name slot slots) (key, d) =
          (shape.offer? slot (key, d)).map (consSlots name · slots) := by
        simp only [add?, consSlots, if_pos hkey, Shape.offer?]
        split
        · rfl
        · cases shape.valueOf? d <;> rfl
      have hrest : ((key, d) :: ms).filter (·.1 ≠ name) = ms.filter (·.1 ≠ name) :=
        List.filter_cons_of_neg (by simpa using hkey)
      rw [hadd, hrest, List.filter_cons_of_pos (by simpa using hkey), List.foldlM_cons]
      cases shape.offer? slot (key, d) with
      | none => rfl
      | some slot => exact ih slot slots
    · have hadd : (Fields.cons name shape rest).add? (consSlots name slot slots) (key, d) =
          (rest.add? slots (key, d)).map (consSlots name slot ·) := by
        simp only [add?, consSlots, if_neg hkey]
      have hrest : ((key, d) :: ms).filter (·.1 ≠ name) = (key, d) :: ms.filter (·.1 ≠ name) :=
        List.filter_cons_of_pos (by simpa using hkey)
      rw [hadd, hrest, List.filter_cons_of_neg (by simpa using hkey), List.foldlM_cons]
      cases rest.add? slots (key, d) with
      | none => exact (Option.bind_fun_none _).symm
      | some slots => exact ih slot slots

theorem Fields.fill_foldlM_add : (fields : Fields) → (ms : List (String × Document)) →
    (ms.foldlM fields.add? fields.noSlots).map fields.fill = fields.byName? ms
  | .nil, ms => by
    induction ms with
    | nil => rfl
    | cons m ms ih => exact ih
  | .cons name shape rest, ms => by
    have hshape := shape.foldlM_offer (ms.filter (·.1 = name))
    have hrest := rest.fill_foldlM_add (ms.filter (·.1 ≠ name))
    have hstart : (Fields.cons name shape rest).noSlots = consSlots name none rest.noSlots := rfl
    rw [hstart, foldlM_add, byName?, ← hshape, ← hrest]
    cases (ms.filter (·.1 = name)).foldlM shape.offer? none with
    | none => rfl
    | some slot =>
      cases (ms.filter (·.1 ≠ name)).foldlM rest.add? rest.noSlots <;> rfl

theorem record_object {name : String} {whole : Bool} {fields : Fields}
    (hmember : ReadsMember fields.readMember fields.add?) {ms : List (Units × Document)}
    {s t : List Char} (h : Members true ms s ('}' :: t)) (p : Position) :
    Answers ((Shape.record name whole fields).read ⟨p, '{' :: s⟩)
      ((Shape.record name whole fields).valueOf? (.object ms)) t := by
  have hlen := h.length_le
  rw [List.length_cons] at hlen
  have hmembers := members_members hmember h (show ms.length < s.length by omega) fields.noSlots
    (p.after '{')
  have hvalue : (Shape.record name whole fields).valueOf? (.object ms) =
      ((named? ms).bind (·.foldlM fields.add? fields.noSlots)).map fields.fill := by
    rw [Option.map_bind]
    exact congrArg (named? ms).bind (funext fun ms => (fields.fill_foldlM_add ms).symm)
  rw [hvalue]
  exact hmembers.map fields.fill

/-- Up to the end of the fields or of the list, whichever comes first. -/
def Fields.ReadsInOrder (fields : Fields) : Prop :=
  ∀ {ds : List Document} {first : Bool} {s t : List Char}, Items first ds s (']' :: t) →
    ∀ p : Position,
    match fields.inOrder? ds with
    | none => ∃ fault, fields.readInOrder first ⟨p, s⟩ = .error fault
    | some vs => ∃ slots q s' first',
      fields.readInOrder first ⟨p, s⟩ = .ok (slots, ⟨q, s'⟩) ∧ fields.fill slots = vs ∧
      fields.given slots = min ds.length fields.size ∧
      Items first' (ds.drop fields.size) s' (']' :: t)

theorem Fields.fill_noSlots : (fields : Fields) → fields.fill fields.noSlots = fields.blank
  | .nil => rfl
  | .cons _ shape rest => congrArg (Prod.mk shape.blank) rest.fill_noSlots

theorem Fields.given_noSlots : (fields : Fields) → fields.given fields.noSlots = 0
  | .nil => rfl
  | .cons _ _ rest => (Nat.zero_add _).trans rest.given_noSlots

theorem readsInOrder_nil : Fields.nil.ReadsInOrder := by
  intro ds first s t h p
  exact ⟨(), p, s, first, rfl, rfl, (Nat.min_zero _).symm, h⟩

theorem readsInOrder_cons {name : String} {shape : Shape} {rest : Fields}
    (hshape : ReadsDocument shape.read shape.valueOf?) (hrest : rest.ReadsInOrder) :
    (Fields.cons name shape rest).ReadsInOrder := by
  intro ds first s t h p
  cases h with
  | nil hb =>
    obtain ⟨q, hq⟩ := nextElement_close first hb p
    refine ⟨(Fields.cons name shape rest).noSlots, q, _, false, ?_, ?_, ?_, .nil (.nil _)⟩
    · rw [Fields.readInOrder, hq]
      rfl
    · exact Fields.fill_noSlots _
    · rw [Fields.given_noSlots, List.length_nil, Nat.zero_min]
  | @cons _ d ds _ s₁ s₂ _ hsep hd hitems =>
    obtain ⟨q, hq⟩ := nextElement_separator hsep hd p
    have hread : (Fields.cons name shape rest).readInOrder first ⟨p, s⟩ =
        shape.read ⟨q, s₁⟩ >>= fun r => (rest.readInOrder false r.2).map fun r' =>
          (Fields.consSlots name (some r.1) r'.1, r'.2) := by
      rw [Fields.readInOrder, hq]
      rfl
    have hfirst := hshape (.nil _) hd q
    rw [Fields.inOrder?, hread]
    cases hv : shape.valueOf? d with
    | none =>
      rw [hv] at hfirst
      obtain ⟨fault, hfault⟩ := hfirst
      exact ⟨fault, by rw [hfault]; rfl⟩
    | some v =>
      rw [hv] at hfirst
      obtain ⟨q₁, hq₁⟩ := hfirst
      have htail := hrest hitems q₁
      cases hvs : rest.inOrder? ds with
      | none =>
        rw [hvs] at htail
        obtain ⟨fault, hfault⟩ := htail
        refine ⟨fault, ?_⟩
        rw [hq₁]
        change (rest.readInOrder false ⟨q₁, s₂⟩).map _ = _
        rw [hfault]
        rfl
      | some vs =>
        rw [hvs] at htail
        obtain ⟨slots, q₂, s₃, first', hslots, hfill, hgiven, hleft⟩ := htail
        refine ⟨Fields.consSlots name (some v) slots, q₂, s₃, first', ?_, ?_, ?_, hleft⟩
        · rw [hq₁]
          change (rest.readInOrder false ⟨q₁, s₂⟩).map _ = _
          rw [hslots]
          rfl
        · exact congrArg (Prod.mk v) hfill
        · change 1 + rest.given slots = min (ds.length + 1) (rest.size + 1)
          omega

/-- A list of which no more is wanted has to end. -/
theorem endList_nil {first : Bool} {s t : List Char} (h : Items first [] s (']' :: t))
    (p : Position) : ∃ q, endList ⟨p, s⟩ = .ok ⟨q, t⟩ := by
  cases h with
  | nil hb =>
    obtain ⟨q, hq⟩ := hb.skipBlank (stops_cons (by decide) t) p
    exact ⟨q.after ']', by simp only [endList, hq, Cursor.step_cons]⟩

theorem endList_cons {first : Bool} {d : Document} {ds : List Document} {s t : List Char}
    (h : Items first (d :: ds) s (']' :: t)) (p : Position) :
    ∃ fault, endList ⟨p, s⟩ = .error fault := by
  cases h with
  | cons hsep hd =>
    cases hsep with
    | first hb =>
      obtain ⟨q, hq⟩ := hb.skipBlank hd.settled p
      obtain ⟨c, cs, rfl, hc⟩ := hd.opens
      have hcomma : c ≠ ',' := Document.opensWith_ne hc (.inr (.inl rfl))
      have hclose : c ≠ ']' := Document.opensWith_ne hc (.inr (.inr (.inl rfl)))
      refine ⟨(⟨q, c :: cs⟩ : Cursor).ahead .trailingText, ?_⟩
      unfold endList
      rw [hq]
      dsimp only
      split
      · next heq => cases heq
      · next heq => exact absurd (List.cons.inj heq).1 hclose
      · next heq => exact absurd (List.cons.inj heq).1 hcomma
      · rfl
    | comma before =>
      obtain ⟨q, hq⟩ := before.skipBlank (stops_cons (by decide) _) p
      simp only [endList, hq]
      split
      · exact ⟨_, rfl⟩
      · exact ⟨_, rfl⟩

/-- Behind the values of the fields: the list is not too short, and it ends. -/
theorem answers_endList {fields : Fields} {slots : fields.Slots} {ds : List Document}
    {first : Bool} {s t : List Char} (whole : Bool) (fault : Fault)
    (hgiven : fields.given slots = min ds.length fields.size)
    (h : Items first (ds.drop fields.size) s (']' :: t)) (p : Position) :
    Answers
      (if whole && fields.given slots < fields.size then .error fault
        else (endList ⟨p, s⟩).map fun s => (fields.fill slots, s))
      (if fields.size < ds.length ∨ whole = true ∧ ds.length < fields.size then none
        else some (fields.fill slots)) t := by
  have hshort : (whole && decide (fields.given slots < fields.size)) = true ↔
      whole = true ∧ ds.length < fields.size := by
    rw [Bool.and_eq_true, decide_eq_true_iff, hgiven]
    exact and_congr_right fun _ => by omega
  by_cases hw : whole = true ∧ ds.length < fields.size
  · rw [if_pos (hshort.mpr hw), if_pos (.inr hw)]
    exact ⟨_, rfl⟩
  · rw [if_neg (mt hshort.mp hw)]
    cases hdrop : ds.drop fields.size with
    | nil =>
      have hlen : ds.length ≤ fields.size := List.drop_eq_nil_iff.mp hdrop
      rw [hdrop] at h
      obtain ⟨q, hq⟩ := endList_nil h p
      rw [if_neg (not_or.mpr ⟨by omega, hw⟩), hq]
      exact ⟨q, rfl⟩
    | cons d ds' =>
      have hlen : fields.size < ds.length := by
        have hne := congrArg List.length hdrop
        rw [List.length_drop, List.length_cons] at hne
        omega
      rw [hdrop] at h
      obtain ⟨fault, hfault⟩ := endList_cons h p
      rw [if_pos (.inl hlen), hfault]
      exact ⟨fault, rfl⟩

theorem record_list {name : String} {whole : Bool} {fields : Fields}
    (hfields : fields.ReadsInOrder) {ds : List Document} {s t : List Char}
    (h : Items true ds s (']' :: t)) (p : Position) :
    Answers ((Shape.record name whole fields).read ⟨p, '[' :: s⟩)
      ((Shape.record name whole fields).valueOf? (.list ds)) t := by
  have hread : (Shape.record name whole fields).read ⟨p, '[' :: s⟩ =
      fields.readInOrder true ⟨p.after '[', s⟩ >>= fun r =>
        if whole && fields.given r.1 < fields.size then
          .error (r.2.step.here (.missingFields (fields.given r.1) fields.size name))
        else (endList r.2).map fun s => (fields.fill r.1, s) := rfl
  have hvalue : (Shape.record name whole fields).valueOf? (.list ds) =
      if fields.size < ds.length ∨ whole = true ∧ ds.length < fields.size then none
      else fields.inOrder? ds := rfl
  have hslots := hfields h (p.after '[')
  rw [hread, hvalue]
  cases hvs : fields.inOrder? ds with
  | none =>
    rw [hvs] at hslots
    obtain ⟨fault, hfault⟩ := hslots
    rw [hfault, ite_self]
    exact ⟨fault, rfl⟩
  | some vs =>
    rw [hvs] at hslots
    obtain ⟨slots, q, s', first', hslots, rfl, hgiven, hleft⟩ := hslots
    rw [hslots]
    exact answers_endList whole _ hgiven hleft q

theorem readsDocument_record {name : String} {whole : Bool} {fields : Fields}
    (hfields : fields.ReadsInOrder) (hmember : ReadsMember fields.readMember fields.add?) :
    ReadsDocument (Shape.record name whole fields).read
      (Shape.record name whole fields).valueOf? :=
  (Shape.record name whole fields).readsDocument (fun _ _ => ⟨_, rfl⟩)
    (fun _ _ _ _ _ => ⟨_, rfl⟩) (fun _ _ _ h p => record_list hfields h p)
    (fun _ _ _ h p => record_object hmember h p)

mutual

/-- Each shape reads every document, as the document says. -/
theorem Shape.reads : (shape : Shape) → ReadsDocument shape.read shape.valueOf?
  | .text => readsDocument_text
  | .tag => readsDocument_tag
  | .optional inner => readsDocument_optional inner.reads
  | .list item => readsDocument_list item.reads
  | .record _ _ fields => readsDocument_record fields.readsInOrder fields.readsMember

theorem Fields.readsInOrder : (fields : Fields) → fields.ReadsInOrder
  | .nil => readsInOrder_nil
  | .cons _ shape rest => readsInOrder_cons shape.reads rest.readsInOrder

theorem Fields.readsMember : (fields : Fields) → ReadsMember fields.readMember fields.add?
  | .nil => readsMember_nil
  | .cons _ shape rest => readsMember_cons shape.reads rest.readsMember

end

end LegBoard.Json
