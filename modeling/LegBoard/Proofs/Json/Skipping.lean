import LegBoard.Proofs.Json.Numbers
import LegBoard.Proofs.Json.Strings

/-!
# Skipping values

A value whose content nobody asks for is passed by a machine that keeps a stack of the brackets
still open. What the stack means is `Closes`: what is left of the innermost bracket, then what is
left of the next one. One direction runs the machine along the derivation of a document, the other
builds the derivation from a run, step by step: the machine passes exactly one document.
-/

namespace LegBoard.Json

/-! ## How documents start -/

/-- A character that a document may start with. -/
def Document.opensWith : Document → Char → Bool
  | .null, c => c == 'n'
  | .boolean true, c => c == 't'
  | .boolean false, c => c == 'f'
  | .number _, c => c == '-' || isDigit c
  | .text _, c => c == '"'
  | .list _, c => c == '['
  | .object _, c => c == '{'

theorem Numeric.opens {cs : List Char} (h : Numeric cs) :
    ∃ c ds, cs = c :: ds ∧ (c == '-' || isDigit c) = true := by
  obtain @⟨sign, whole, fraction, exponent, hsign, hwhole, -, -⟩ := h
  rcases hsign with rfl | rfl
  · cases hwhole with
    | zero => exact ⟨'0', _, rfl, rfl⟩
    | digits _ hdigit => exact ⟨_, _, rfl, by rw [hdigit, Bool.or_true]⟩
  · exact ⟨'-', _, rfl, rfl⟩

theorem Written.opens {d : Document} {s t : List Char} (h : Written d s t) :
    ∃ c cs, s = c :: cs ∧ d.opensWith c = true := by
  cases h with
  | number h =>
    obtain ⟨c, cs, rfl, hc⟩ := h.opens
    exact ⟨c, _, rfl, hc⟩
  | _ => exact ⟨_, _, rfl, rfl⟩

/-- No document starts like the end of one, or with a blank. -/
theorem Document.opensWith_ne {d : Document} {c e : Char} (h : d.opensWith c = true)
    (he : Cursor.isBlank e = true ∨ e = ',' ∨ e = ']' ∨ e = '}') : c ≠ e := by
  rintro rfl
  have hcases : c = ' ' ∨ c = '\n' ∨ c = '\t' ∨ c = '\r' ∨ c = ',' ∨ c = ']' ∨ c = '}' := by
    simpa only [Cursor.isBlank, Bool.or_eq_true, beq_iff_eq, or_assoc] using he
  revert h
  rw [imp_false, Bool.not_eq_true]
  rcases d with _ | (_ | _) | _ | _ | _ | _ <;>
    rcases hcases with rfl | rfl | rfl | rfl | rfl | rfl | rfl <;> rfl

theorem Document.isBlank_of_opensWith {d : Document} {c : Char} (h : d.opensWith c = true) :
    Cursor.isBlank c = false := by
  cases hb : Cursor.isBlank c with
  | false => rfl
  | true => exact absurd rfl (opensWith_ne h (.inl hb))

theorem Written.settled {d : Document} {s t : List Char} (h : Written d s t) : Settled s := by
  obtain ⟨c, cs, rfl, hc⟩ := h.opens
  exact stops_cons (Document.isBlank_of_opensWith hc) cs

theorem continues_of_isBlank {c : Char} (h : Cursor.isBlank c = true) :
    Numeral.continues c = false := by
  simp only [Cursor.isBlank, Bool.or_eq_true, beq_iff_eq] at h
  rcases h with ((rfl | rfl) | rfl) | rfl <;> decide

theorem Blanks.stops {s t : List Char} (h : Blanks s t) (ht : Stops Numeral.continues t) :
    Stops Numeral.continues s := by
  obtain ⟨blanks, hblanks, rfl⟩ := h
  refine stops_append ?_ ht
  rintro c cs rfl
  exact continues_of_isBlank (hblanks c List.mem_cons_self)

/-- What follows an item cannot belong to a number. -/
theorem Separator.stops {s t : List Char} (h : Separator false s t) :
    Stops Numeral.continues s := by
  cases h with
  | comma before => exact before.stops (stops_cons (by decide) _)

theorem Items.stops {ds : List Document} {s t : List Char} (h : Items false ds s (']' :: t)) :
    Stops Numeral.continues s := by
  cases h with
  | nil hb => exact hb.stops (stops_cons (by decide) t)
  | cons hsep => exact hsep.stops

theorem Members.stops_before {ms : List (Units × Document)} {s t : List Char}
    (h : Members false ms s t) (ht : Stops Numeral.continues t) : Stops Numeral.continues s := by
  cases h with
  | nil hb => exact hb.stops ht
  | cons hsep => exact hsep.stops

theorem Members.stops {ms : List (Units × Document)} {s t : List Char}
    (h : Members false ms s ('}' :: t)) : Stops Numeral.continues s :=
  h.stops_before (stops_cons (by decide) t)

/-! ## What is a document is skipped -/

/-- What is left to do behind a value: to close brackets, and to skip what a comma announces. -/
def resume (clock : List Char) (frames : List Frame) (s : Cursor) : Except Fault Cursor :=
  (unwind frames s).bind fun
    | ([], s) => .ok s
    | (frames, s) => skipFrom clock frames s

theorem skipFrom_cons (tick : Char) (clock : List Char) (frames : List Frame) (s : Cursor) :
    skipFrom (tick :: clock) frames s = (skipHead s).bind fun
      | (some frame, s) => skipFrom clock (frame :: frames) s
      | (none, s) => resume clock frames s := rfl

theorem skipHead_blanks {s t : List Char} (h : Blanks s t) (ht : Settled t) (p : Position) :
    ∃ q, skipHead ⟨p, s⟩ = skipHead ⟨q, t⟩ := by
  obtain ⟨q, hq⟩ := h.skipBlank ht p
  refine ⟨q, ?_⟩
  simp only [skipHead, hq, skipBlank_settled ht]

theorem skipHead_number {c : Char} (hc : (c == '-' || isDigit c) = true) (p : Position)
    (cs : List Char) :
    skipHead ⟨p, c :: cs⟩ =
      (Numeral.scan .invalidNumber ⟨p, c :: cs⟩).bind fun r => .ok (none, r.2) := by
  have hb := Document.isBlank_of_opensWith (show (Document.number []).opensWith c = true from hc)
  unfold skipHead
  rw [skipBlank_settled (stops_cons hb cs)]
  dsimp only
  split
  · next heq => cases heq
  iterate 6
    next heq =>
      cases heq
      exact absurd hc (by decide)
  · next heq =>
    cases heq
    rw [if_pos hc]
    rfl

theorem skipHead_text {units : Units} {s t : List Char} (h : Spelt units s ('"' :: t))
    (p : Position) : ∃ q, skipHead ⟨p, '"' :: s⟩ = .ok (none, ⟨q, t⟩) := by
  obtain ⟨q, hq⟩ := skipText_spelt h (p.after '"')
  have hhead : skipHead ⟨p, '"' :: s⟩ = (skipText ⟨p.after '"', s⟩).map (none, ·) := rfl
  exact ⟨q, by rw [hhead, hq]; rfl⟩

/-- The character that opens a bracket. -/
def Frame.opening : Frame → Char
  | .list => '['
  | .object => '{'

theorem skipHead_opening (frame : Frame) (p : Position) (s : List Char) :
    skipHead ⟨p, frame.opening :: s⟩ = (frame.enter ⟨p.after frame.opening, s⟩).bind
      fun r => .ok (if r.1 then some frame else none, r.2) := by
  cases frame <;> rfl

/-- A bracket that closes where a value of it may stand. -/
theorem enter_close (frame : Frame) {s t : List Char} (h : Blanks s (frame.close :: t))
    (p : Position) : ∃ q, frame.enter ⟨p, s⟩ = .ok (false, ⟨q, t⟩) := by
  have hsettled : Settled (frame.close :: t) := stops_cons (by cases frame <;> decide) t
  obtain ⟨q, hq⟩ := h.skipBlank hsettled p
  refine ⟨q.after frame.close, ?_⟩
  simp only [Frame.enter, hq, ↓reduceIte, Cursor.step_cons]

theorem enterItem_object {key : Units} {s s₁ s₂ s₃ : List Char} (hkey : Blanks s ('"' :: s₁))
    (hspelt : Spelt key s₁ ('"' :: s₂)) (hcolon : Blanks s₂ (':' :: s₃)) (p : Position) :
    ∃ q, Frame.object.enterItem ⟨p, s⟩ = .ok ⟨q, s₃⟩ := by
  obtain ⟨q₁, h₁⟩ := hkey.skipBlank (stops_cons (by decide) s₁) p
  obtain ⟨q₂, h₂⟩ := skipText_spelt hspelt (q₁.after '"')
  obtain ⟨q₃, h₃⟩ := colon_blanks hcolon q₂
  refine ⟨q₃, ?_⟩
  simp only [Frame.enterItem, h₁, Cursor.step_cons, h₂]
  exact h₃

/-- A bracket that does not close at once leads to the value of its first item. -/
theorem enter_item (frame : Frame) {c : Char} {s s₁ t : List Char} (h : Blanks s (c :: s₁))
    (hb : Cursor.isBlank c = false) (hc : c ≠ frame.close)
    (hitem : ∀ p, ∃ q, frame.enterItem ⟨p, c :: s₁⟩ = .ok ⟨q, t⟩) (p : Position) :
    ∃ q, frame.enter ⟨p, s⟩ = .ok (true, ⟨q, t⟩) := by
  obtain ⟨q, hq⟩ := h.skipBlank (stops_cons hb s₁) p
  obtain ⟨q', hq'⟩ := hitem q
  refine ⟨q', ?_⟩
  simp only [Frame.enter, hq, if_neg hc, hq']
  rfl

theorem unwind_close (frame : Frame) {s t : List Char} (h : Blanks s (frame.close :: t))
    (frames : List Frame) (p : Position) :
    ∃ q, unwind (frame :: frames) ⟨p, s⟩ = unwind frames ⟨q, t⟩ := by
  have hsettled : Settled (frame.close :: t) := stops_cons (by cases frame <;> decide) t
  have hcomma : frame.close ≠ ',' := by cases frame <;> decide
  obtain ⟨q, hq⟩ := h.skipBlank hsettled p
  refine ⟨q.after frame.close, ?_⟩
  simp only [unwind, hq, if_neg hcomma, ↓reduceIte, Cursor.step_cons]

theorem unwind_comma (frame : Frame) {s s₁ t : List Char} (h : Blanks s (',' :: s₁))
    (hitem : ∀ p, ∃ q, frame.enterItem ⟨p, s₁⟩ = .ok ⟨q, t⟩) (frames : List Frame)
    (p : Position) :
    ∃ q, unwind (frame :: frames) ⟨p, s⟩ = .ok (frame :: frames, ⟨q, t⟩) := by
  obtain ⟨q, hq⟩ := h.skipBlank (stops_cons (by decide) s₁) p
  obtain ⟨q', hq'⟩ := hitem (q.after ',')
  refine ⟨q', ?_⟩
  simp only [unwind, hq, ↓reduceIte, Cursor.step_cons, hq']
  rfl

/-- From here to there the skipper passes one value, whatever brackets are open around it. The
clock has a tick for every character ahead, before and after. -/
def SkipsValue (s t : List Char) : Prop :=
  ∀ (frames : List Frame) (p : Position) (clock : List Char), s.length ≤ clock.length →
    ∃ clock' q, t.length ≤ clock'.length ∧
      skipFrom clock frames ⟨p, s⟩ = resume clock' frames ⟨q, t⟩

/-- From here to there the skipper passes what is left of an open bracket. -/
def SkipsTail (frame : Frame) (s t : List Char) : Prop :=
  ∀ (frames : List Frame) (p : Position) (clock : List Char), s.length ≤ clock.length →
    ∃ clock' q, t.length ≤ clock'.length ∧
      resume clock (frame :: frames) ⟨p, s⟩ = resume clock' frames ⟨q, t⟩

theorem skipsValue_of_head {s s₁ t : List Char} (h : Blanks s s₁) (hs : Settled s₁)
    (hlen : t.length < s₁.length)
    (hhead : ∀ p, ∃ q, skipHead ⟨p, s₁⟩ = .ok (none, ⟨q, t⟩)) : SkipsValue s t := by
  intro frames p clock hclock
  have hblanks := h.length_le
  obtain ⟨tick, clock, rfl⟩ := List.exists_cons_of_length_pos (by omega : 0 < clock.length)
  rw [List.length_cons] at hclock
  obtain ⟨q₁, h₁⟩ := skipHead_blanks h hs p
  obtain ⟨q₂, h₂⟩ := hhead q₁
  refine ⟨clock, q₂, by omega, ?_⟩
  rw [skipFrom_cons, h₁, h₂]
  rfl

theorem skipsValue_empty (frame : Frame) {s s₁ t : List Char} (h : Blanks s (frame.opening :: s₁))
    (hclose : Blanks s₁ (frame.close :: t)) : SkipsValue s t := by
  have hlen := hclose.length_le
  rw [List.length_cons] at hlen
  refine skipsValue_of_head h (stops_cons (by cases frame <;> decide) s₁) ?_ fun p => ?_
  · rw [List.length_cons]
    omega
  · obtain ⟨q, hq⟩ := enter_close frame hclose (p.after frame.opening)
    exact ⟨q, by rw [skipHead_opening, hq]; rfl⟩

/-- A bracket with items is passed by passing the first item and then the rest. -/
theorem skipsValue_of_items (frame : Frame) {s s₁ s₂ s₃ t : List Char}
    (h : Blanks s (frame.opening :: s₁)) (hlen : s₂.length ≤ s₁.length)
    (henter : ∀ p, ∃ q, frame.enter ⟨p, s₁⟩ = .ok (true, ⟨q, s₂⟩)) (hitem : SkipsValue s₂ s₃)
    (htail : SkipsTail frame s₃ t) : SkipsValue s t := by
  intro frames p clock hclock
  have hblanks := h.length_le
  rw [List.length_cons] at hblanks
  obtain ⟨tick, clock, rfl⟩ := List.exists_cons_of_length_pos (by omega : 0 < clock.length)
  rw [List.length_cons] at hclock
  obtain ⟨q₁, h₁⟩ := skipHead_blanks h (stops_cons (by cases frame <;> decide) s₁) p
  obtain ⟨q₂, h₂⟩ := henter (q₁.after frame.opening)
  obtain ⟨clock₃, q₃, hclock₃, h₃⟩ := hitem (frame :: frames) q₂ clock (by omega)
  obtain ⟨clock₄, q₄, hclock₄, h₄⟩ := htail frames q₃ clock₃ hclock₃
  refine ⟨clock₄, q₄, hclock₄, ?_⟩
  rw [skipFrom_cons, h₁, skipHead_opening, h₂]
  exact h₃.trans h₄

theorem skipsTail_close (frame : Frame) {s t : List Char} (h : Blanks s (frame.close :: t)) :
    SkipsTail frame s t := by
  intro frames p clock hclock
  have hblanks := h.length_le
  rw [List.length_cons] at hblanks
  obtain ⟨q, hq⟩ := unwind_close frame h frames p
  exact ⟨clock, q, by omega, by rw [resume, hq]; rfl⟩

/-- What is left of a bracket in front of a comma is one more item and what is left behind it. -/
theorem skipsTail_comma (frame : Frame) {s s₁ s₂ s₃ t : List Char} (h : Blanks s (',' :: s₁))
    (hlen : s₂.length ≤ s₁.length)
    (henter : ∀ p, ∃ q, frame.enterItem ⟨p, s₁⟩ = .ok ⟨q, s₂⟩) (hitem : SkipsValue s₂ s₃)
    (htail : SkipsTail frame s₃ t) : SkipsTail frame s t := by
  intro frames p clock hclock
  have hblanks := h.length_le
  rw [List.length_cons] at hblanks
  obtain ⟨q₁, h₁⟩ := unwind_comma frame h henter frames p
  obtain ⟨clock₃, q₃, hclock₃, h₃⟩ := hitem (frame :: frames) q₁ clock (by omega)
  obtain ⟨clock₄, q₄, hclock₄, h₄⟩ := htail frames q₃ clock₃ hclock₃
  refine ⟨clock₄, q₄, hclock₄, ?_⟩
  rw [resume, h₁]
  exact h₃.trans h₄

theorem skipsValue_number {cs s t : List Char} (h : Blanks s (cs ++ t)) (hcs : Numeric cs)
    (ht : Stops Numeral.continues t) : SkipsValue s t := by
  refine skipsValue_of_head h (Written.number hcs).settled ?_ fun p => ?_
  · obtain ⟨c, cs, rfl, -⟩ := hcs.opens
    simp only [List.length_append, List.length_cons]
    omega
  · obtain ⟨n, q, hq⟩ := Numeral.scan_append .invalidNumber hcs ht p
    obtain ⟨c, cs, rfl, hc⟩ := hcs.opens
    refine ⟨q, ?_⟩
    rw [List.cons_append] at hq ⊢
    rw [skipHead_number hc, hq]
    rfl

theorem skipsValue_text {units : Units} {s s₁ t : List Char} (h : Blanks s ('"' :: s₁))
    (hspelt : Spelt units s₁ ('"' :: t)) : SkipsValue s t := by
  have hlen := hspelt.length_le
  rw [List.length_cons] at hlen
  refine skipsValue_of_head h (stops_cons (by decide) s₁) ?_ (skipHead_text hspelt)
  rw [List.length_cons]
  omega

theorem skipsValue_word {c : Char} (cs : List Char) {s t : List Char}
    (h : Blanks s (c :: (cs ++ t))) (hb : Cursor.isBlank c = false)
    (hhead : ∀ p, skipHead ⟨p, c :: (cs ++ t)⟩ = (word cs ⟨p.after c, cs ++ t⟩).map (none, ·)) :
    SkipsValue s t := by
  refine skipsValue_of_head h (stops_cons hb _) ?_ fun p => ⟨(p.after c).afterAll cs, ?_⟩
  · simp only [List.length_cons, List.length_append]
    omega
  · rw [hhead, word_append]
    rfl

theorem length_le_key {key : Units} {s s₁ s₂ s₃ : List Char}
    (hkey : Blanks s ('"' :: s₁)) (hspelt : Spelt key s₁ ('"' :: s₂))
    (hcolon : Blanks s₂ (':' :: s₃)) : s₃.length ≤ s.length := by
  have h₁ := hkey.length_le
  have h₂ := hspelt.length_le
  have h₃ := hcolon.length_le
  simp only [List.length_cons] at h₁ h₂ h₃
  omega

mutual

/-- A document in front of a text that no number could go on with is passed, with the blanks
before it. -/
theorem skipsValue_written : {d : Document} → {s₀ s t : List Char} → Blanks s₀ s → Written d s t →
    Stops Numeral.continues t → SkipsValue s₀ t
  | _, _, _, _, hb, .null, _ =>
    skipsValue_word ['u', 'l', 'l'] hb (by decide) fun _ => rfl
  | _, _, _, _, hb, .yes, _ =>
    skipsValue_word ['r', 'u', 'e'] hb (by decide) fun _ => rfl
  | _, _, _, _, hb, .no, _ =>
    skipsValue_word ['a', 'l', 's', 'e'] hb (by decide) fun _ => rfl
  | _, _, _, _, hb, .number h, ht => skipsValue_number hb h ht
  | _, _, _, _, hb, .text h, _ => skipsValue_text hb h
  | _, _, _, _, hb, .list (.nil h), _ => skipsValue_empty .list hb h
  | _, _, _, _, hb, .list (.cons (.first h) hd hrest), _ => by
    obtain ⟨c, cs, rfl, hc⟩ := hd.opens
    have hitem := skipsValue_written (.nil _) hd hrest.stops
    have hne : c ≠ ']' := Document.opensWith_ne hc (.inr (.inr (.inl rfl)))
    have henter := enter_item .list h (Document.isBlank_of_opensWith hc) hne
      fun p => ⟨p, rfl⟩
    exact skipsValue_of_items .list hb h.length_le henter hitem (skipsTail_items hrest)
  | _, _, _, _, hb, .object (.nil h), _ => skipsValue_empty .object hb h
  | _, _, _, _, hb, .object (.cons (.first h) hkey hcolon hblanks hd hrest), _ => by
    have hitem := skipsValue_written hblanks hd hrest.stops
    have henter := enter_item .object h (by decide) (by decide)
      (enterItem_object (.nil _) hkey hcolon)
    exact skipsValue_of_items .object hb (length_le_key h hkey hcolon) henter hitem
      (skipsTail_members hrest)

theorem skipsTail_items : {ds : List Document} → {s t : List Char} → Items false ds s (']' :: t) →
    SkipsTail .list s t
  | _, _, _, .nil h => skipsTail_close .list h
  | _, _, _, .cons (.comma before behind) hd hrest =>
    skipsTail_comma .list before (Nat.le_refl _) (fun p => ⟨p, rfl⟩)
      (skipsValue_written behind hd hrest.stops) (skipsTail_items hrest)

theorem skipsTail_members : {ms : List (Units × Document)} → {s t : List Char} →
    Members false ms s ('}' :: t) → SkipsTail .object s t
  | _, _, _, .nil h => skipsTail_close .object h
  | _, _, _, .cons (.comma before behind) hkey hcolon hblanks hd hrest =>
    skipsTail_comma .object before (length_le_key behind hkey hcolon)
      (enterItem_object behind hkey hcolon) (skipsValue_written hblanks hd hrest.stops)
      (skipsTail_members hrest)

end

/-- A value whose content is not asked for is passed, whatever it is. -/
theorem skipValue_written {d : Document} {s₀ s t : List Char} (hb : Blanks s₀ s)
    (hd : Written d s t) (ht : Stops Numeral.continues t) (p : Position) :
    ∃ q, skipValue ⟨p, s₀⟩ = .ok ⟨q, t⟩ := by
  obtain ⟨clock, q, -, heq⟩ := skipsValue_written hb hd ht [] p s₀ (Nat.le_refl _)
  exact ⟨q, heq⟩

/-! ## What is skipped is a document -/

/-- What stands in front of the value of an item, from behind the comma or the opening bracket. -/
def Announces : Frame → List Char → List Char → Prop
  | .list, s, t => Blanks s t
  | .object, s, t => ∃ key s₁ s₂,
      Blanks s ('"' :: s₁) ∧ Spelt key s₁ ('"' :: s₂) ∧ Blanks s₂ (':' :: t)

/-- What is left of a bracket behind the value of an item, its closing included. -/
def Remains : Frame → List Char → List Char → Prop
  | .list, s, t => ∃ ds, Items false ds s (']' :: t)
  | .object, s, t => ∃ ms, Members false ms s ('}' :: t)

/-- What is left of all the brackets that are open, the innermost first. -/
def Closes : List Frame → List Char → List Char → Prop
  | [], s, t => s = t
  | frame :: frames, s, u => ∃ t, Remains frame s t ∧ Closes frames t u

theorem Blanks.trans {s t u : List Char} (h : Blanks s t) (h' : Blanks t u) : Blanks s u := by
  obtain ⟨front, hfront, rfl⟩ := h
  obtain ⟨back, hback, rfl⟩ := h'
  refine ⟨front ++ back, fun c hc => ?_, (List.append_assoc ..).symm⟩
  exact (List.mem_append.mp hc).elim (hfront c) (hback c)

theorem Announces.blanks {frame : Frame} {s t u : List Char} (h : Blanks s t)
    (h' : Announces frame t u) : Announces frame s u := by
  cases frame with
  | list => exact h.trans h'
  | object =>
    obtain ⟨key, s₁, s₂, hkey, hrest⟩ := h'
    exact ⟨key, s₁, s₂, h.trans hkey, hrest⟩

theorem remains_close {frame : Frame} {s t : List Char} (h : Blanks s (frame.close :: t)) :
    Remains frame s t := by
  cases frame with
  | list => exact ⟨[], .nil h⟩
  | object => exact ⟨[], .nil h⟩

theorem remains_comma {frame : Frame} {d : Document} {s s₁ s₂ s₃ s₄ t : List Char}
    (hcomma : Blanks s (',' :: s₁)) (h : Announces frame s₁ s₂) (hb : Blanks s₂ s₃)
    (hd : Written d s₃ s₄) (hrest : Remains frame s₄ t) : Remains frame s t := by
  cases frame with
  | list =>
    obtain ⟨ds, hds⟩ := hrest
    exact ⟨d :: ds, .cons (.comma hcomma (h.trans hb)) hd hds⟩
  | object =>
    obtain ⟨ms, hms⟩ := hrest
    obtain ⟨key, _, _, hkey, hspelt, hcolon⟩ := h
    exact ⟨(key, d) :: ms, .cons (.comma hcomma hkey) hspelt hcolon hb hd hms⟩

theorem written_empty {frame : Frame} {s t : List Char} (h : Blanks s (frame.close :: t)) :
    ∃ d, Written d (frame.opening :: s) t := by
  cases frame with
  | list => exact ⟨.list [], .list (.nil h)⟩
  | object => exact ⟨.object [], .object (.nil h)⟩

theorem written_items {frame : Frame} {d : Document} {s s₁ s₂ s₃ t : List Char}
    (h : Announces frame s s₁) (hb : Blanks s₁ s₂) (hd : Written d s₂ s₃)
    (hrest : Remains frame s₃ t) : ∃ d, Written d (frame.opening :: s) t := by
  cases frame with
  | list =>
    obtain ⟨ds, hds⟩ := hrest
    exact ⟨.list (d :: ds), .list (.cons (.first (h.trans hb)) hd hds)⟩
  | object =>
    obtain ⟨ms, hms⟩ := hrest
    obtain ⟨key, _, _, hkey, hspelt, hcolon⟩ := h
    exact ⟨.object ((key, d) :: ms), .object (.cons (.first hkey) hspelt hcolon hb hd hms)⟩

theorem announces_of_enterItem {frame : Frame} {s s' : Cursor} (h : frame.enterItem s = .ok s') :
    Announces frame s.rest s'.rest := by
  cases frame with
  | list =>
    cases h
    exact .nil _
  | object =>
    obtain ⟨p, rest, hskip, hb⟩ := exists_skipBlank s
    unfold Frame.enterItem at h
    dsimp only at h
    rw [hskip] at h
    dsimp only at h
    split at h
    · cases h
    · obtain ⟨s₂, hskip, hcolon⟩ := ok_of_bind h
      obtain ⟨key, hkey⟩ := spelt_of_skipTextFrom hskip
      exact ⟨key, _, _, hb, hkey, blanks_of_colon hcolon⟩
    · cases h

theorem written_of_enter {frame : Frame} {s s' : Cursor} {more : Bool}
    (h : frame.enter s = .ok (more, s')) :
    if more then Announces frame s.rest s'.rest else Blanks s.rest (frame.close :: s'.rest) := by
  obtain ⟨p, rest, hskip, hb⟩ := exists_skipBlank s
  unfold Frame.enter at h
  dsimp only at h
  rw [hskip] at h
  dsimp only at h
  split at h
  · cases h
  · split at h
    · next hc =>
      cases h
      rw [if_neg Bool.false_ne_true, ← hc]
      exact hb
    · obtain ⟨s₂, hitem, heq⟩ := ok_of_map h
      cases heq
      rw [if_pos rfl]
      exact (announces_of_enterItem hitem).blanks hb

/-- What is passed: a value, or what leads to the value of a first item. -/
def Begins : Option Frame → List Char → List Char → Prop
  | none, s, t => ∃ d s₁, Blanks s s₁ ∧ Written d s₁ t
  | some frame, s, t => ∃ s₁, Blanks s (frame.opening :: s₁) ∧ Announces frame s₁ t

theorem begins_of_enter (frame : Frame) {p : Position} {s : List Char} {s' : Cursor}
    {opened : Option Frame}
    (h : (do
      let (more, s) ← frame.enter ⟨p, s⟩
      .ok (if more then some frame else none, s) : Except Fault _) = .ok (opened, s')) :
    Begins opened (frame.opening :: s) s'.rest := by
  obtain ⟨⟨more, s₁⟩, henter, heq⟩ := ok_of_bind h
  have hentered := written_of_enter henter
  cases heq
  cases more with
  | false =>
    obtain ⟨d, hd⟩ := written_empty hentered
    exact ⟨d, _, .nil _, hd⟩
  | true => exact ⟨s, .nil _, hentered⟩

theorem Begins.blanks {opened : Option Frame} {s t u : List Char} (h : Blanks s t)
    (h' : Begins opened t u) : Begins opened s u := by
  cases opened with
  | none =>
    obtain ⟨d, s₁, hb, hd⟩ := h'
    exact ⟨d, s₁, h.trans hb, hd⟩
  | some frame =>
    obtain ⟨s₁, hb, hitem⟩ := h'
    exact ⟨s₁, h.trans hb, hitem⟩

theorem begins_of_word {d : Document} {c : Char} {cs s : List Char} {p : Position} {s' : Cursor}
    {opened : Option Frame} (hd : ∀ t, Written d (c :: (cs ++ t)) t)
    (h : (word cs ⟨p, s⟩).map ((none : Option Frame), ·) = .ok (opened, s')) :
    Begins opened (c :: s) s'.rest := by
  obtain ⟨s₁, hword, heq⟩ := ok_of_map h
  cases heq
  refine ⟨d, c :: s, .nil _, ?_⟩
  have hs : s = cs ++ s'.rest := rest_of_word hword
  rw [hs]
  exact hd s'.rest

theorem begins_of_skipHead {s s' : Cursor} {opened : Option Frame}
    (h : skipHead s = .ok (opened, s')) : Begins opened s.rest s'.rest := by
  refine Begins.blanks (blanks_skipBlank s) ?_
  unfold skipHead at h
  dsimp only at h
  generalize s.skipBlank = s₁ at h
  obtain ⟨p, rest⟩ := s₁
  dsimp only at h ⊢
  split at h
  · cases h
  · exact begins_of_word (fun _ => .null) h
  · exact begins_of_word (fun _ => .yes) h
  · exact begins_of_word (fun _ => .no) h
  · obtain ⟨s₂, hskip, heq⟩ := ok_of_map h
    obtain ⟨units, hunits⟩ := spelt_of_skipTextFrom hskip
    cases heq
    exact ⟨.text units, _, .nil _, .text hunits⟩
  · exact begins_of_enter .list h
  · exact begins_of_enter .object h
  · split at h
    · obtain ⟨⟨n, s₂⟩, hscan, heq⟩ := ok_of_bind h
      obtain ⟨cs, hcs, hrest⟩ := Numeral.numeric_of_scan hscan
      cases heq
      dsimp only at hrest
      rw [hrest]
      exact ⟨.number cs, _, .nil _, .number hcs⟩
    · cases h

theorem closes_of_unwind {frames frames' : List Frame} {s s' : Cursor}
    (h : unwind frames s = .ok (frames', s')) :
    (frames' = [] ∧ Closes frames s.rest s'.rest) ∨
    (frames' ≠ [] ∧ ∀ d s₁ s₂ u, Blanks s'.rest s₁ → Written d s₁ s₂ → Closes frames' s₂ u →
      Closes frames s.rest u) := by
  induction frames generalizing s with
  | nil =>
    cases h
    exact .inl ⟨rfl, rfl⟩
  | cons frame frames ih =>
    obtain ⟨p, rest, hskip, hb⟩ := exists_skipBlank s
    unfold unwind at h
    dsimp only at h
    rw [hskip] at h
    dsimp only at h
    split at h
    · cases h
    · next c rest =>
      split at h
      · next hcomma =>
        subst hcomma
        obtain ⟨s₂, hitem, heq⟩ := ok_of_bind h
        cases heq
        refine .inr ⟨List.cons_ne_nil _ _, fun d s₁ s₂ u hblanks hd hcloses => ?_⟩
        obtain ⟨t, hremains, houter⟩ := hcloses
        exact ⟨t, remains_comma hb (announces_of_enterItem hitem) hblanks hd hremains, houter⟩
      · split at h
        · next hclose =>
          subst hclose
          have hremains : Remains frame s.rest rest := remains_close hb
          rcases ih h with ⟨hnil, hcloses⟩ | ⟨hne, hcloses⟩
          · exact .inl ⟨hnil, rest, hremains, hcloses⟩
          · exact .inr ⟨hne, fun d s₁ s₂ u hblanks hd hinner =>
              ⟨rest, hremains, hcloses d s₁ s₂ u hblanks hd hinner⟩⟩
        · cases h

theorem written_of_skipFrom {clock : List Char} {frames : List Frame} {s s' : Cursor}
    (h : skipFrom clock frames s = .ok s') :
    ∃ d s₁ s₂, Blanks s.rest s₁ ∧ Written d s₁ s₂ ∧ Closes frames s₂ s'.rest := by
  induction clock generalizing frames s with
  | nil => cases h
  | cons tick clock ih =>
    obtain ⟨⟨opened, s₁⟩, hhead, htail⟩ := ok_of_bind h
    have hbegins := begins_of_skipHead hhead
    cases opened with
    | some frame =>
      obtain ⟨t, hopen, hitem⟩ := hbegins
      obtain ⟨d, s₂, s₃, hb, hd, u, hremains, hcloses⟩ := ih htail
      obtain ⟨d', hd'⟩ := written_items hitem hb hd hremains
      exact ⟨d', _, u, hopen, hd', hcloses⟩
    | none =>
      obtain ⟨d, s₂, hb, hd⟩ := hbegins
      obtain ⟨⟨frames', s₃⟩, hunwind, hrest⟩ := ok_of_bind htail
      rcases closes_of_unwind hunwind with ⟨rfl, hcloses⟩ | ⟨hne, hcloses⟩
      · cases hrest
        exact ⟨d, s₂, _, hb, hd, hcloses⟩
      · obtain ⟨frame, frames', rfl⟩ := List.exists_cons_of_ne_nil hne
        obtain ⟨d', s₄, s₅, hb', hd', hinner⟩ := ih hrest
        exact ⟨d, s₂, _, hb, hd, hcloses d' s₄ s₅ _ hb' hd' hinner⟩

/-- What is passed as a value is a document, with the blanks before it. -/
theorem written_of_skipValue {s s' : Cursor} (h : skipValue s = .ok s') :
    ∃ d s₁, Blanks s.rest s₁ ∧ Written d s₁ s'.rest := by
  obtain ⟨d, s₁, s₂, hb, hd, rfl⟩ := written_of_skipFrom h
  exact ⟨d, s₁, hb, hd⟩

end LegBoard.Json
