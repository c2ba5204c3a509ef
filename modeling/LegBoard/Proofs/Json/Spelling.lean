import LegBoard.Json.Text

/-!
# Spellings of a string

A string may spell each of its characters raw, by a letter behind a backslash,
or by the number of its one or two UTF-16 units. `Spelling` relates what stands
between the quotes to the content. The reader takes every spelling for its
content and stops behind the closing quote, and what the writer writes is one
of the spellings. Nothing is said here about texts that spell no string.
-/
namespace LegBoard.Json

/-! ## Moving over a text -/

namespace Position

@[simp] theorem afterAll_nil (p : Position) : p.afterAll [] = p := rfl

@[simp] theorem afterAll_cons (p : Position) (c : Char) (cs : List Char) :
    p.afterAll (c :: cs) = (p.after c).afterAll cs := rfl

@[simp] theorem afterAll_append (p : Position) (cs ds : List Char) :
    p.afterAll (cs ++ ds) = (p.afterAll cs).afterAll ds := List.foldl_append

end Position

@[simp] theorem Cursor.step_cons (p : Position) (c : Char) (cs : List Char) :
    (⟨p, c :: cs⟩ : Cursor).step = ⟨p.after c, cs⟩ := rfl

/-! ## Spellings -/

/-- Four hexadecimal digits and the number that they spell. -/
structure UnitDigits (ds : List Char) (unit : Nat) : Prop where
  length_eq : ds.length = 4
  number_eq : Text.Hex.number? ds = some unit

/-- What may stand for one character of a string. -/
inductive CharSpelling : List Char → Char → Prop
  | raw {c : Char} (hquote : c ≠ '"') (hslash : c ≠ '\\') (hcontrol : isControl c = false) :
      CharSpelling [c] c
  | short {letter c : Char} (h : shortEscape? letter = some c) : CharSpelling ['\\', letter] c
  | unit {ds : List Char} {c : Char} (h : UnitDigits ds c.toNat) :
      CharSpelling ('\\' :: 'u' :: ds) c
  | pair {ds es : List Char} {first second : Nat} (hd : UnitDigits ds first)
      (he : UnitDigits es second) (hfirst : isFirstHalf first = true)
      (hsecond : isSecondHalf second = true) :
      CharSpelling ('\\' :: 'u' :: ds ++ '\\' :: 'u' :: es) (pairChar first second)

/-- What may stand between the quotes of a string. -/
inductive Spelling : List Char → List Char → Prop
  | nil : Spelling [] []
  | cons {written cs content : List Char} {c : Char} (head : CharSpelling written c)
      (tail : Spelling cs content) : Spelling (written ++ cs) (c :: content)

theorem hexUnit_digits {ds : List Char} {unit : Nat} (h : UnitDigits ds unit) (p : Position)
    (rest : List Char) : hexUnit ⟨p, ds ++ rest⟩ = .ok (unit, ⟨p.afterAll ds, rest⟩) := by
  obtain ⟨hlen, hnum⟩ := h
  obtain ⟨a, b, c, d, rfl⟩ : ∃ a b c d, ds = [a, b, c, d] := by
    match ds, hlen with
    | [a, b, c, d], _ => exact ⟨a, b, c, d, rfl⟩
  have ha := a.utf8Size_pos
  have hb := b.utf8Size_pos
  have hc := c.utf8Size_pos
  have hd := d.utf8Size_pos
  have hsize : ¬ byteSize [a, b, c, d] < 4 := by
    simp only [byteSize, List.foldr_cons, List.foldr_nil]
    omega
  simp only [hexUnit, List.cons_append, List.nil_append, List.take_succ_cons, List.take_zero,
    if_neg hsize, hnum]
  rfl

theorem isFirstHalf_toNat (c : Char) : isFirstHalf c.toNat = false := by
  have hc := c.valid
  simp only [UInt32.isValidChar, Nat.isValidChar] at hc
  simp only [isFirstHalf, Char.toNat, Bool.and_eq_false_iff, decide_eq_false_iff_not]
  omega

theorem isSecondHalf_toNat (c : Char) : isSecondHalf c.toNat = false := by
  have hc := c.valid
  simp only [UInt32.isValidChar, Nat.isValidChar] at hc
  simp only [isSecondHalf, Char.toNat, Bool.and_eq_false_iff, decide_eq_false_iff_not]
  omega

theorem readEscape_short {letter c : Char} (h : shortEscape? letter = some c) (p : Position)
    (rest : List Char) :
    readEscape ⟨p, letter :: rest⟩ = .ok (c, ⟨p.after letter, rest⟩) := by
  have hu : letter ≠ 'u' := by
    rintro rfl
    cases h
  unfold readEscape
  split
  · next heq => cases heq
  · next heq =>
    cases heq
    exact absurd rfl hu
  · next heq =>
    cases heq
    simp only [h, Cursor.step_cons]

theorem readEscape_unit {ds : List Char} {c : Char} (h : UnitDigits ds c.toNat) (p : Position)
    (rest : List Char) :
    readEscape ⟨p, 'u' :: (ds ++ rest)⟩ = .ok (c, ⟨p.afterAll ('u' :: ds), rest⟩) := by
  simp only [readEscape, Cursor.step_cons, hexUnit_digits h]
  simp only [bind, Except.bind, isFirstHalf_toNat, isSecondHalf_toNat, Bool.false_eq_true,
    ↓reduceIte, Char.ofNat_toNat, Position.afterAll_cons]

theorem isSecondHalf_of_isFirstHalf {unit : Nat} (h : isFirstHalf unit = true) :
    isSecondHalf unit = false := by
  simp only [isFirstHalf, Bool.and_eq_true, decide_eq_true_eq] at h
  simp only [isSecondHalf, Bool.and_eq_false_iff, decide_eq_false_iff_not]
  omega

theorem readEscape_pair {ds es : List Char} {first second : Nat} (hd : UnitDigits ds first)
    (he : UnitDigits es second) (hfirst : isFirstHalf first = true)
    (hsecond : isSecondHalf second = true) (p : Position) (rest : List Char) :
    readEscape ⟨p, 'u' :: (ds ++ '\\' :: 'u' :: (es ++ rest))⟩ =
      .ok (pairChar first second, ⟨p.afterAll ('u' :: ds ++ '\\' :: 'u' :: es), rest⟩) := by
  simp only [readEscape, Cursor.step_cons, hexUnit_digits hd]
  simp only [bind, Except.bind, isSecondHalf_of_isFirstHalf hfirst, hfirst, Bool.false_eq_true,
    ↓reduceIte, secondHalf, Cursor.step_cons, hexUnit_digits he, hsecond, Position.afterAll_cons,
    Position.afterAll_append]

/-- One tick of the clock takes one character, however it is spelt. -/
theorem textFrom_charSpelling {written : List Char} {c : Char} (h : CharSpelling written c)
    (tick : Char) (clock taken : List Char) (p : Position) (rest : List Char) :
    textFrom (tick :: clock) taken ⟨p, written ++ rest⟩ =
      textFrom clock (c :: taken) ⟨p.afterAll written, rest⟩ := by
  cases h with
  | raw hquote hslash hcontrol =>
    simp only [textFrom, List.cons_append, List.nil_append, hcontrol, Bool.false_eq_true,
      ↓reduceIte]
    rfl
  | short h =>
    simp only [textFrom, List.cons_append, List.nil_append, Cursor.step_cons, readEscape_short h]
    rfl
  | unit h =>
    simp only [textFrom, List.cons_append, Cursor.step_cons, readEscape_unit h]
    rfl
  | pair hd he hfirst hsecond =>
    simp only [textFrom, List.cons_append, List.append_assoc, Cursor.step_cons,
      readEscape_pair hd he hfirst hsecond]
    simp only [bind, Except.bind, Position.afterAll_cons, Position.afterAll_append]

theorem CharSpelling.length_pos {written : List Char} {c : Char} (h : CharSpelling written c) :
    0 < written.length := by
  cases h <;> exact Nat.succ_pos _

theorem Spelling.length_le {cs content : List Char} (h : Spelling cs content) :
    content.length ≤ cs.length := by
  induction h with
  | nil => exact Nat.le_refl _
  | cons head tail ih =>
    have hpos := head.length_pos
    rw [List.length_append, List.length_cons]
    omega

/-- The clock outlasts the string whenever it has a tick for each character and one for the
closing quote. -/
theorem textFrom_spelling {cs content : List Char} (h : Spelling cs content) (clock : List Char)
    (hclock : content.length < clock.length) (taken : List Char) (p : Position)
    (rest : List Char) :
    textFrom clock taken ⟨p, cs ++ '"' :: rest⟩ =
      .ok (taken.reverse ++ content, ⟨p.afterAll (cs ++ ['"']), rest⟩) := by
  induction h generalizing clock taken p with
  | nil =>
    obtain ⟨tick, clock, rfl⟩ := List.exists_cons_of_length_pos hclock
    simp only [textFrom, List.nil_append, List.append_nil]
    rfl
  | cons head tail ih =>
    rw [List.length_cons] at hclock
    obtain ⟨tick, clock, rfl⟩ := List.exists_cons_of_length_pos (Nat.zero_lt_of_lt hclock)
    rw [List.length_cons] at hclock
    rw [List.append_assoc, textFrom_charSpelling head, ih clock (by omega)]
    simp only [List.reverse_cons, List.append_assoc, List.cons_append, List.nil_append,
      Position.afterAll_append]

/-- The reader takes a string for its content, whichever way it is spelt. -/
theorem readText_spelling {cs content : List Char} (h : Spelling cs content) (p : Position)
    (rest : List Char) :
    readText ⟨p, cs ++ '"' :: rest⟩ =
      .ok (String.ofList content, ⟨p.afterAll (cs ++ ['"']), rest⟩) := by
  have hclock : content.length < (cs ++ '"' :: rest).length := by
    have := h.length_le
    rw [List.length_append, List.length_cons]
    omega
  simp only [readText, textFrom_spelling h _ hclock, List.reverse_nil, List.nil_append]
  rfl

theorem unitDigits_control : ∀ n < 0x20, UnitDigits (['0', '0'] ++ Text.Hex.lowerByte n) n := by
  have h : ∀ n < 0x20, Text.Hex.number? (['0', '0'] ++ Text.Hex.lowerByte n) = some n := by decide
  exact fun n hn => ⟨rfl, h n hn⟩

/-- The writer spells a character in one of the ways that a string allows. -/
theorem charSpelling_writeChar (c : Char) : CharSpelling (writeChar c) c := by
  unfold writeChar
  split
  case h_8 hquote hslash _ _ _ _ _ =>
    split
    · next hc =>
      have hlt : c.toNat < 0x20 := of_decide_eq_true hc
      exact .unit (unitDigits_control _ hlt)
    · next hc => exact .raw hquote hslash (Bool.eq_false_iff.mpr hc)
  all_goals exact .short rfl

theorem spelling_writeChars (cs : List Char) : Spelling (cs.flatMap writeChar) cs := by
  induction cs with
  | nil => exact .nil
  | cons c cs ih => exact .cons (charSpelling_writeChar c) ih

theorem writeText_eq (s : String) (rest : List Char) :
    writeText s ++ rest = '"' :: (s.toList.flatMap writeChar ++ '"' :: rest) := by
  simp only [writeText, List.cons_append, List.append_assoc, List.nil_append]

/-- A written string is read back from behind its opening quote. -/
theorem readText_writeText (s : String) (p : Position) (rest : List Char) :
    readText (⟨p, writeText s ++ rest⟩ : Cursor).step =
      .ok (s, ⟨p.afterAll (writeText s), rest⟩) := by
  rw [writeText_eq, Cursor.step_cons, readText_spelling (spelling_writeChars _),
    String.ofList_toList]
  rfl

end LegBoard.Json
