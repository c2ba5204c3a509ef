import LegBoard.Proofs.Toml.Numbers

/-!
# Reading values without quotes or brackets

What the grammar spells as a boolean, a number, a date or a time is taken for one of that kind and
of no other, and taken off the text as a whole if a value may end there.
-/
namespace LegBoard.Toml

open LegBoard.Text (dropWhile_append_stop takeWhile_append_stop)

/-! ## Dates and times -/

theorem twoDigits?_append {n : Nat} {s : List Char} (h : TwoDigits n s) (t : List Char) :
    twoDigits? (s ++ t) = some (n, t) := by
  cases h with
  | mk ha hb => exact if_pos (Bool.and_eq_true_iff.mpr ⟨ha, hb⟩)

theorem twoDigits_of_twoDigits? {n : Nat} {s t : List Char} (h : twoDigits? s = some (n, t)) :
    ∃ d, TwoDigits n d ∧ s = d ++ t := by
  unfold twoDigits? at h
  split at h
  · next a b cs =>
    split at h
    · next hdigits =>
      obtain ⟨ha, hb⟩ := Bool.and_eq_true_iff.mp hdigits
      cases h
      exact ⟨[a, b], .mk ha hb, rfl⟩
    · cases h
  · cases h

theorem date?_append {d : List Char} (h : DateText d) (t : List Char) :
    date? (d ++ t) = some t := by
  cases h with
  | mk hcentury hyear hmonth hday hmonths hdays =>
    simp [date?, twoDigits?_append hcentury, twoDigits?_append hyear, twoDigits?_append hmonth,
      twoDigits?_append hday, hmonths, hdays]

/-- What starts with a date of the calendar, and nothing else, is taken for one. -/
theorem date?_eq_some {s t : List Char} (h : date? s = some t) : ∃ d, DateText d ∧ s = d ++ t := by
  simp only [date?, Option.bind_eq_bind, Option.bind_eq_some_iff, Prod.exists] at h
  obtain ⟨century, s₁, hcentury, year, s₂, hyear, h⟩ := h
  split at h
  · next s₃ =>
    rw [Option.bind_eq_some_iff] at h
    obtain ⟨⟨month, s₄⟩, hmonth, h⟩ := h
    dsimp only at h
    split at h
    · next s₅ =>
      rw [Option.bind_eq_some_iff] at h
      obtain ⟨⟨day, s₆⟩, hday, h⟩ := h
      dsimp only at h
      split at h
      · next hcalendar =>
        obtain ⟨hmonths, hmonths', hdays, hdays'⟩ := hcalendar
        cases h
        obtain ⟨a, ha, rfl⟩ := twoDigits_of_twoDigits? hcentury
        obtain ⟨b, hb, rfl⟩ := twoDigits_of_twoDigits? hyear
        obtain ⟨c, hc, rfl⟩ := twoDigits_of_twoDigits? hmonth
        obtain ⟨d, hd, rfl⟩ := twoDigits_of_twoDigits? hday
        refine ⟨_, .mk ha hb hc hd ⟨hmonths, hmonths'⟩ ⟨hdays, hdays'⟩, ?_⟩
        simp
      · cases h
    · cases h
  · cases h

theorem clock?_append {s : List Char} (h : ClockText s) (t : List Char) :
    clock? (s ++ t) = some t := by
  cases h with
  | mk hhour hminute hhours hminutes =>
    simp [clock?, twoDigits?_append hhour, twoDigits?_append hminute, hhours, hminutes]

/-- Nothing comes next that would make a time of day longer. -/
def EndsTime (t : List Char) : Prop := ∀ c ∈ t.head?, isDigit c = false ∧ c ≠ ':' ∧ c ≠ '.'

theorem secondFraction?_stop {t : List Char} (ht : EndsTime t) : secondFraction? t = some t := by
  unfold secondFraction?
  split
  · exact absurd rfl (ht '.' rfl).2.2
  · rfl

theorem secondFraction?_digits {c : Char} {cs : List Char} (hcs : ∀ d ∈ c :: cs, isDigit d = true)
    {t : List Char} (ht : EndsTime t) : secondFraction? ('.' :: (c :: cs ++ t)) = some t := by
  have hdrop : (c :: cs ++ t).dropWhile isDigit = t :=
    dropWhile_append_stop hcs fun d hd => (ht d hd).1
  have hhead : (c :: cs ++ t).head?.any isDigit = true := hcs c List.mem_cons_self
  rw [secondFraction?, if_pos hhead, hdrop]

theorem time?_append {t s r : List Char} (ht : ClockText t) (hs : SecondsText s)
    (hr : EndsTime r) : time? (t ++ (s ++ r)) = some r := by
  cases hs with
  | absent =>
    simp only [time?, List.nil_append, clock?_append ht, Option.bind_eq_bind, Option.bind_some]
    split
    · exact absurd rfl (hr ':' rfl).2.1
    · rfl
  | whole h hsecond =>
    simp [time?, clock?_append ht, twoDigits?_append h, hsecond, secondFraction?_stop hr]
  | fraction h hsecond hcs =>
    have hfraction := secondFraction?_digits hcs hr
    rw [List.cons_append] at hfraction
    simp [time?, clock?_append ht, twoDigits?_append h, hsecond, hfraction]

theorem isOffset_of_offsetText {s : List Char} (h : OffsetText s) : isOffset s = true := by
  cases h with
  | absent => rfl
  | none hc => rcases hc with rfl | rfl <;> rfl
  | hours hc h =>
    have hclock := clock?_append h []
    rw [List.append_nil] at hclock
    rcases hc with rfl | rfl
    · exact beq_iff_eq.mpr hclock
    · exact beq_iff_eq.mpr hclock

theorem OffsetText.endsTime {s : List Char} (h : OffsetText s) : EndsTime s := by
  cases h with
  | absent => rintro c ⟨⟩
  | none hc =>
    rintro c ⟨⟩
    rcases hc with rfl | rfl <;> decide
  | hours hc =>
    rintro c ⟨⟩
    rcases hc with rfl | rfl <;> decide

/-! ## No date is a number -/

/-- How a date or a time starts: with two digits, and then with more of them up to a mark. -/
def DateStart (s : List Char) : Prop :=
  ∃ a b front mark rest, s = a :: b :: (front ++ mark :: rest) ∧
    (∀ c ∈ a :: b :: front, isDigit c = true) ∧ (mark = '-' ∨ mark = ':')

theorem DateText.dateStart {d : List Char} (h : DateText d) (t : List Char) :
    DateStart (d ++ t) := by
  cases h with
  | mk hcentury hyear hmonth hday =>
    cases hcentury with
    | mk ha hb =>
    cases hyear with
    | @mk a' b' ha' hb' =>
      refine ⟨_, _, [a', b'], '-', _, rfl, ?_, .inl rfl⟩
      simp [ha, hb, ha', hb']

theorem ClockText.dateStart {s : List Char} (h : ClockText s) (t : List Char) :
    DateStart (s ++ t) := by
  cases h with
  | mk hhour =>
    cases hhour with
    | mk ha hb =>
      refine ⟨_, _, [], ':', _, rfl, ?_, .inr rfl⟩
      simp [ha, hb]

theorem DateTimeText.dateStart {s : List Char} (h : DateTimeText s) : DateStart s := by
  cases h with
  | date hd =>
    have hstart := hd.dateStart []
    rwa [List.append_nil] at hstart
  | time ht => exact ht.dateStart _
  | both hd => exact hd.dateStart _

theorem unsigned_of_isDigit {c : Char} (hc : isDigit c = true) (s : List Char) :
    unsigned (c :: s) = c :: s :=
  unsigned_append (.inl rfl) (.one hc) s

theorem isDigit_mark {mark : Char} (h : mark = '-' ∨ mark = ':') :
    ¬(isDigit mark = true ∨ mark = '_') := by
  rcases h with rfl | rfl <;> decide

theorem isInteger_of_dateStart {s : List Char} (h : DateStart s) : isInteger s = false := by
  obtain ⟨a, b, front, mark, rest, rfl, hdigits, hmark⟩ := h
  have ha : isDigit a = true := hdigits a (by simp)
  have hb : isDigit b = true := hdigits b (by simp)
  have hdecimal : isDecimal (a :: b :: (front ++ mark :: rest)) = false := by
    rw [Bool.eq_false_iff]
    intro h
    exact isDigit_mark hmark (mem_of_isDecimal h mark (by simp))
  have hbase : ∀ x ∈ ['x', 'o', 'b'], ∀ ds, a :: b :: (front ++ mark :: rest) ≠ '0' :: x :: ds := by
    rintro x hx ds ⟨⟩
    simp only [List.mem_cons, List.not_mem_nil, or_false] at hx
    rcases hx with rfl | rfl | rfl <;> cases hb
  rw [isInteger_of_not_based hbase, unsigned_of_isDigit ha, hdecimal]

theorem isFloat_of_dateStart {s : List Char} (h : DateStart s) : isFloat s = false := by
  obtain ⟨a, b, front, mark, rest, rfl, hdigits, hmark⟩ := h
  have ha : isDigit a = true := hdigits a (by simp)
  have hwhole : isDecimal ((a :: b :: (front ++ mark :: rest)).takeWhile
      fun c => !(c == '.' || isExponentMark c)) = false := by
    rw [Bool.eq_false_iff]
    intro h
    have hsplit : a :: b :: (front ++ mark :: rest) = (a :: b :: front ++ [mark]) ++ rest := by simp
    have hfront : ∀ c ∈ a :: b :: front ++ [mark], (!(c == '.' || isExponentMark c)) = true := by
      intro c hc
      rcases List.mem_append.mp hc with hc | hc
      · obtain ⟨hpoint, hexponent⟩ := not_mark_of_digit (.inl (hdigits c hc))
        simp [hpoint, hexponent]
      · rw [List.mem_singleton.mp hc]
        rcases hmark with rfl | rfl <;> decide
    rw [hsplit, List.takeWhile_append_of_pos hfront] at h
    exact isDigit_mark hmark (mem_of_isDecimal h mark (by simp))
  unfold isFloat floatParts
  simp only [unsigned_of_isDigit ha, hwhole, Bool.false_and]

theorem isSpecial_of_dateStart {s : List Char} (h : DateStart s) : isSpecial s = false := by
  obtain ⟨a, b, front, mark, rest, rfl, hdigits, -⟩ := h
  exact isSpecial_of_digits (.inl rfl) (.one (hdigits a List.mem_cons_self)) _

theorem date?_of_clockText {s : List Char} (h : ClockText s) (t : List Char) :
    date? (s ++ t) = none := by
  cases h with
  | @mk hour minute a b hhour hminute =>
    have hyear : twoDigits? (':' :: (b ++ t)) = none := by
      cases hminute
      rfl
    simp [date?, twoDigits?_append hhour, hyear]

theorem isDateTime_of_dateTimeText {s : List Char} (h : DateTimeText s) : isDateTime s = true := by
  cases h with
  | date hd =>
    have hdate := date?_append hd []
    rw [List.append_nil] at hdate
    rw [isDateTime, hdate]
  | @time t s ht hs =>
    have htime := time?_append ht hs (r := []) (by rintro c ⟨⟩)
    rw [List.append_nil] at htime
    rw [isDateTime, date?_of_clockText ht, htime]
    rfl
  | @both d t s o mark hd hmark ht hs ho =>
    have hmark' : (mark == 'T' || mark == 't' || mark == ' ') = true := by
      rcases hmark with rfl | rfl | rfl <;> rfl
    rw [isDateTime, date?_append hd]
    simp only [hmark', time?_append ht hs ho.endsTime, Bool.true_and, Option.any_some,
      isOffset_of_offsetText ho]

/-! ## The kind of a spelling -/

/-- What is of a kind that the booleans are not of is no boolean. -/
theorem not_boolean {p : List Char → Bool} {s : List Char} (h : p s = true)
    (hyes : p ['t', 'r', 'u', 'e'] = false) (hno : p ['f', 'a', 'l', 's', 'e'] = false) :
    (s == ['t', 'r', 'u', 'e'] || s == ['f', 'a', 'l', 's', 'e']) = false := by
  rw [Bool.or_eq_false_iff]
  constructor
  · refine beq_false_of_ne ?_
    rintro rfl
    rw [hyes] at h
    cases h
  · refine beq_false_of_ne ?_
    rintro rfl
    rw [hno] at h
    cases h

theorem ofSpelling?_of_dateTimeText {s : List Char} (h : DateTimeText s) :
    Value.ofSpelling? s = some .dateTime := by
  have hdateTime := isDateTime_of_dateTimeText h
  have hboolean := not_boolean hdateTime (by decide) (by decide)
  simp [Value.ofSpelling?, hboolean, isInteger_of_dateStart h.dateStart,
    isSpecial_of_dateStart h.dateStart, isFloat_of_dateStart h.dateStart, hdateTime]

theorem ofSpelling?_of_integerText {bound : Nat} {s : List Char} (h : IntegerText bound s) :
    Value.ofSpelling? s =
      some (if integerFits integerBound s = true then .integer else .oversized) := by
  have hinteger := (isInteger_of_integerText h).1
  have hboolean := not_boolean hinteger (by decide) (by decide)
  simp [Value.ofSpelling?, hboolean, hinteger]

theorem ofSpelling?_of_special {s : List Char} (h : isSpecial s = true) :
    Value.ofSpelling? s = some .float := by
  have hboolean := not_boolean h (by decide) (by decide)
  simp [Value.ofSpelling?, hboolean, isInteger_of_special h, h]

theorem ofSpelling?_of_realText {sign s : List Char} {digits : Nat} {power : Int}
    (hsign : Sign sign) (h : RealText digits power s) :
    Value.ofSpelling? (sign ++ s) =
      some (if isInRange digits power = true then .float else .oversized) := by
  obtain ⟨hfloat, hfits⟩ := isFloat_of_realText hsign h
  have hboolean := not_boolean hfloat (by decide) (by decide)
  simp [Value.ofSpelling?, hboolean, isInteger_of_realText hsign h, isSpecial_of_realText hsign h,
    hfloat, hfits]

section

variable {oversized : Bool} {v : Value} {s : List Char}

theorem ofSpelling?_of_scalarText (h : ScalarText (reading oversized) v s) :
    Value.ofSpelling? s = some v := by
  cases h with
  | yes => rfl
  | no => rfl
  | integer h =>
    have hfits : integerFits integerBound s = true := (isInteger_of_integerText h).2
    rw [ofSpelling?_of_integerText h, if_pos hfits]
  | largeInteger _ h hlarge =>
    have hbeyond : ¬integerFits integerBound s = true :=
      fun hfits => hlarge (integerText_of_isInteger (isInteger_of_integerText h).1 hfits)
    rw [ofSpelling?_of_integerText h, if_neg hbeyond]
  | float h =>
    cases h with
    | infinite hsign => exact ofSpelling?_of_special (special_iff.mpr ⟨_, hsign, .inl rfl⟩)
    | undefined hsign => exact ofSpelling?_of_special (special_iff.mpr ⟨_, hsign, .inr rfl⟩)
    | number hsign h hrange =>
      rw [ofSpelling?_of_realText hsign h, if_pos (isInRange_iff.mpr hrange)]
  | largeFloat _ hsign h hlarge =>
    rw [ofSpelling?_of_realText hsign h, if_neg (mt isInRange_iff.mp hlarge)]
  | dateTime h => exact ofSpelling?_of_dateTimeText h

end

/-! ## The characters of a spelling -/

def Spelled (s : List Char) : Prop := ∀ c ∈ s, isSpellingChar c = true

theorem Spelled.nil : Spelled [] := List.forall_mem_nil _

theorem Spelled.cons {c : Char} (hc : isSpellingChar c = true) {s : List Char} (hs : Spelled s) :
    Spelled (c :: s) :=
  List.forall_mem_cons.mpr ⟨hc, hs⟩

theorem Spelled.append {s t : List Char} (hs : Spelled s) (ht : Spelled t) : Spelled (s ++ t) :=
  List.forall_mem_append.mpr ⟨hs, ht⟩

theorem isSpellingChar_of_isDigit {c : Char} (h : isDigit c = true) : isSpellingChar c = true := by
  simp [isSpellingChar, h]

theorem Run.spelled {digit : Char → Bool} (hdigit : ∀ c, digit c = true → isSpellingChar c = true)
    {s : List Char} (h : Run digit s) : Spelled s := by
  intro c hc
  rcases h.mem c hc with hc | rfl
  · exact hdigit c hc
  · rfl

theorem Run.spelled_digits {s : List Char} (h : Run isDigit s) : Spelled s :=
  h.spelled fun _ => isSpellingChar_of_isDigit

theorem isSpellingChar_of_isHex {c : Char} (h : isHex c = true) : isSpellingChar c = true := by
  unfold isHex Text.Hex.value? at h
  split at h
  · next hdigit => simp [isSpellingChar, isDigit, hdigit]
  split at h
  · next hlower =>
    have hle : c ≤ 'z' := Char.le_trans hlower.2 (by decide)
    simp [isSpellingChar, hlower.1, hle]
  split at h
  · next hupper =>
    have hle : c ≤ 'Z' := Char.le_trans hupper.2 (by decide)
    simp [isSpellingChar, hupper.1, hle]
  · cases h

theorem isSpellingChar_of_isOctal {c : Char} (h : isOctal c = true) : isSpellingChar c = true := by
  simp only [isOctal, Bool.and_eq_true, decide_eq_true_eq] at h
  have hle : c ≤ '9' := Char.le_trans h.2 (by decide)
  simp [isSpellingChar, isDigit, h.1, hle]

theorem isSpellingChar_of_isBinary {c : Char} (h : isBinary c = true) :
    isSpellingChar c = true := by
  simp only [isBinary, Bool.or_eq_true, beq_iff_eq] at h
  rcases h with rfl | rfl <;> rfl

theorem Sign.spelled {s : List Char} (h : Sign s) : Spelled s := by
  rcases h with rfl | rfl | rfl <;> exact List.all_eq_true.mp rfl

theorem IntegerText.spelled {bound : Nat} {s : List Char} (h : IntegerText bound s) :
    Spelled s := by
  cases h with
  | decimal hsign h =>
    have hsign' : Sign _ := hsign.imp_right .inl
    exact hsign'.spelled.append h.digits.spelled_digits
  | negative h =>
    exact .cons rfl h.digits.spelled_digits
  | hexadecimal h =>
    exact .cons rfl (.cons rfl (h.spelled fun _ => isSpellingChar_of_isHex))
  | octal h =>
    exact .cons rfl (.cons rfl (h.spelled fun _ => isSpellingChar_of_isOctal))
  | binary h =>
    exact .cons rfl (.cons rfl (h.spelled fun _ => isSpellingChar_of_isBinary))

theorem FractionText.spelled {digits s : List Char} (h : FractionText digits s) : Spelled s := by
  cases h with
  | absent => exact .nil
  | present h => exact .cons rfl h.spelled_digits

theorem isSpellingChar_of_isExponentMark {c : Char} (h : isExponentMark c = true) :
    isSpellingChar c = true := by
  rcases isExponentMark_iff.mp h with rfl | rfl <;> rfl

theorem ExponentText.spelled {power : Int} {s : List Char} (h : ExponentText power s) :
    Spelled s := by
  cases h with
  | absent => exact .nil
  | up hmark hsign h =>
    have hsign' : Sign _ := hsign.imp_right .inl
    have hs := hsign'.spelled.append h.spelled_digits
    exact .cons (isSpellingChar_of_isExponentMark hmark) hs
  | down hmark h =>
    exact .cons (isSpellingChar_of_isExponentMark hmark) (.cons rfl h.spelled_digits)

theorem RealText.spelled {digits : Nat} {power : Int} {s : List Char}
    (h : RealText digits power s) : Spelled s := by
  cases h with
  | mk hwhole hfraction hexponent =>
    exact hwhole.digits.spelled_digits.append (hfraction.spelled.append hexponent.spelled)

theorem FloatText.spelled {s : List Char} (h : FloatText s) : Spelled s := by
  cases h with
  | infinite hsign => exact hsign.spelled.append (List.all_eq_true.mp rfl)
  | undefined hsign => exact hsign.spelled.append (List.all_eq_true.mp rfl)
  | number hsign h => exact hsign.spelled.append h.spelled

theorem TwoDigits.spelled {n : Nat} {s : List Char} (h : TwoDigits n s) : Spelled s := by
  cases h with
  | mk ha hb =>
    exact .cons (isSpellingChar_of_isDigit ha) (.cons (isSpellingChar_of_isDigit hb) .nil)

theorem DateText.spelled {s : List Char} (h : DateText s) : Spelled s := by
  cases h with
  | mk hcentury hyear hmonth hday =>
    have hmonths := hmonth.spelled.append (hday.spelled.cons (c := '-') rfl)
    exact hcentury.spelled.append (hyear.spelled.append (.cons rfl hmonths))

theorem ClockText.spelled {s : List Char} (h : ClockText s) : Spelled s := by
  cases h with
  | mk hhour hminute =>
    exact hhour.spelled.append (.cons rfl hminute.spelled)

theorem SecondsText.spelled {s : List Char} (h : SecondsText s) : Spelled s := by
  cases h with
  | absent => exact .nil
  | whole h => exact .cons rfl h.spelled
  | fraction h hsecond hcs =>
    have hdigits : Spelled _ := fun c hc => isSpellingChar_of_isDigit (hcs c hc)
    exact .cons rfl (h.spelled.append (.cons rfl hdigits))

theorem OffsetText.spelled {s : List Char} (h : OffsetText s) : Spelled s := by
  cases h with
  | absent => exact .nil
  | none hc =>
    refine .cons ?_ .nil
    rcases hc with rfl | rfl <;> rfl
  | hours hc h =>
    refine .cons ?_ h.spelled
    rcases hc with rfl | rfl <;> rfl

/-! ## Where a value ends -/

/-- A value may end here: only blanks come before the end of the text or of the line, a comment, a
comma or a closing bracket. -/
def EndsValue (t : List Char) : Prop :=
  ∃ b r, Spaces b ∧ t = b ++ r ∧ ∀ c ∈ r.head?, c ∈ ['#', '\n', '\r', ',', ']', '}']

theorem EndsValue.head {t : List Char} (h : EndsValue t) :
    ∀ c ∈ t.head?, c ∈ [' ', '\t', '#', '\n', '\r', ',', ']', '}'] := by
  obtain ⟨b, r, hb, rfl, hr⟩ := h
  rintro c hc
  cases b with
  | nil =>
    have hmem := hr c hc
    simp only [List.mem_cons] at hmem ⊢
    tauto
  | cons d b =>
    cases hc
    have hspace : isSpace c = true := hb c List.mem_cons_self
    simp only [isSpace, Bool.or_eq_true, beq_iff_eq] at hspace
    rcases hspace with rfl | rfl <;> decide

theorem EndsValue.stops {t : List Char} (h : EndsValue t) :
    ∀ c ∈ t.head?, isSpellingChar c = false := by
  intro c hc
  have hall : ∀ d ∈ [' ', '\t', '#', '\n', '\r', ',', ']', '}'], (!isSpellingChar d) = true :=
    List.all_eq_true.mp rfl
  exact (Bool.not_eq_true' _).mp (hall c (h.head c hc))

/-- No time of day comes behind a blank. -/
theorem EndsValue.not_digit {c : Char} {t : List Char} (h : EndsValue (' ' :: c :: t)) :
    isDigit c = false := by
  obtain ⟨b, r, hb, heq, hr⟩ := h
  have htail : EndsValue (c :: t) := by
    cases b with
    | nil =>
      rw [List.nil_append] at heq
      subst heq
      exact absurd (hr ' ' rfl) (by decide)
    | cons d b =>
      obtain ⟨-, heq⟩ := List.cons.inj heq
      exact ⟨b, r, (List.forall_mem_cons.mp hb).2, heq, hr⟩
  have hall : ∀ d ∈ [' ', '\t', '#', '\n', '\r', ',', ']', '}'], (!isDigit d) = true :=
    List.all_eq_true.mp rfl
  exact (Bool.not_eq_true' _).mp (hall c (htail.head c rfl))

/-- A spelling without a blank in it is taken off the text. -/
theorem scalar?_spelled {v : Value} {s t : List Char} (hs : Spelled s)
    (hv : Value.ofSpelling? s = some v) (ht : EndsValue t) : scalar? (s ++ t) = some (v, t) := by
  unfold scalar?
  simp only [takeWhile_append_stop hs ht.stops, dropWhile_append_stop hs ht.stops]
  split
  · next c more hdate =>
    obtain ⟨d, hd, hsplit⟩ := date?_eq_some hdate
    rw [List.append_nil] at hsplit
    subst hsplit
    rw [ofSpelling?_of_dateTimeText (.date hd)] at hv
    rw [ht.not_digit, if_neg Bool.false_ne_true, Option.some.inj hv]
  · rw [hv]
    rfl

/-- A date and a time with a blank between them are taken off the text together. -/
theorem scalar?_spaced {d t s o r : List Char} (hd : DateText d) (ht : ClockText t)
    (hs : SecondsText s) (ho : OffsetText o) (hr : EndsValue r) :
    scalar? (d ++ ' ' :: (t ++ (s ++ o)) ++ r) = some (.dateTime, r) := by
  have htime : Spelled (t ++ (s ++ o)) := ht.spelled.append (hs.spelled.append ho.spelled)
  have hv : Value.ofSpelling? (d ++ ' ' :: (t ++ (s ++ o))) = some .dateTime :=
    ofSpelling?_of_dateTimeText (.both hd (.inr (.inr rfl)) ht hs ho)
  have hstop : ∀ c ∈ (' ' :: (t ++ (s ++ o) ++ r)).head?, isSpellingChar c = false := by
    rintro c ⟨⟩
    rfl
  have hdate := date?_append hd []
  rw [List.append_nil] at hdate
  obtain ⟨a, b, front, mark, rest, hstart, hdigits, -⟩ := ht.dateStart (s ++ o)
  have ha : isDigit a = true := hdigits a List.mem_cons_self
  rw [List.append_assoc, List.cons_append]
  unfold scalar?
  simp only [takeWhile_append_stop hd.spelled hstop, dropWhile_append_stop hd.spelled hstop, hdate]
  rw [hstart] at htime hv ⊢
  simp only [List.cons_append, ha, if_true]
  rw [← List.cons_append, ← List.cons_append, takeWhile_append_stop htime hr.stops,
    dropWhile_append_stop htime hr.stops, hv]
  rfl

/-- A value without quotes or brackets is taken off the text as a whole. -/
theorem scalar?_append {oversized : Bool} {v : Value} {s t : List Char}
    (h : ScalarText (reading oversized) v s) (ht : EndsValue t) :
    scalar? (s ++ t) = some (v, t) := by
  have hv := ofSpelling?_of_scalarText h
  cases h with
  | yes => exact scalar?_spelled (List.all_eq_true.mp rfl) hv ht
  | no => exact scalar?_spelled (List.all_eq_true.mp rfl) hv ht
  | integer h => exact scalar?_spelled h.spelled hv ht
  | largeInteger _ h => exact scalar?_spelled h.spelled hv ht
  | float h => exact scalar?_spelled h.spelled hv ht
  | largeFloat _ hsign h => exact scalar?_spelled (hsign.spelled.append h.spelled) hv ht
  | dateTime h =>
    cases h with
    | date hd => exact scalar?_spelled hd.spelled hv ht
    | time ht' hs => exact scalar?_spelled (ht'.spelled.append hs.spelled) hv ht
    | both hd hmark ht' hs ho =>
      have htime := ht'.spelled.append (hs.spelled.append ho.spelled)
      rcases hmark with rfl | rfl | rfl
      · exact scalar?_spelled (hd.spelled.append (.cons rfl htime)) hv ht
      · exact scalar?_spelled (hd.spelled.append (.cons rfl htime)) hv ht
      · exact scalar?_spaced hd ht' hs ho ht

end LegBoard.Toml
