import LegBoard.Proofs.Json.Tokens

/-!
# Scanning numbers

The scanner takes a number off whatever cannot belong to it, and what it takes
is a number. It goes on as far as it can, so the first direction asks that no
digit, point or exponent follows.
-/
namespace LegBoard.Json

theorem nextIs_of_stops {p : Char → Bool} {t : List Char} (h : Stops p t) (q : Position) :
    Cursor.nextIs p ⟨q, t⟩ = false := by
  cases t with
  | nil => rfl
  | cons c cs => exact h c cs rfl

theorem Stops.mono {p p' : Char → Bool} {t : List Char} (h : Stops p t)
    (hle : ∀ c, p' c = true → p c = true) : Stops p' t := by
  intro c cs heq
  cases hc : p' c with
  | false => rfl
  | true => exact absurd (hle c hc) (by rw [h c cs heq]; exact Bool.false_ne_true)

/-! ## The parts of a number do not run into each other -/

theorem stops_append {p : Char → Bool} {cs t : List Char} (h : Stops p cs) (ht : Stops p t) :
    Stops p (cs ++ t) := by
  cases cs with
  | nil => exact ht
  | cons c cs => exact stops_cons (h c cs rfl) (cs ++ t)

theorem Exponent.stops {cs : List Char} (h : Exponent cs) :
    Stops isDigit cs ∧ Stops (· == '.') cs := by
  cases h with
  | absent => exact ⟨stops_nil _, stops_nil _⟩
  | present hletter =>
    rcases hletter with rfl | rfl
    · exact ⟨stops_cons (by decide) _, stops_cons (by decide) _⟩
    · exact ⟨stops_cons (by decide) _, stops_cons (by decide) _⟩

theorem Fraction.stops {cs : List Char} (h : Fraction cs) : Stops isDigit cs := by
  cases h with
  | absent => exact stops_nil _
  | present => exact stops_cons (by decide) _

theorem Whole.nextIs_minus {cs : List Char} (h : Whole cs) (p : Position) (t : List Char) :
    Cursor.nextIs (· == '-') ⟨p, cs ++ t⟩ = false := by
  cases h with
  | zero => rfl
  | @digits c cs _ hdigit =>
    refine beq_eq_false_iff_ne.mpr ?_
    rintro rfl
    exact absurd hdigit (by decide)

namespace Numeral

/-- What the digits before a point may go on with. -/
def continuesFraction (c : Char) : Bool := isDigit c || c == 'e' || c == 'E'

/-- What a number may go on with. -/
def continues (c : Char) : Bool := continuesFraction c || c == '.'

theorem stops_isDigit {t : List Char} (h : Stops continues t) : Stops isDigit t :=
  h.mono fun c hc => by simp only [continues, continuesFraction, hc, Bool.true_or]

/-! ## What is a number is scanned -/

theorem digits_append {cs t : List Char} (h : AllDigits cs) (ht : Stops isDigit t)
    (p : Position) : ∃ q, digits ⟨p, cs ++ t⟩ = (cs, ⟨q, t⟩) := by
  obtain ⟨q, hq⟩ := dropWhile_append h ht p
  have htake : t.takeWhile isDigit = [] := by
    cases t with
    | nil => rfl
    | cons c ds => rw [List.takeWhile_cons, ht c ds rfl]; rfl
  refine ⟨q, ?_⟩
  rw [digits, hq, List.takeWhile_append_of_pos h, htake, List.append_nil]

theorem scanWhole_append (atEnd : Problem) {cs t : List Char} (h : Whole cs)
    (ht : Stops isDigit t) (p : Position) :
    ∃ q, scanWhole atEnd ⟨p, cs ++ t⟩ = .ok (cs, ⟨q, t⟩) := by
  cases h with
  | zero =>
    refine ⟨p.after '0', ?_⟩
    simp only [scanWhole, List.singleton_append, Cursor.step_cons, nextIs_of_stops ht,
      Bool.false_eq_true, ↓reduceIte]
  | @digits c cs hzero hdigit hdigits =>
    have hall : AllDigits (c :: cs) := List.forall_mem_cons.mpr ⟨hdigit, hdigits⟩
    obtain ⟨q, hq⟩ := digits_append hall ht p
    refine ⟨q, ?_⟩
    unfold scanWhole
    split
    · next heq => cases heq
    · next heq => cases heq; exact absurd rfl hzero
    · next heq =>
      cases heq
      rw [if_pos hdigit, hq]

theorem scanFraction_append (atEnd : Problem) {cs t : List Char} (h : Fraction cs)
    (hdigit : Stops isDigit t) (hpoint : Stops (· == '.') t) (p : Position) :
    ∃ fraction q, scanFraction atEnd ⟨p, cs ++ t⟩ = .ok (fraction, ⟨q, t⟩) := by
  cases h with
  | absent =>
    refine ⟨none, p, ?_⟩
    rw [scanFraction, List.nil_append, nextIs_of_stops hpoint, if_neg Bool.false_ne_true]
  | @present cs hne hdigits =>
    obtain ⟨c, cs, rfl⟩ := List.exists_cons_of_ne_nil hne
    obtain ⟨q, hq⟩ := digits_append hdigits hdigit (p.after '.')
    refine ⟨some (c :: cs), q, ?_⟩
    have hc : isDigit c = true := hdigits c List.mem_cons_self
    have hstep : scanFraction atEnd ⟨p, '.' :: (c :: cs ++ t)⟩ =
        if isDigit c then .ok ((digits ⟨p.after '.', c :: cs ++ t⟩).map some id)
        else .error ((⟨p.after '.', c :: cs ++ t⟩ : Cursor).ahead .invalidNumber) := rfl
    rw [List.cons_append, hstep, if_pos hc, hq]
    rfl

theorem scanExponent_append (atEnd : Problem) {cs t : List Char} (h : Exponent cs)
    (ht : Stops continuesFraction t) (p : Position) :
    ∃ exponent q, scanExponent atEnd ⟨p, cs ++ t⟩ = .ok (exponent, ⟨q, t⟩) := by
  have hdigit : Stops isDigit t :=
    ht.mono fun c hc => by simp only [continuesFraction, hc, Bool.true_or]
  cases h with
  | absent =>
    have hletter : Stops (fun c => c == 'e' || c == 'E') t := ht.mono fun c hc => by
      rw [continuesFraction, Bool.or_assoc, hc, Bool.or_true]
    refine ⟨none, p, ?_⟩
    rw [scanExponent, List.nil_append, nextIs_of_stops hletter, if_neg Bool.false_ne_true]
  | @present letter sign cs hletter hsign hne hdigits =>
    obtain ⟨c, cs, rfl⟩ := List.exists_cons_of_ne_nil hne
    have hc : isDigit c = true := hdigits c List.mem_cons_self
    have hunsigned : (c == '+' || c == '-') = false := by
      rw [Bool.or_eq_false_iff, beq_eq_false_iff_ne, beq_eq_false_iff_ne]
      constructor
      · rintro rfl; exact absurd hc (by decide)
      · rintro rfl; exact absurd hc (by decide)
    have hletter : (letter == 'e' || letter == 'E') = true := by
      rcases hletter with rfl | rfl <;> rfl
    have hread : ∀ q : Position, ∃ q', digits ⟨q, c :: (cs ++ t)⟩ = (c :: cs, ⟨q', t⟩) :=
      digits_append hdigits hdigit
    rcases hsign with rfl | rfl | rfl
    · obtain ⟨q, hq⟩ := hread (p.after letter)
      refine ⟨some (c == '-', c :: cs), q, ?_⟩
      simp only [scanExponent, Cursor.nextIs, Cursor.step_cons, List.cons_append, List.nil_append,
        hletter, hunsigned, hc, Bool.false_eq_true, ↓reduceIte, hq]
      rfl
    · obtain ⟨q, hq⟩ := hread ((p.after letter).after '+')
      refine ⟨some (false, c :: cs), q, ?_⟩
      simp only [scanExponent, Cursor.nextIs, Cursor.step_cons, List.cons_append, List.nil_append,
        hletter, beq_self_eq_true, Bool.true_or, hc, ↓reduceIte, hq]
      rfl
    · obtain ⟨q, hq⟩ := hread ((p.after letter).after '-')
      refine ⟨some (true, c :: cs), q, ?_⟩
      simp only [scanExponent, Cursor.nextIs, Cursor.step_cons, List.cons_append, List.nil_append,
        hletter, beq_self_eq_true, Bool.or_true, hc, ↓reduceIte, hq]
      rfl

/-- A number is scanned to its end in front of a text that it cannot go on with. -/
theorem scan_append (atEnd : Problem) {cs t : List Char} (h : Numeric cs)
    (ht : Stops continues t) (p : Position) :
    ∃ n q, scan atEnd ⟨p, cs ++ t⟩ = .ok (n, ⟨q, t⟩) := by
  obtain @⟨sign, whole, fraction, exponent, hsign, hwhole, hfraction, hexponent⟩ := h
  have hexp : Stops continuesFraction t :=
    ht.mono fun c hc => by rw [continues, hc, Bool.true_or]
  have hpoint : Stops (· == '.') t :=
    ht.mono fun c hc => by rw [continues, hc, Bool.or_true]
  have hdigit := stops_isDigit ht
  have htail : ∀ (negative : Bool) (q : Position), ∃ n q',
      ((scanWhole atEnd ⟨q, whole ++ (fraction ++ (exponent ++ t))⟩).bind fun w =>
        (scanFraction atEnd w.2).bind fun f =>
          (scanExponent atEnd f.2).bind fun e =>
            .ok ((⟨negative, w.1, f.1, e.1⟩ : Numeral), e.2)) = .ok (n, ⟨q', t⟩) := by
    intro negative q
    obtain ⟨q₁, h₁⟩ := scanWhole_append atEnd hwhole
      (stops_append hfraction.stops (stops_append hexponent.stops.1 hdigit)) q
    obtain ⟨f, q₂, h₂⟩ := scanFraction_append atEnd hfraction
      (stops_append hexponent.stops.1 hdigit) (stops_append hexponent.stops.2 hpoint) q₁
    obtain ⟨e, q₃, h₃⟩ := scanExponent_append atEnd hexponent hexp q₂
    refine ⟨⟨negative, whole, f, e⟩, q₃, ?_⟩
    simp only [Except.bind, h₁, h₂, h₃]
  rcases hsign with rfl | rfl
  · obtain ⟨n, q, hq⟩ := htail false p
    refine ⟨n, q, ?_⟩
    simp only [List.nil_append, List.append_assoc, scan, hwhole.nextIs_minus, Bool.false_eq_true,
      ↓reduceIte]
    exact hq
  · obtain ⟨n, q, hq⟩ := htail true (p.after '-')
    refine ⟨n, q, ?_⟩
    simp only [List.cons_append, List.nil_append, List.append_assoc]
    exact hq

/-! ## What is scanned is a number -/

/-- At a digit there are digits to take. -/
theorem digits_cons {c : Char} (hc : isDigit c = true) (p : Position) (cs : List Char) :
    ∃ ds s', digits ⟨p, c :: cs⟩ = (c :: ds, s') ∧ AllDigits (c :: ds) ∧
      c :: cs = c :: ds ++ s'.rest := by
  have htake : (c :: cs).takeWhile isDigit = c :: cs.takeWhile isDigit := by
    rw [List.takeWhile_cons, if_pos hc]
  refine ⟨cs.takeWhile isDigit, Cursor.dropWhile isDigit ⟨p, c :: cs⟩, ?_, ?_, ?_⟩
  · rw [digits, htake]
  · rw [← htake]
    exact List.all_eq_true.mp List.all_takeWhile
  · rw [rest_dropWhile, ← htake, List.takeWhile_append_dropWhile]

theorem whole_of_scanWhole {atEnd : Problem} {s s' : Cursor} {whole : List Char}
    (h : scanWhole atEnd s = .ok (whole, s')) : Whole whole ∧ s.rest = whole ++ s'.rest := by
  obtain ⟨p, rest⟩ := s
  unfold scanWhole at h
  split at h
  · cases h
  · next rest heq =>
    dsimp only at heq
    subst heq
    split at h
    · cases h
    · cases h
      exact ⟨.zero, rfl⟩
  · next c rest hzero heq =>
    dsimp only at heq
    subst heq
    split at h
    · next hc =>
      obtain ⟨ds, s₁, heq, hdigits, hsplit⟩ := digits_cons hc p rest
      rw [heq] at h
      cases h
      exact ⟨.digits hzero hc fun d hd => hdigits d (List.mem_cons_of_mem c hd), hsplit⟩
    · cases h

theorem fraction_of_scanFraction {atEnd : Problem} {s s' : Cursor}
    {fraction : Option (List Char)} (h : scanFraction atEnd s = .ok (fraction, s')) :
    ∃ cs, Fraction cs ∧ s.rest = cs ++ s'.rest := by
  obtain ⟨p, rest⟩ := s
  unfold scanFraction at h
  split at h
  · next hpoint =>
    cases rest with
    | nil => cases hpoint
    | cons point rest =>
      obtain rfl : point = '.' := eq_of_beq hpoint
      cases rest with
      | nil => cases h
      | cons c rest =>
        simp only [Cursor.step_cons] at h
        split at h
        · next hc =>
          obtain ⟨ds, s₁, heq, hdigits, hsplit⟩ := digits_cons hc (p.after '.') rest
          rw [heq] at h
          cases h
          exact ⟨'.' :: c :: ds, .present (List.cons_ne_nil c ds) hdigits,
            congrArg (List.cons '.') hsplit⟩
        · cases h
  · cases h
    exact ⟨[], .absent, rfl⟩

/-- The sign of an exponent, if there is one. -/
theorem sign_split (s : Cursor) :
    ∃ sign, (sign = [] ∨ sign = ['+'] ∨ sign = ['-']) ∧
      s.rest = sign ++ (if s.nextIs fun c => c == '+' || c == '-' then s.step else s).rest := by
  obtain ⟨p, rest⟩ := s
  split
  · next hsign =>
    cases rest with
    | nil => cases hsign
    | cons c rest =>
      rcases Bool.or_eq_true_iff.mp hsign with hplus | hminus
      · obtain rfl : c = '+' := eq_of_beq hplus
        exact ⟨['+'], .inr (.inl rfl), rfl⟩
      · obtain rfl : c = '-' := eq_of_beq hminus
        exact ⟨['-'], .inr (.inr rfl), rfl⟩
  · exact ⟨[], .inl rfl, rfl⟩

theorem exponent_of_scanExponent {atEnd : Problem} {s s' : Cursor}
    {exponent : Option (Bool × List Char)} (h : scanExponent atEnd s = .ok (exponent, s')) :
    ∃ cs, Exponent cs ∧ s.rest = cs ++ s'.rest := by
  obtain ⟨p, rest⟩ := s
  unfold scanExponent at h
  split at h
  · next hletter =>
    cases rest with
    | nil => cases hletter
    | cons letter rest =>
      have hletter : letter = 'e' ∨ letter = 'E' :=
        (Bool.or_eq_true_iff.mp hletter).imp eq_of_beq eq_of_beq
      obtain ⟨sign, hsign, hrest⟩ := sign_split ⟨p.after letter, rest⟩
      dsimp only [Cursor.step_cons] at h hrest
      generalize (if Cursor.nextIs (fun c => c == '+' || c == '-') ⟨p.after letter, rest⟩ then
        (⟨p.after letter, rest⟩ : Cursor).step else ⟨p.after letter, rest⟩) = s₁ at h hrest
      obtain ⟨q, tail⟩ := s₁
      cases tail with
      | nil => cases h
      | cons c tail =>
        dsimp only at h hrest
        split at h
        · next hc =>
          obtain ⟨ds, s₂, heq, hdigits, hsplit⟩ := digits_cons hc q tail
          rw [heq] at h
          cases h
          refine ⟨letter :: (sign ++ c :: ds),
            .present hletter hsign (List.cons_ne_nil c ds) hdigits, ?_⟩
          rw [hrest, hsplit]
          simp only [List.cons_append, List.append_assoc, id_eq]
        · cases h
  · cases h
    exact ⟨[], .absent, rfl⟩

theorem numeric_of_scan {atEnd : Problem} {s s' : Cursor} {n : Numeral}
    (h : scan atEnd s = .ok (n, s')) : ∃ cs, Numeric cs ∧ s.rest = cs ++ s'.rest := by
  unfold scan at h
  obtain ⟨⟨whole, s₁⟩, hwhole, h⟩ := ok_of_bind h
  obtain ⟨⟨fraction, s₂⟩, hfraction, h⟩ := ok_of_bind h
  obtain ⟨⟨exponent, s₃⟩, hexponent, h⟩ := ok_of_bind h
  cases h
  obtain ⟨hw, hwrest⟩ := whole_of_scanWhole hwhole
  obtain ⟨fs, hf, hfrest⟩ := fraction_of_scanFraction hfraction
  obtain ⟨es, he, herest⟩ := exponent_of_scanExponent hexponent
  have hsign : ∃ sign, (sign = [] ∨ sign = ['-']) ∧
      s.rest = sign ++ (if s.nextIs (· == '-') then s.step else s).rest := by
    obtain ⟨p, rest⟩ := s
    split
    · next hminus =>
      cases rest with
      | nil => cases hminus
      | cons c rest =>
        obtain rfl : c = '-' := eq_of_beq hminus
        exact ⟨['-'], .inr rfl, rfl⟩
    · exact ⟨[], .inl rfl, rfl⟩
  obtain ⟨sign, hsign, hrest⟩ := hsign
  refine ⟨sign ++ (whole ++ (fs ++ es)), .mk hsign hw hf he, ?_⟩
  rw [hrest, hwrest, hfrest, herest]
  simp only [List.append_assoc]

end Numeral

end LegBoard.Json
