import LegBoard.Proofs.Decimal.Range
import LegBoard.Proofs.Text.Runs
import LegBoard.Proofs.Toml.Grammar

/-!
# Reading numbers

What the grammar spells as an integer is taken for one, what it spells as a float for a float and
not for an integer, and nothing else is taken for either.
-/
namespace LegBoard.Toml

open LegBoard.Text (dropWhile_append_stop takeWhile_append_stop)

/-! ## Digits -/

theorem Run.ne_nil {digit : Char → Bool} {s : List Char} (h : Run digit s) : s ≠ [] := by
  cases h <;> exact List.cons_ne_nil _ _

theorem Run.head {digit : Char → Bool} {s : List Char} (h : Run digit s) :
    ∀ c ∈ s.head?, digit c = true := by
  cases h <;> (rintro c ⟨⟩; assumption)

theorem isRun_of_run {digit : Char → Bool} (hunderscore : digit '_' = false) {s : List Char}
    (h : Run digit s) : isRun digit s = true := by
  induction h with
  | one hc => exact hc
  | @digit c cs hc h ih =>
    have hstep : isRun digit (c :: cs) = (digit c && isRun digit cs) := by
      rw [isRun.eq_def]
      split
      · next heq => cases heq
      · next heq =>
        cases heq
        exact absurd rfl h.ne_nil
      · next heq =>
        cases heq
        have hhead := h.head '_' rfl
        rw [hunderscore] at hhead
        cases hhead
      · next heq =>
        cases heq
        rfl
    rw [hstep, hc, ih]
    rfl
  | @underscore c cs hc h ih =>
    have hstep : isRun digit (c :: '_' :: cs) = (digit c && isRun digit cs) := rfl
    rw [hstep, hc, ih]
    rfl

theorem run_of_isRun {digit : Char → Bool} {s : List Char} (h : isRun digit s = true) :
    Run digit s := by
  fun_induction isRun digit s with
  | case1 => cases h
  | case2 c => exact .one h
  | case3 c cs ih =>
    obtain ⟨hc, hcs⟩ := Bool.and_eq_true_iff.mp h
    exact .underscore hc (ih hcs)
  | case4 c cs _ _ ih =>
    obtain ⟨hc, hcs⟩ := Bool.and_eq_true_iff.mp h
    exact .digit hc (ih hcs)

theorem Run.mem {digit : Char → Bool} {s : List Char} (h : Run digit s) :
    ∀ c ∈ s, digit c = true ∨ c = '_' := by
  induction h with
  | one hc => exact List.forall_mem_singleton.mpr (.inl hc)
  | digit hc _ ih => exact List.forall_mem_cons.mpr ⟨.inl hc, ih⟩
  | underscore hc _ ih =>
    exact List.forall_mem_cons.mpr ⟨.inl hc, List.forall_mem_cons.mpr ⟨.inr rfl, ih⟩⟩

theorem mem_of_isRun {digit : Char → Bool} {s : List Char} (h : isRun digit s = true) :
    ∀ c ∈ s, digit c = true ∨ c = '_' := (run_of_isRun h).mem

/-! ## Decimals -/

theorem DecimalText.digits {s : List Char} (h : DecimalText s) : Run isDigit s := by
  cases h with
  | zero => exact .one rfl
  | run _ h => exact h

theorem isDecimal_of_decimalText {s : List Char} (h : DecimalText s) : isDecimal s = true := by
  rw [isDecimal, isRun_of_run rfl h.digits, Bool.true_and]
  cases h with
  | zero => rfl
  | run hzero =>
    rw [Bool.or_eq_true]
    exact .inr (bne_iff_ne.mpr fun heq => hzero (Option.some.inj heq))

theorem isSigned_of_isDigit {c : Char} (h : isDigit c = true) : c ≠ '+' ∧ c ≠ '-' := by
  constructor <;> (rintro rfl; cases h)

theorem decimalText_of_isDecimal {s : List Char} (h : isDecimal s = true) : DecimalText s := by
  obtain ⟨hrun, hzero⟩ := Bool.and_eq_true_iff.mp h
  rw [Bool.or_eq_true, beq_iff_eq, bne_iff_ne] at hzero
  have hdigits := run_of_isRun hrun
  rcases hzero with rfl | hzero
  · exact .zero
  · obtain ⟨c, cs, rfl⟩ := List.exists_cons_of_ne_nil hdigits.ne_nil
    exact .run (fun heq => hzero (congrArg some heq)) hdigits

/-- A sign is taken off what starts with a digit. -/
theorem unsigned_append {sign s : List Char} (hsign : Sign sign) (hs : Run isDigit s)
    (t : List Char) :
    unsigned (sign ++ (s ++ t)) = s ++ t := by
  rcases hsign with rfl | rfl | rfl
  · obtain ⟨c, s, rfl⟩ := List.exists_cons_of_ne_nil hs.ne_nil
    obtain ⟨hplus, hminus⟩ := isSigned_of_isDigit (hs.head c rfl)
    rw [List.nil_append, unsigned.eq_def]
    split
    · next heq => exact absurd (List.cons.inj heq).1 hplus
    · next heq => exact absurd (List.cons.inj heq).1 hminus
    · rfl
  · rfl
  · rfl

/-- A decimal number is not taken for one in another base. -/
theorem not_based {sign s : List Char} (hsign : Sign sign) (hs : DecimalText s) {t : List Char}
    (ht : ∀ c ∈ t.head?, c ≠ 'x' ∧ c ≠ 'o' ∧ c ≠ 'b') :
    ∀ x ∈ ['x', 'o', 'b'], ∀ ds, sign ++ (s ++ t) ≠ '0' :: x :: ds := by
  rintro x hx ds heq
  rcases hsign with rfl | rfl | rfl
  · cases hs with
    | zero =>
      obtain ⟨-, rfl⟩ := List.cons.inj heq
      obtain ⟨hhex, hoctal, hbinary⟩ := ht x rfl
      simp [hhex, hoctal, hbinary] at hx
    | run hzero => exact hzero (List.cons.inj heq).1
  · cases heq
  · cases heq

/-- What is no number in another base is an integer if it is a decimal behind its sign. -/
theorem isInteger_of_not_based {s : List Char}
    (h : ∀ x ∈ ['x', 'o', 'b'], ∀ ds, s ≠ '0' :: x :: ds) :
    isInteger s = isDecimal (unsigned s) := by
  unfold isInteger
  split
  · exact absurd rfl (h 'x' (by decide) _)
  · exact absurd rfl (h 'o' (by decide) _)
  · exact absurd rfl (h 'b' (by decide) _)
  · rfl

theorem integerFits_of_not_based {s : List Char}
    (h : ∀ x ∈ ['x', 'o', 'b'], ∀ ds, s ≠ '0' :: x :: ds) (hminus : ∀ ds, s ≠ '-' :: ds)
    (bound : Nat) : integerFits bound s = decide (digitsValue 10 (unsigned s) < bound) := by
  unfold integerFits
  split
  · exact absurd rfl (h 'x' (by decide) _)
  · exact absurd rfl (h 'o' (by decide) _)
  · exact absurd rfl (h 'b' (by decide) _)
  · exact absurd rfl (hminus _)
  · rfl

theorem isInteger_of_integerText {bound : Nat} {s : List Char} (h : IntegerText bound s) :
    isInteger s = true ∧ integerFits bound s = true := by
  cases h with
  | @decimal sign cs hsign h hbound =>
    have hsign' : Sign sign := hsign.imp_right .inl
    have hbase := not_based hsign' h (t := []) (by rintro c ⟨⟩)
    have hunsigned := unsigned_append hsign' h.digits []
    rw [List.append_nil] at hbase hunsigned
    have hminus : ∀ ds, sign ++ cs ≠ '-' :: ds := by
      rintro ds heq
      rcases hsign with rfl | rfl
      · have hhead := h.digits.head '-' (by rw [← List.nil_append cs, heq]; rfl)
        cases hhead
      · cases heq
    rw [isInteger_of_not_based hbase, integerFits_of_not_based hbase hminus, hunsigned]
    exact ⟨isDecimal_of_decimalText h, decide_eq_true hbound⟩
  | negative h hbound => exact ⟨isDecimal_of_decimalText h, decide_eq_true hbound⟩
  | hexadecimal h hbound => exact ⟨isRun_of_run (by decide) h, decide_eq_true hbound⟩
  | octal h hbound => exact ⟨isRun_of_run (by decide) h, decide_eq_true hbound⟩
  | binary h hbound => exact ⟨isRun_of_run (by decide) h, decide_eq_true hbound⟩

theorem integerText_of_isInteger {bound : Nat} {s : List Char} (h : isInteger s = true)
    (hfits : integerFits bound s = true) : IntegerText bound s := by
  unfold isInteger at h
  split at h
  · exact .hexadecimal (run_of_isRun h) (of_decide_eq_true hfits)
  · exact .octal (run_of_isRun h) (of_decide_eq_true hfits)
  · exact .binary (run_of_isRun h) (of_decide_eq_true hfits)
  · next hhex hoctal hbinary =>
    have hdecimal := decimalText_of_isDecimal h
    unfold unsigned at hdecimal
    split at hdecimal
    · exact .decimal (.inr rfl) hdecimal (of_decide_eq_true hfits)
    · exact .negative hdecimal (of_decide_eq_true hfits)
    · next hplus hminus =>
      have hbase : ∀ x ∈ ['x', 'o', 'b'], ∀ ds, s ≠ '0' :: x :: ds := by
        intro x hx ds
        simp only [List.mem_cons, List.not_mem_nil, or_false] at hx
        rcases hx with rfl | rfl | rfl
        · exact hhex ds
        · exact hoctal ds
        · exact hbinary ds
      have hunsigned := unsigned_append (.inl rfl) hdecimal.digits []
      rw [List.nil_append, List.append_nil] at hunsigned
      rw [integerFits_of_not_based hbase hminus, hunsigned] at hfits
      exact .decimal (.inl rfl) hdecimal (of_decide_eq_true hfits)

/-- Every integer is within some bound. -/
theorem exists_integerFits (s : List Char) : ∃ bound, integerFits bound s = true := by
  unfold integerFits
  split
  · exact ⟨_, decide_eq_true (Nat.lt_succ_self _)⟩
  · exact ⟨_, decide_eq_true (Nat.lt_succ_self _)⟩
  · exact ⟨_, decide_eq_true (Nat.lt_succ_self _)⟩
  · exact ⟨_, decide_eq_true (Nat.le_refl _)⟩
  · exact ⟨_, decide_eq_true (Nat.lt_succ_self _)⟩

/-- A decimal number holds digits and underscores. -/
theorem mem_of_isDecimal {s : List Char} (h : isDecimal s = true) :
    ∀ c ∈ s, isDigit c = true ∨ c = '_' := mem_of_isRun (Bool.and_eq_true_iff.mp h).1

/-! ## Floats -/

theorem isExponentMark_iff {c : Char} : isExponentMark c = true ↔ c = 'e' ∨ c = 'E' := by
  simp [isExponentMark]

/-- What stands before the point and the exponent is neither. -/
theorem not_mark_of_digit {c : Char} (h : isDigit c = true ∨ c = '_') :
    c ≠ '.' ∧ isExponentMark c = false := by
  rcases h with h | rfl
  · constructor
    · rintro rfl
      cases h
    · rw [Bool.eq_false_iff]
      intro hmark
      rcases isExponentMark_iff.mp hmark with rfl | rfl <;> cases h
  · decide

theorem ExponentText.head {power : Int} {exponent : List Char} (h : ExponentText power exponent) :
    ∀ c ∈ exponent.head?, isExponentMark c = true := by
  cases h with
  | absent => rintro c ⟨⟩
  | up hmark =>
    rintro c ⟨⟩
    exact hmark
  | down hmark =>
    rintro c ⟨⟩
    exact hmark

/-- Behind the digits comes a point or a letter. -/
theorem head_fraction_exponent {digits fraction exponent : List Char} {power : Int}
    (hfraction : FractionText digits fraction) (hexponent : ExponentText power exponent) :
    ∀ c ∈ (fraction ++ exponent).head?, c = '.' ∨ isExponentMark c = true := by
  cases hfraction with
  | absent =>
    intro c hc
    exact .inr (hexponent.head c hc)
  | present h =>
    rintro c ⟨⟩
    exact .inl rfl

theorem floatParts_append {whole rest : List Char}
    (hwhole : ∀ c ∈ whole, isDigit c = true ∨ c = '_')
    (hrest : ∀ c ∈ rest.head?, c = '.' ∨ isExponentMark c = true) :
    floatParts (whole ++ rest) = ⟨whole, fraction? rest, exponent? rest⟩ := by
  have hfront : ∀ c ∈ whole, (!(c == '.' || isExponentMark c)) = true := by
    intro c hc
    obtain ⟨hpoint, hmark⟩ := not_mark_of_digit (hwhole c hc)
    simp [hpoint, hmark]
  have hstop : ∀ c ∈ rest.head?, (!(c == '.' || isExponentMark c)) = false := by
    intro c hc
    rcases hrest c hc with rfl | hmark
    · rfl
    · simp [hmark]
  unfold floatParts
  simp only [takeWhile_append_stop hfront hstop, dropWhile_append_stop hfront hstop]

theorem fraction?_append {digits fraction exponent : List Char} {power : Int}
    (hfraction : FractionText digits fraction) (hexponent : ExponentText power exponent) :
    fraction? (fraction ++ exponent) = if fraction = [] then none else some digits := by
  cases hfraction with
  | absent =>
    rw [List.nil_append, if_pos rfl]
    unfold fraction?
    split
    · cases hexponent.head '.' rfl
    · rfl
  | present h =>
    rw [if_neg (List.cons_ne_nil _ _), List.cons_append, fraction?, takeWhile_append_stop]
    · intro c hc
      rw [(not_mark_of_digit (h.mem c hc)).2]
      rfl
    · intro c hc
      rw [hexponent.head c hc]
      rfl

theorem exponent?_append {digits fraction exponent : List Char} {power : Int}
    (hfraction : FractionText digits fraction) (hexponent : ExponentText power exponent) :
    exponent? (fraction ++ exponent) = if exponent = [] then none else some exponent.tail := by
  have hdrop : (fraction ++ exponent).dropWhile (!isExponentMark ·) = exponent := by
    apply dropWhile_append_stop
    · cases hfraction with
      | absent => exact List.forall_mem_nil _
      | present h =>
        refine List.forall_mem_cons.mpr ⟨rfl, fun c hc => ?_⟩
        rw [(not_mark_of_digit (h.mem c hc)).2]
        rfl
    · intro c hc
      rw [hexponent.head c hc]
      rfl
  rw [exponent?, hdrop]
  cases exponent with
  | nil => rfl
  | cons => rfl

/-- The power that an exponent names, and its digits. -/
theorem ExponentText.tail {power : Int} {mark : Char} {s : List Char}
    (h : ExponentText power (mark :: s)) :
    powerValue s = power ∧ isRun isDigit (unsigned s) = true := by
  cases h with
  | @up mark sign cs hmark hsign h =>
    have hrun := unsigned_append (hsign.imp_right .inl) h []
    rw [List.append_nil] at hrun
    rw [hrun]
    refine ⟨?_, isRun_of_run rfl h⟩
    unfold powerValue
    split
    · next heq =>
      rcases hsign with rfl | rfl
      · rw [List.nil_append] at heq
        subst heq
        cases h.head '-' rfl
      · cases heq
    · rcases hsign with rfl | rfl <;> rfl
  | down hmark h => exact ⟨rfl, isRun_of_run rfl h⟩

theorem exponentText_of_isRun {mark : Char} (hmark : isExponentMark mark = true) {s : List Char}
    (h : isRun isDigit (unsigned s) = true) : ExponentText (powerValue s) (mark :: s) := by
  unfold unsigned at h
  split at h
  · exact .up hmark (.inr rfl) (run_of_isRun h)
  · exact .down hmark (run_of_isRun h)
  · next hminus =>
    have hvalue : powerValue s = digitsValue 10 s := by
      unfold powerValue
      split
      · exact absurd rfl (hminus _)
      · rfl
    rw [hvalue]
    exact .up hmark (.inl rfl) (run_of_isRun h)

/-- A number below a power of ten has no digit at its place or beyond. -/
theorem places_le {digits bound k : Nat} {power : Int} (hdigits : digits ≠ 0)
    (hbound : bound ≤ 10 ^ k) (h : digits * 10 ^ power.toNat < bound * 10 ^ (-power).toNat) :
    (Nat.toDigits 10 digits).length + power ≤ k := by
  have hlt : digits * 10 ^ power.toNat < 10 ^ (k + (-power).toNat) := by
    rw [pow_add]
    exact h.trans_le (Nat.mul_le_mul_right _ hbound)
  rcases lt_or_ge power (k : Int) with hsmall | hlarge
  · have hsplit : k + (-power).toNat = (k - power).toNat + power.toNat := by omega
    rw [hsplit, pow_add] at hlt
    have hdigit : digits < 10 ^ (k - power).toNat := Nat.lt_of_mul_lt_mul_right hlt
    have hlength := (Nat.length_toDigits_le_iff (by decide) (by omega)).mpr hdigit
    omega
  · -- A digit at so high a place is too much already.
    have hdown : k + (-power).toNat ≤ power.toNat := by omega
    have hpow : 10 ^ (k + (-power).toNat) ≤ 10 ^ power.toNat :=
      Nat.pow_le_pow_right (by decide) hdown
    have hle : 10 ^ power.toNat ≤ digits * 10 ^ power.toNat :=
      Nat.le_mul_of_pos_left _ (Nat.pos_of_ne_zero hdigits)
    exact absurd (hlt.trans_le (hpow.trans hle)) (Nat.lt_irrefl _)

/-- A number without a digit at so high a place is less than the bound. -/
theorem inRange_of_places {digits : Nat} {power : Int}
    (h : (Nat.toDigits 10 digits).length + power ≤ 308) : InRange digits power := by
  have hbound : 10 ^ 308 ≤ Nat.pow 2 1024 - Nat.pow 2 970 := by decide +kernel
  have hlt : digits < 10 ^ (Nat.toDigits 10 digits).length :=
    (Nat.length_toDigits_le_iff (by decide) Nat.length_toDigits_pos).mp (Nat.le_refl _)
  unfold InRange
  generalize Nat.pow 2 1024 - Nat.pow 2 970 = bound at hbound ⊢
  simp only [Nat.pow_eq]
  calc digits * 10 ^ power.toNat
      < 10 ^ (Nat.toDigits 10 digits).length * 10 ^ power.toNat :=
        Nat.mul_lt_mul_of_pos_right hlt (by positivity)
    _ = 10 ^ ((Nat.toDigits 10 digits).length + power.toNat) := (pow_add ..).symm
    _ ≤ 10 ^ (308 + (-power).toNat) := Nat.pow_le_pow_right (by decide) (by omega)
    _ = 10 ^ 308 * 10 ^ (-power).toNat := pow_add ..
    _ ≤ bound * 10 ^ (-power).toNat := Nat.mul_le_mul_right _ hbound

theorem isInRange_iff {digits : Nat} {power : Int} :
    isInRange digits power = true ↔ InRange digits power := by
  have hbound : Nat.pow 2 1024 - Nat.pow 2 970 ≤ 10 ^ 309 := by decide +kernel
  have hnext : Nat.pow 2 1024 - Nat.pow 2 970 + 2 ^ 970 = 2 ^ 1024 :=
    Nat.le_antisymm (by decide +kernel) (by decide +kernel)
  unfold isInRange
  dsimp only
  split
  · next hsmall =>
    refine iff_of_true rfl ?_
    rcases hsmall with rfl | hsmall
    · unfold InRange
      rw [Nat.zero_mul]
      exact Nat.mul_pos (by decide +kernel) (Nat.pow_pos (by decide))
    · exact inRange_of_places hsmall
  split
  · next hlarge hbeyond =>
    refine iff_of_false Bool.false_ne_true fun h => ?_
    have hplaces := places_le (fun hzero => hlarge (.inl hzero)) hbound h
    omega
  · exact Decimal.Double.nearest?_isSome_iff hnext (Nat.pow_pos (by decide))

/-! ## Floats as a whole -/

theorem isFloat_of_realText {sign s : List Char} {digits : Nat} {power : Int} (hsign : Sign sign)
    (h : RealText digits power s) :
    isFloat (sign ++ s) = true ∧ floatFits (sign ++ s) = isInRange digits power := by
  cases h with
  | @mk whole digits fraction exponent power hwhole hfraction hexponent hne =>
    have hparts := floatParts_append hwhole.digits.mem (head_fraction_exponent hfraction hexponent)
    rw [fraction?_append hfraction hexponent, exponent?_append hfraction hexponent] at hparts
    unfold isFloat floatFits
    simp only [unsigned_append hsign hwhole.digits, hparts, isDecimal_of_decimalText hwhole]
    cases hfraction with
    | absent =>
      cases exponent with
      | nil => exact absurd rfl hne
      | cons mark s =>
        obtain ⟨hpower, hrun⟩ := hexponent.tail
        simp [hpower, hrun]
    | present h =>
      have hdigits := isRun_of_run rfl h
      cases exponent with
      | nil =>
        cases hexponent
        simp [hdigits]
      | cons mark s =>
        obtain ⟨hpower, hrun⟩ := hexponent.tail
        simp [hdigits, hpower, hrun]

theorem exponentText_of_exponent? {cs : List Char}
    (h : (exponent? cs).all (fun power => isRun isDigit (unsigned power)) = true) :
    ∃ power, ExponentText power (cs.dropWhile (!isExponentMark ·)) := by
  have hstop := List.head?_dropWhile_not (!isExponentMark ·) cs
  unfold exponent? at h
  cases hdrop : cs.dropWhile (!isExponentMark ·) with
  | nil => exact ⟨0, .absent⟩
  | cons mark power =>
    rw [hdrop] at h hstop
    have hmark : isExponentMark mark = true := by simpa using hstop
    exact ⟨_, exponentText_of_isRun hmark h⟩

/-- What comes behind the whole part of a float is a fraction, an exponent or both. -/
theorem fractionText_of_fraction? {rest : List Char}
    (hhead : ∀ c ∈ rest.head?, c = '.' ∨ isExponentMark c = true)
    (hfraction : (fraction? rest).all (isRun isDigit) = true) :
    ∃ digits fraction, FractionText digits fraction ∧
      rest = fraction ++ rest.dropWhile (!isExponentMark ·) := by
  cases rest with
  | nil => exact ⟨[], [], .absent, rfl⟩
  | cons c cs =>
    rcases hhead c rfl with rfl | hmark
    · have hdrop : ('.' :: cs).dropWhile (!isExponentMark ·) = cs.dropWhile (!isExponentMark ·) :=
        List.dropWhile_cons_of_pos rfl
      rw [hdrop]
      refine ⟨_, _, .present (run_of_isRun hfraction), ?_⟩
      rw [List.cons_append, List.takeWhile_append_dropWhile]
    · have hdrop : (c :: cs).dropWhile (!isExponentMark ·) = c :: cs :=
        List.dropWhile_cons_of_neg (by simp [hmark])
      exact ⟨[], [], .absent, hdrop.symm⟩

theorem exists_sign (s : List Char) : ∃ sign, Sign sign ∧ s = sign ++ unsigned s := by
  unfold unsigned
  split
  · exact ⟨['+'], .inr (.inl rfl), rfl⟩
  · exact ⟨['-'], .inr (.inr rfl), rfl⟩
  · exact ⟨[], .inl rfl, rfl⟩

/-- The parts of a float make it up again. -/
theorem realText_of_isFloat {s : List Char} (h : isFloat s = true) :
    ∃ sign digits power s', Sign sign ∧ RealText digits power s' ∧ s = sign ++ s' := by
  obtain ⟨sign, hsign, hs⟩ := exists_sign s
  unfold isFloat floatParts at h
  simp only [Bool.and_eq_true] at h
  obtain ⟨⟨⟨hwhole, hfraction⟩, hexponent⟩, hsome⟩ := h
  generalize unsigned s = cs at hs hwhole hfraction hexponent hsome
  subst hs
  have hsplit : cs.takeWhile (fun c => !(c == '.' || isExponentMark c)) ++
      cs.dropWhile (fun c => !(c == '.' || isExponentMark c)) = cs :=
    List.takeWhile_append_dropWhile
  have hhead : ∀ c ∈ (cs.dropWhile fun c => !(c == '.' || isExponentMark c)).head?,
      c = '.' ∨ isExponentMark c = true := by
    intro c hc
    have hstop := List.head?_dropWhile_not (fun c => !(c == '.' || isExponentMark c)) cs
    rw [Option.mem_def.mp hc] at hstop
    simpa [or_iff_not_imp_left] using hstop
  generalize cs.takeWhile (fun c => !(c == '.' || isExponentMark c)) = whole at hsplit hwhole
  generalize cs.dropWhile (fun c => !(c == '.' || isExponentMark c)) = rest at *
  subst hsplit
  obtain ⟨power, hpower⟩ := exponentText_of_exponent? hexponent
  obtain ⟨digits, fraction, hdigits, hrest⟩ := fractionText_of_fraction? hhead hfraction
  have hne : rest ≠ [] := by
    rintro rfl
    cases hsome
  rw [hrest] at hne ⊢
  exact ⟨sign, _, _, _, hsign, .mk (decimalText_of_isDecimal hwhole) hdigits hpower hne, rfl⟩

/-- The special floats are spelt in letters. -/
theorem special_iff {s : List Char} :
    isSpecial s = true ↔
      ∃ sign, Sign sign ∧ (s = sign ++ ['i', 'n', 'f'] ∨ s = sign ++ ['n', 'a', 'n']) := by
  constructor
  · intro h
    obtain ⟨sign, hsign, hs⟩ := exists_sign s
    simp only [isSpecial, Bool.or_eq_true, beq_iff_eq] at h
    rw [hs]
    refine ⟨sign, hsign, ?_⟩
    rcases h with h | h
    · exact .inl (by rw [h])
    · exact .inr (by rw [h])
  · rintro ⟨sign, rfl | rfl | rfl, rfl | rfl⟩ <;> rfl

theorem isInteger_of_special {s : List Char} (h : isSpecial s = true) : isInteger s = false := by
  obtain ⟨sign, rfl | rfl | rfl, rfl | rfl⟩ := special_iff.mp h <;> decide

/-- A float of digits is not taken for an integer. -/
theorem isInteger_of_realText {sign s : List Char} {digits : Nat} {power : Int}
    (hsign : Sign sign) (h : RealText digits power s) : isInteger (sign ++ s) = false := by
  cases h with
  | @mk whole digits fraction exponent power hwhole hfraction hexponent hne =>
    obtain ⟨mark, rest, hrest⟩ := List.exists_cons_of_ne_nil hne
    have hmark : mark = '.' ∨ isExponentMark mark = true := by
      apply head_fraction_exponent hfraction hexponent
      rw [hrest]
      rfl
    have hbase : ∀ c ∈ (fraction ++ exponent).head?, c ≠ 'x' ∧ c ≠ 'o' ∧ c ≠ 'b' := by
      rw [hrest]
      rintro c ⟨⟩
      rcases hmark with rfl | hmark
      · decide
      · rcases isExponentMark_iff.mp hmark with rfl | rfl <;> decide
    rw [isInteger_of_not_based (not_based hsign hwhole hbase),
      unsigned_append hsign hwhole.digits, Bool.eq_false_iff]
    intro hdecimal
    have hmem : mark ∈ whole ++ (fraction ++ exponent) := by
      rw [hrest]
      exact List.mem_append_right _ List.mem_cons_self
    obtain ⟨hpoint, hexponent⟩ := not_mark_of_digit (mem_of_isDecimal hdecimal mark hmem)
    rcases hmark with hmark | hmark
    · exact hpoint hmark
    · rw [hexponent] at hmark
      cases hmark

/-- What starts with a digit behind its sign is not one of the special floats. -/
theorem isSpecial_of_digits {sign s : List Char} (hsign : Sign sign) (hs : Run isDigit s)
    (t : List Char) : isSpecial (sign ++ (s ++ t)) = false := by
  obtain ⟨c, s', rfl⟩ := List.exists_cons_of_ne_nil hs.ne_nil
  have hne : ∀ d, isDigit d = false → ∀ ds, c :: s' ++ t ≠ d :: ds := by
    rintro d hd ds heq
    cases heq
    have hdigit := hs.head c rfl
    rw [hd] at hdigit
    cases hdigit
  unfold isSpecial
  simp only [unsigned_append hsign hs]
  rw [beq_false_of_ne (hne 'i' rfl _), beq_false_of_ne (hne 'n' rfl _)]
  rfl

theorem isSpecial_of_realText {sign s : List Char} {digits : Nat} {power : Int}
    (hsign : Sign sign) (h : RealText digits power s) : isSpecial (sign ++ s) = false := by
  cases h with
  | mk hwhole => exact isSpecial_of_digits hsign hwhole.digits _

end LegBoard.Toml
