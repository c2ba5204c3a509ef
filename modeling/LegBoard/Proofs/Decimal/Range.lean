import LegBoard.Decimal.Double
import Mathlib

/-!
# Quotients that have a nearest size

A quotient is near enough to a size of 64 bits if it is less than the number half way between the
greatest of them and the power of two that comes next, and then only.
-/
namespace LegBoard.Decimal.Double

theorem quotient_lt {num den a b : Nat} (h : num < 2 ^ (a + b) * den) :
    num * Nat.pow 2 0 / (den * Nat.pow 2 b) < Nat.pow 2 a := by
  simp only [Nat.pow_eq]
  have hden : 0 < den * 2 ^ b := by
    have hpos : 0 < den := by
      rcases Nat.eq_zero_or_pos den with rfl | hpos
      · rw [Nat.mul_zero] at h
        exact absurd h (Nat.not_lt_zero num)
      · exact hpos
    positivity
  rw [Nat.div_lt_iff_lt_mul hden, pow_zero, Nat.mul_one, Nat.mul_comm den, ← Nat.mul_assoc,
    ← pow_add]
  exact h

/-- The greatest exponent is not exceeded before a mantissa is rounded. -/
theorem exponentOf_le {num den : Nat} (hnum : num ≠ 0) (h : num < 2 ^ 1024 * den) :
    exponentOf num den ≤ greatestExponent := by
  have hlog : num.log2 < 1024 + (den.log2 + 1) := by
    have hlow : 2 ^ num.log2 ≤ num := Nat.log2_self_le hnum
    have hhigh : den < 2 ^ (den.log2 + 1) := Nat.lt_log2_self
    have hpow : 2 ^ num.log2 < 2 ^ (1024 + (den.log2 + 1)) := by
      rw [pow_add]
      exact (hlow.trans_lt h).trans_le (Nat.mul_le_mul_left _ hhigh.le)
    exact (Nat.pow_lt_pow_iff_right (by decide)).mp hpow
  unfold exponentOf greatestExponent leastExponent
  dsimp only
  split
  · omega
  · next hwhole =>
    -- At the greatest exponent, the quotient is below the power of two that comes next.
    have hguess : (num.log2 : Int) - den.log2 - 53 ≠ 971 := by
      intro heq
      have hup : (971 : Int).toNat = 971 := rfl
      have hdown : (-971 : Int).toNat = 0 := rfl
      have hsum : 1024 = 53 + 971 := rfl
      rw [heq, hup, hdown] at hwhole
      rw [hsum] at h
      exact hwhole (quotient_lt (a := 53) (b := 971) h)
    omega

/-- What is less than half a step below a whole number is not rounded up to it. -/
theorem roundAt_lt {num den m : Nat} {exponent : Int}
    (h : 2 * (num * 2 ^ (-exponent).toNat) + den * 2 ^ exponent.toNat <
      2 * (m * (den * 2 ^ exponent.toNat))) :
    roundAt num den exponent < m := by
  unfold roundAt
  simp only [Nat.pow_eq]
  generalize num * 2 ^ (-exponent).toNat = n at h ⊢
  generalize den * 2 ^ exponent.toNat = d at h ⊢
  have hsplit : d * (n / d) + n % d = n := Nat.div_add_mod n d
  have hwhole : n / d < m := by
    have hlt : d * (n / d) < d * m := by
      rw [Nat.mul_comm d m]
      omega
    exact Nat.lt_of_mul_lt_mul_left hlt
  rcases Nat.lt_or_ge (n / d + 1) m with hnext | hlast
  · split_ifs <;> omega
  · -- The whole part is the last one below, so the rest is less than half a step.
    have hm : m = n / d + 1 := by omega
    have hrest : 2 * (n % d) < d := by
      rw [hm, Nat.add_mul, Nat.one_mul, Nat.mul_comm (n / d) d] at h
      omega
    rw [if_pos hrest]
    exact hwhole

theorem nearest?_isSome {num den bound : Nat} (hbound : bound + 2 ^ 970 = 2 ^ 1024)
    (h : num < bound * den) : (nearest? num den).isSome = true := by
  unfold nearest?
  split
  · rfl
  next hnum =>
    have hle : exponentOf num den ≤ greatestExponent :=
      exponentOf_le hnum (h.trans_le (Nat.mul_le_mul_right den (Nat.le.intro hbound)))
    have hround : exponentOf num den = greatestExponent →
        roundAt num den (exponentOf num den) < 2 ^ 53 := by
      intro hexponent
      rw [hexponent]
      apply roundAt_lt
      have hup : (greatestExponent).toNat = 971 := rfl
      have hdown : (-greatestExponent).toNat = 0 := rfl
      have hstep : den * 2 ^ 971 = 2 * (2 ^ 970 * den) := by
        rw [pow_succ 2 970, ← Nat.mul_assoc, Nat.mul_comm den, Nat.mul_comm]
      have hsum : bound * den + 2 ^ 970 * den = 2 ^ 54 * (2 ^ 970 * den) := by
        rw [← Nat.add_mul, hbound, ← Nat.mul_assoc, ← pow_add]
      rw [hup, hdown, hstep, pow_zero, Nat.mul_one]
      generalize 2 ^ 970 * den = half at hsum ⊢
      omega
    simp only [Nat.pow_eq]
    generalize exponentOf num den = e at hle hround ⊢
    by_cases hmantissa : roundAt num den e = 2 ^ 53
    · have hlt : e < greatestExponent := lt_of_le_of_ne hle fun heq => (hround heq).ne hmantissa
      rw [if_pos hmantissa, if_pos (Int.add_one_le_of_lt hlt)]
      rfl
    · rw [if_neg hmantissa, if_pos hle]
      rfl

/-! ## Beyond the range -/

theorem le_quotient {num den a b : Nat} (hden : 0 < den) (h : 2 ^ (a + b) * den ≤ num) :
    Nat.pow 2 a ≤ num * Nat.pow 2 0 / (den * Nat.pow 2 b) := by
  simp only [Nat.pow_eq]
  have hstep : 0 < den * 2 ^ b := by positivity
  rw [Nat.le_div_iff_mul_le hstep, pow_zero, Nat.mul_one, Nat.mul_comm den, ← Nat.mul_assoc,
    ← pow_add]
  exact h

/-- The greatest exponent is reached by all that is at least half of what is beyond it. -/
theorem le_exponentOf {num den : Nat} (hden : 0 < den) (h : 2 ^ 1023 * den ≤ num) :
    greatestExponent ≤ exponentOf num den := by
  have hlog : 1023 + den.log2 ≤ num.log2 := by
    have hlow : 2 ^ den.log2 ≤ den := Nat.log2_self_le hden.ne'
    have hhigh : num < 2 ^ (num.log2 + 1) := Nat.lt_log2_self
    have hpow : 2 ^ (1023 + den.log2) < 2 ^ (num.log2 + 1) := by
      rw [pow_add]
      exact (Nat.mul_le_mul_left _ hlow).trans_lt (h.trans_lt hhigh)
    have hlt := (Nat.pow_lt_pow_iff_right (by decide)).mp hpow
    omega
  unfold exponentOf greatestExponent leastExponent
  dsimp only
  split
  · next hwhole =>
    -- The first guess stands only if it is great enough.
    have hguess : (num.log2 : Int) - den.log2 - 53 ≠ 970 := by
      intro heq
      have hup : (970 : Int).toNat = 970 := rfl
      have hdown : (-970 : Int).toNat = 0 := rfl
      have hsum : 1023 = 53 + 970 := rfl
      rw [heq, hup, hdown] at hwhole
      rw [hsum] at h
      exact absurd hwhole (Nat.not_lt.mpr (le_quotient (a := 53) (b := 970) hden h))
    omega
  · omega

/-- At the exponent of a quotient its mantissa has no more than 53 bits, before it is rounded. -/
theorem whole_lt {num den : Nat} (hden : 0 < den) (h : exponentOf num den = greatestExponent) :
    num / (den * 2 ^ 971) < 2 ^ 53 := by
  have hlow : 2 ^ den.log2 ≤ den := Nat.log2_self_le hden.ne'
  have hhigh : num < 2 ^ (num.log2 + 1) := Nat.lt_log2_self
  have hguess : (num.log2 : Int) - den.log2 - 53 ≤ 970 → num / (den * 2 ^ 971) < 2 ^ 53 := by
    intro hsmall
    have hpow : num.log2 + 1 ≤ den.log2 + (971 + 53) := by omega
    have hle : 2 ^ (num.log2 + 1) ≤ 2 ^ den.log2 * (2 ^ 971 * 2 ^ 53) := by
      rw [← pow_add, ← pow_add]
      exact Nat.pow_le_pow_right (by decide) hpow
    have hlt : num < 2 ^ 53 * (den * 2 ^ 971) := by
      calc num < 2 ^ den.log2 * (2 ^ 971 * 2 ^ 53) := hhigh.trans_le hle
        _ ≤ den * (2 ^ 971 * 2 ^ 53) := Nat.mul_le_mul_right _ hlow
        _ = 2 ^ 53 * (den * 2 ^ 971) := by rw [← Nat.mul_assoc, Nat.mul_comm]
    exact Nat.div_lt_of_lt_mul (by rwa [Nat.mul_comm] at hlt)
  unfold exponentOf greatestExponent leastExponent at h
  simp only [Nat.pow_eq] at h
  split at h
  · next hwhole =>
    have heq : (num.log2 : Int) - den.log2 - 53 = 971 := by omega
    have hup : (971 : Int).toNat = 971 := rfl
    have hdown : (-971 : Int).toNat = 0 := rfl
    rwa [heq, hup, hdown, pow_zero, Nat.mul_one] at hwhole
  · exact hguess (by omega)

/-- What is at most half a step below an even number is rounded up to it. -/
theorem roundAt_eq {num den m : Nat} {exponent : Int} (hden : 0 < den) (heven : m % 2 = 0)
    (hlow : 2 * (m * (den * 2 ^ exponent.toNat)) ≤
      2 * (num * 2 ^ (-exponent).toNat) + den * 2 ^ exponent.toNat)
    (hhigh : num * 2 ^ (-exponent).toNat / (den * 2 ^ exponent.toNat) < m) :
    roundAt num den exponent = m := by
  have hstep : 0 < den * 2 ^ exponent.toNat := by positivity
  unfold roundAt
  simp only [Nat.pow_eq]
  generalize num * 2 ^ (-exponent).toNat = n at hlow hhigh ⊢
  generalize den * 2 ^ exponent.toNat = d at hlow hhigh hstep ⊢
  have hsplit : d * (n / d) + n % d = n := Nat.div_add_mod n d
  have hrest : n % d < d := Nat.mod_lt n hstep
  rw [Nat.mul_comm m] at hlow
  have hwhole : n / d + 1 = m := by
    refine le_antisymm hhigh (Nat.le_of_not_lt fun hlt => ?_)
    have hle : d * (n / d + 1 + 1) ≤ d * m := Nat.mul_le_mul_left d hlt
    rw [Nat.mul_add, Nat.mul_add, Nat.mul_one] at hle
    omega
  have hhalf : d ≤ 2 * (n % d) := by
    rw [← hwhole, Nat.mul_add, Nat.mul_one] at hlow
    omega
  rw [if_neg (Nat.not_lt.mpr hhalf)]
  split_ifs <;> omega

theorem nearest?_eq_none {num den bound : Nat} (hbound : bound + 2 ^ 970 = 2 ^ 1024)
    (hden : 0 < den) (h : bound * den ≤ num) : nearest? num den = none := by
  have hhalf : 2 ^ 1023 ≤ bound := by
    have hle := Nat.pow_le_pow_right Nat.two_pos (show 970 ≤ 1023 by decide)
    rw [pow_succ 2 1023] at hbound
    generalize 2 ^ 970 = step at hbound hle
    generalize 2 ^ 1023 = half at hbound hle ⊢
    omega
  have hlarge : 2 ^ 1023 * den ≤ num := (Nat.mul_le_mul_right den hhalf).trans h
  have hpos : 0 < 2 ^ 1023 * den := Nat.mul_pos (Nat.pow_pos Nat.two_pos) hden
  have hnum : num ≠ 0 := (hpos.trans_le hlarge).ne'
  have hexponent := le_exponentOf hden hlarge
  have hround : exponentOf num den = greatestExponent →
      roundAt num den (exponentOf num den) = 2 ^ 53 := by
    intro heq
    have hwhole := whole_lt hden heq
    have hup : (greatestExponent).toNat = 971 := rfl
    have hdown : (-greatestExponent).toNat = 0 := rfl
    have hstep : den * 2 ^ 971 = 2 * (2 ^ 970 * den) := by
      rw [pow_succ 2 970, ← Nat.mul_assoc, Nat.mul_comm den, Nat.mul_comm]
    have hsum : bound * den + 2 ^ 970 * den = 2 ^ 54 * (2 ^ 970 * den) := by
      rw [← Nat.add_mul, hbound, ← Nat.mul_assoc, ← pow_add]
    rw [heq]
    apply roundAt_eq hden (by decide)
    · rw [hup, hdown, hstep, pow_zero, Nat.mul_one]
      generalize 2 ^ 970 * den = half at hsum ⊢
      omega
    · rw [hup, hdown, pow_zero, Nat.mul_one]
      exact hwhole
  unfold nearest?
  rw [if_neg hnum]
  simp only [Nat.pow_eq]
  generalize exponentOf num den = e at hexponent hround ⊢
  by_cases hmantissa : roundAt num den e = 2 ^ 53
  · rw [if_pos hmantissa]
    exact if_neg (by dsimp only; omega)
  · have hlt : greatestExponent < e := lt_of_le_of_ne hexponent fun heq =>
      hmantissa (hround heq.symm)
    rw [if_neg hmantissa]
    exact if_neg (by dsimp only; omega)

theorem nearest?_isSome_iff {num den bound : Nat} (hbound : bound + 2 ^ 970 = 2 ^ 1024)
    (hden : 0 < den) : (nearest? num den).isSome = true ↔ num < bound * den := by
  constructor
  · intro hsome
    refine Nat.lt_of_not_le fun h => ?_
    rw [nearest?_eq_none hbound hden h] at hsome
    cases hsome
  · exact nearest?_isSome hbound

end LegBoard.Decimal.Double
