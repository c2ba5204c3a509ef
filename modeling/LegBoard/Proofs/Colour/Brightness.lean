import LegBoard.Colour.Contrast
import Mathlib

/-!
# Text that stands out

The text on a colour is black from a certain luminance on and white below it. So it turns from white
to black once, as a colour gets brighter, and it is never the colour that it stands on. That the
luminance grows with every part of a colour is not taken for granted: the transfer curve is made of
a line and a power, whose fifth root is taken one bit after the other.
-/
namespace LegBoard.Colour

/-! ## Fifth roots -/

theorem pow_go_le {m : Nat} (bits : Nat) {r : Nat} (hr : r ^ 5 ≤ m) :
    fifthRoot.go m bits r ^ 5 ≤ m := by
  induction bits generalizing r with
  | zero => exact hr
  | succ b ih =>
    rw [fifthRoot.go]
    apply ih
    split
    · next hfits => exact hfits
    · exact hr

/-- Before the bits that are left, the root lies between what is found and the next number of that
many bits. -/
theorem lt_pow_go {m : Nat} (bits : Nat) {r : Nat} (hr : m < (r + 2 ^ bits) ^ 5) :
    m < (fifthRoot.go m bits r + 1) ^ 5 := by
  induction bits generalizing r with
  | zero => exact hr
  | succ b ih =>
    rw [fifthRoot.go]
    apply ih
    split
    · have hsum : r + Nat.pow 2 b + 2 ^ b = r + 2 ^ (b + 1) := by
        rw [Nat.pow_eq]
        omega
      rw [hsum]
      exact hr
    · next hlarge => exact Nat.lt_of_not_le hlarge

theorem pow_fifthRoot_le (bits m : Nat) : fifthRoot bits m ^ 5 ≤ m :=
  pow_go_le bits (Nat.zero_le m)

theorem le_fifthRoot {bits m x : Nat} (hm : m < (2 ^ bits) ^ 5) (hx : x ^ 5 ≤ m) :
    x ≤ fifthRoot bits m := by
  have hnext : m < (fifthRoot bits m + 1) ^ 5 := lt_pow_go bits (by rwa [Nat.zero_add])
  have hlt := (Nat.pow_lt_pow_iff_left (by decide)).mp (Nat.lt_of_le_of_lt hx hnext)
  exact Nat.lt_succ_iff.mp hlt

theorem fifthRoot_mono {bits m m' : Nat} (hm : m' < (2 ^ bits) ^ 5) (h : m ≤ m') :
    fifthRoot bits m ≤ fifthRoot bits m' :=
  le_fifthRoot hm ((pow_fifthRoot_le bits m).trans h)

/-! ## The transfer curve -/

/-- The fifth power of the upper part of the curve. -/
def curvePower (n : Nat) : Nat :=
  Nat.pow fullPart 5 * Nat.pow (1000 * n + 55 * 255) 12 / Nat.pow (1055 * 255) 12

theorem curvePower_mono {m n : Nat} (h : m ≤ n) : curvePower m ≤ curvePower n := by
  apply Nat.div_le_div_right
  apply Nat.mul_le_mul_left
  exact Nat.pow_le_pow_left (by omega) 12

theorem curvePower_lt {n : Nat} (h : n ≤ 255) : curvePower n < (2 ^ 41) ^ 5 :=
  (curvePower_mono h).trans_lt (by decide)

theorem linearPart_of_le {part : UInt8} (h : part.toNat ≤ 10) :
    linearPart part = fullPart * 100 * part.toNat / (1292 * 255) := if_pos (by omega)

theorem linearPart_of_lt {part : UInt8} (h : 10 < part.toNat) :
    linearPart part = fifthRoot 41 (curvePower part.toNat) := if_neg (by omega)

theorem linearPart_mono {a b : UInt8} (h : a ≤ b) : linearPart a ≤ linearPart b := by
  have hab : a.toNat ≤ b.toNat := UInt8.le_iff_toNat_le.mp h
  have hb : b.toNat < 256 := b.toNat_lt
  rcases Nat.lt_or_ge 10 b.toNat with hcurve | hline
  · rw [linearPart_of_lt hcurve]
    rcases Nat.lt_or_ge 10 a.toNat with hcurve' | hline'
    · rw [linearPart_of_lt hcurve']
      exact fifthRoot_mono (curvePower_lt (by omega)) (curvePower_mono hab)
    · -- The line ends below the place where the curve begins.
      have hend : fullPart * 100 * a.toNat / (1292 * 255) ≤ 3035269835 := by
        have hten : fullPart * 100 * a.toNat ≤ fullPart * 100 * 10 := Nat.mul_le_mul_left _ hline'
        exact (Nat.div_le_div_right hten).trans (by decide)
      have hbegin : 3035269835 ^ 5 ≤ curvePower 11 := by decide
      rw [linearPart_of_le hline']
      apply hend.trans
      exact le_fifthRoot (curvePower_lt (by omega)) (hbegin.trans (curvePower_mono hcurve))
  · rw [linearPart_of_le hline, linearPart_of_le (hab.trans hline)]
    exact Nat.div_le_div_right (Nat.mul_le_mul_left _ hab)

theorem linearPart_zero : linearPart 0 = 0 := by decide

theorem linearPart_full : linearPart 255 = fullPart := by decide +kernel

/-! ## Luminance -/

theorem luminance_mono {c d : Rgb} (hred : c.red ≤ d.red) (hgreen : c.green ≤ d.green)
    (hblue : c.blue ≤ d.blue) : luminance c ≤ luminance d := by
  have hred' := Nat.mul_le_mul_left 2126 (linearPart_mono hred)
  have hgreen' := Nat.mul_le_mul_left 7152 (linearPart_mono hgreen)
  have hblue' := Nat.mul_le_mul_left 722 (linearPart_mono hblue)
  exact Nat.add_le_add (Nat.add_le_add hred' hgreen') hblue'

theorem luminance_black : luminance .black = 0 := by
  rw [luminance, Rgb.black, linearPart_zero]

theorem luminance_white : luminance .white = fullLuminance := by
  rw [luminance, Rgb.white, linearPart_full]
  decide

theorem luminance_le (c : Rgb) : luminance c ≤ fullLuminance := by
  have hle : ∀ part : UInt8, part ≤ 255 := fun part =>
    UInt8.le_iff_toNat_le.mpr (Nat.le_of_lt_succ part.toNat_lt)
  rw [← luminance_white]
  exact luminance_mono (hle _) (hle _) (hle _)

/-- The text is black from the luminance on that stands out from black as white stands out from
it. -/
theorem textOn_eq (c : Rgb) : textOn c =
    if (fullLuminance + flare) * flare ≤ (luminance c + flare) * (luminance c + flare) then .black
    else .white := by
  have hle := luminance_le c
  have hdark : contrast (luminance c) 0 = ⟨luminance c + flare, 0 + flare⟩ :=
    if_pos (Nat.zero_le _)
  have hlight : contrast (luminance c) fullLuminance =
      ⟨fullLuminance + flare, luminance c + flare⟩ := by
    rw [contrast]
    split
    · next hfull => rw [Nat.le_antisymm hle hfull]
    · rfl
  simp only [textOn, hdark, hlight, Ratio.atLeast, Nat.zero_add, decide_eq_true_eq]

theorem textOn_black_of_le {c d : Rgb} (h : luminance c ≤ luminance d) (hc : textOn c = .black) :
    textOn d = .black := by
  rw [textOn_eq] at hc ⊢
  split at hc
  · next hlight =>
    have hlight' := Nat.mul_self_le_mul_self (Nat.add_le_add_right h flare)
    exact if_pos (hlight.trans hlight')
  · cases hc

theorem textOn_ne (c : Rgb) : textOn c ≠ c := by
  rw [textOn_eq]
  split
  · next hlight =>
    rintro rfl
    rw [luminance_black] at hlight
    revert hlight
    decide
  · next hdark =>
    rintro rfl
    rw [luminance_white] at hdark
    apply hdark
    decide

theorem textOn_cases (c : Rgb) : textOn c = .black ∨ textOn c = .white := by
  rw [textOn_eq]
  split
  · exact .inl rfl
  · exact .inr rfl

/-! ## Texts -/

theorem parse?_blackText : Rgb.parse? blackText = some .black := by decide

theorem parse?_whiteText : Rgb.parse? whiteText = some .white := by decide

/-- The text colour is written as it was chosen. -/
theorem parse?_textColour {s : String} {c : Rgb} (h : Rgb.parse? s = some c) :
    Rgb.parse? (textColour s) = some (textOn c) := by
  rw [textColour, h]
  dsimp only
  rcases textOn_cases c with hc | hc
  · rw [hc, if_pos rfl, parse?_blackText]
  · rw [hc, if_neg (by decide), parse?_whiteText]

theorem textColour_eq_blackText_iff {s : String} {c : Rgb} (h : Rgb.parse? s = some c) :
    textColour s = blackText ↔ textOn c = .black := by
  rw [textColour, h]
  dsimp only
  rcases textOn_cases c with hc | hc
  · rw [hc]
    exact iff_of_true (if_pos rfl) rfl
  · rw [hc]
    exact iff_of_false (by decide) (by decide)

/-- The text on a colour is never of that colour, and where it is black, it is so on every colour
that is as bright or brighter in each part. -/
theorem textColour_stands_out :
    (∀ s c, Rgb.parse? s = some c → Rgb.parse? (textColour s) ≠ some c) ∧
    ∀ s t c d, Rgb.parse? s = some c → Rgb.parse? t = some d →
      c.red ≤ d.red → c.green ≤ d.green → c.blue ≤ d.blue →
      textColour s = blackText → textColour t = blackText := by
  constructor
  · intro s c hs hsame
    rw [parse?_textColour hs] at hsame
    exact textOn_ne c (Option.some.inj hsame)
  · intro s t c d hs ht hred hgreen hblue hblack
    rw [textColour_eq_blackText_iff hs] at hblack
    rw [textColour_eq_blackText_iff ht]
    exact textOn_black_of_le (luminance_mono hred hgreen hblue) hblack

/-- Blue has white text, and more green turns it to black. -/
theorem stands_out_on_blue :
    Rgb.parse? "0000ff" = some ⟨0, 0, 255⟩ ∧ textColour "0000ff" = whiteText ∧
    Rgb.parse? (textColour "0000ff") ≠ some ⟨0, 0, 255⟩ ∧ textColour "#08f" = blackText ∧
    textColour "#18F" = blackText := by
  obtain ⟨hnever, hbrighter⟩ := textColour_stands_out
  have hblue : Rgb.parse? "0000ff" = some ⟨0, 0, 255⟩ := by decide +kernel
  have hblack : textColour "#08f" = blackText := by decide +kernel
  have hsky : Rgb.parse? "#08f" = some ⟨0, 0x88, 255⟩ := by decide +kernel
  have hlight : Rgb.parse? "#18F" = some ⟨0x11, 0x88, 255⟩ := by decide +kernel
  refine ⟨hblue, by decide +kernel, hnever _ _ hblue, hblack, ?_⟩
  exact hbrighter _ _ _ _ hsky hlight (by decide) (by decide) (by decide) hblack

end LegBoard.Colour
