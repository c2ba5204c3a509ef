import LegBoard.Colour.Contrast
import LegBoard.Colour.Palette
import LegBoard.Proofs.Colour.Spelling

/-!
# Colours of branding

The colour of a leg is meant to be one hash sign and a block of digits. Branding is read without
the blanks around it, but it is written with them, behind the new hash sign. So the colour is of
that form exactly if the branding, where it is a colour at all, holds no blank. A blank before the
branding loses the colour, and the text on it is then chosen as on no colour; a blank behind only
spoils the form.
-/
namespace LegBoard.Colour

open LegBoard.Text (isBlank trim dropWhile_append_stop)
open LegBoard.Text.Hex (value?)
open LegBoard.Transit (Mode Leg)

/-- One hash sign, three or six digits, and nothing else. -/
def IsHashColour (s : String) : Prop := ∃ ds, s.toList = '#' :: ds ∧ DigitBlock ds

def startsBlank (s : String) : Bool := s.toList.head?.any isBlank

theorem isHashColour_ofMode (mode : Mode) : IsHashColour (ofMode mode) := by
  cases mode <;> exact ⟨_, rfl, by decide, List.all_eq_true.mp rfl⟩

theorem IsHashColour.not_blank {s : String} (h : IsHashColour s) :
    ∀ c ∈ s.toList, isBlank c = false := by
  obtain ⟨ds, hs, hblock⟩ := h
  rw [hs, List.forall_mem_cons]
  exact ⟨isBlank_hash, fun c hc => isBlank_of_value? (hblock.isDigit c hc)⟩

/-! ## Writing a branding with a hash sign -/

theorem toList_withHash (s : String) :
    (withHash s).toList = '#' :: s.toList.dropWhile (· == '#') := String.toList_ofList

/-- The hash signs before a branding are replaced by the new one, if nothing stands before them. -/
theorem toList_withHash_of_parts {hashes ds behind : List Char} (h : Parts [] hashes ds behind)
    {s : String} (hs : s.toList = hashes ++ (ds ++ behind)) :
    (withHash s).toList = '#' :: (ds ++ behind) := by
  have hdrop : s.toList.dropWhile (· == '#') = ds ++ behind := by
    rw [hs]
    apply dropWhile_append_stop
    · intro c hc
      exact beq_iff_eq.mpr (h.hashes c hc)
    · intro c hc
      obtain ⟨d, ds, rfl⟩ := List.exists_cons_of_ne_nil h.block.ne_nil
      obtain rfl : d = c := Option.some.inj hc
      have hdigit := h.block.isDigit d List.mem_cons_self
      exact beq_false_of_ne (ne_hash_of_value? hdigit)
  rw [toList_withHash, hdrop]

/-- Behind a blank they are not. -/
theorem toList_withHash_of_startsBlank {s : String} (h : startsBlank s = true) :
    (withHash s).toList = '#' :: s.toList := by
  have hdrop : s.toList.dropWhile (· == '#') = s.toList := by
    unfold startsBlank at h
    cases hs : s.toList with
    | nil => rfl
    | cons c cs =>
      have hc : isBlank c = true := by simpa [hs] using h
      have hne : c ≠ '#' := by
        rintro rfl
        cases hc
      exact List.dropWhile_cons_of_neg (by simpa using hne)
  rw [toList_withHash, hdrop]

theorem mem_withHash {s : String} {c : Char} (h : c ∈ s.toList) :
    c = '#' ∨ c ∈ (withHash s).toList := by
  rw [← List.takeWhile_append_dropWhile (p := (· == '#')) (l := s.toList)] at h
  rcases List.mem_append.mp h with hhash | hrest
  · exact .inl (beq_iff_eq.mp (List.all_eq_true.mp List.all_takeWhile c hhash))
  · rw [toList_withHash]
    exact .inr (List.mem_cons_of_mem _ hrest)

/-! ## Branding that is a colour -/

theorem startsBlank_of_parts {hashes ds behind : List Char} (h : Parts [] hashes ds behind)
    {s : String} (hs : s.toList = hashes ++ (ds ++ behind)) : startsBlank s = false := by
  unfold startsBlank
  rw [hs]
  cases hashes with
  | nil =>
    obtain ⟨d, ds, rfl⟩ := List.exists_cons_of_ne_nil h.block.ne_nil
    exact isBlank_of_value? (h.block.isDigit d List.mem_cons_self)
  | cons c hashes =>
    obtain rfl : c = '#' := h.hashes c List.mem_cons_self
    exact isBlank_hash

theorem exists_parts_of_not_startsBlank {s : String} (h : (Rgb.parse? s).isSome)
    (hblank : startsBlank s = false) :
    ∃ hashes behind, Parts [] hashes (Rgb.digits s) behind ∧
      s.toList = hashes ++ (Rgb.digits s ++ behind) := by
  obtain ⟨before, hashes, behind, hparts, hs⟩ := Rgb.exists_parts h
  cases before with
  | nil => exact ⟨hashes, behind, hparts, hs⟩
  | cons c before =>
    have hc : isBlank c = true := hparts.before c List.mem_cons_self
    have hstart : startsBlank s = isBlank c := by
      unfold startsBlank
      rw [hs]
      rfl
    rw [hstart, hc] at hblank
    cases hblank

/-- Behind the new hash sign there is no place for a blank before the digits. -/
theorem parse?_withHash_of_startsBlank {s : String} (h : startsBlank s = true) :
    Rgb.parse? (withHash s) = none := by
  refine Option.not_isSome_iff_eq_none.mp fun hcolour => ?_
  obtain ⟨before, hashes, behind, hparts, hs⟩ := Rgb.exists_parts hcolour
  rw [toList_withHash_of_startsBlank h] at hs
  cases before with
  | cons c before =>
    obtain rfl : '#' = c := (List.cons.inj hs).1
    have hhash := hparts.before '#' List.mem_cons_self
    rw [isBlank_hash] at hhash
    cases hhash
  | nil =>
    cases hashes with
    | nil =>
      have hmem : '#' ∈ Rgb.digits (withHash s) := by
        obtain ⟨d, ds, hds⟩ := List.exists_cons_of_ne_nil hparts.block.ne_nil
        rw [hds] at hs ⊢
        rw [(List.cons.inj hs).1]
        exact List.mem_cons_self
      exact ne_hash_of_value? (hparts.block.isDigit '#' hmem) rfl
    | cons c hashes =>
      have hrest : Parts [] hashes (Rgb.digits (withHash s)) behind :=
        { hparts with hashes := fun c hc => hparts.hashes c (List.mem_cons_of_mem _ hc) }
      rw [startsBlank_of_parts hrest (List.cons.inj hs).2] at h
      cases h

theorem parse?_withHash {s : String} (h : (Rgb.parse? s).isSome) :
    Rgb.parse? (withHash s) = if startsBlank s then none else Rgb.parse? s := by
  split
  · next hblank => exact parse?_withHash_of_startsBlank hblank
  · next hblank =>
    rw [Bool.not_eq_true] at hblank
    obtain ⟨hashes, behind, hparts, hs⟩ := exists_parts_of_not_startsBlank h hblank
    have hone : Parts [] ['#'] (Rgb.digits s) behind :=
      { hparts with hashes := fun c hc => List.mem_singleton.mp hc }
    apply Rgb.parse?_congr
    exact Rgb.digits_ofParts hone (toList_withHash_of_parts hparts hs)

theorem isHashColour_withHash_iff {s : String} (h : (Rgb.parse? s).isSome) :
    IsHashColour (withHash s) ↔ ∀ c ∈ s.toList, isBlank c = false := by
  constructor
  · intro hform c hc
    rcases mem_withHash hc with rfl | hmem
    · exact isBlank_hash
    · exact hform.not_blank c hmem
  · intro hplain
    have hblank : startsBlank s = false := by
      unfold startsBlank
      cases hs : s.toList with
      | nil => rfl
      | cons c cs =>
        rw [hs] at hplain
        exact hplain c List.mem_cons_self
    obtain ⟨hashes, behind, hparts, hs⟩ := exists_parts_of_not_startsBlank h hblank
    have hnil : behind = [] := by
      refine List.eq_nil_iff_forall_not_mem.mpr fun c hc => ?_
      have hmem : c ∈ s.toList := by
        rw [hs]
        exact List.mem_append_right _ (List.mem_append_right _ hc)
      have hfalse := hplain c hmem
      rw [hparts.behind c hc] at hfalse
      cases hfalse
    refine ⟨Rgb.digits s, ?_, hparts.block⟩
    rw [toList_withHash_of_parts hparts hs, hnil, List.append_nil]

/-! ## Colours of legs -/

theorem ofLeg_of_branding {leg : Leg} {colour : String} (h : leg.lineColour = some colour) :
    ofLeg leg = if (Rgb.parse? colour).isSome then withHash colour else ofMode leg.mode := by
  rw [ofLeg, h]

theorem textColour_congr {s t : String} (h : Rgb.parse? s = Rgb.parse? t) :
    textColour s = textColour t := by
  rw [textColour, textColour, h]

/-- The colour of a leg is one hash sign and a block of digits exactly if no blank stands in a
branding that is a colour. It is the colour of such a branding, for itself and for the text on it,
exactly if no blank stands before that; otherwise it is no colour and has black text. -/
theorem ofLeg_branding (leg : Leg) :
    (IsHashColour (ofLeg leg) ↔
      ∀ colour, leg.lineColour = some colour → (Rgb.parse? colour).isSome →
        ∀ c ∈ colour.toList, isBlank c = false) ∧
    ∀ colour rgb, leg.lineColour = some colour → Rgb.parse? colour = some rgb →
      Rgb.parse? (ofLeg leg) = (if startsBlank colour then none else some rgb) ∧
      textColour (ofLeg leg) = if startsBlank colour then blackText else textColour colour := by
  constructor
  · cases hleg : leg.lineColour with
    | none =>
      have hmode : ofLeg leg = ofMode leg.mode := by rw [ofLeg, hleg]
      rw [hmode]
      exact iff_of_true (isHashColour_ofMode leg.mode) nofun
    | some colour =>
      rw [ofLeg_of_branding hleg]
      split
      · next hcolour =>
        rw [isHashColour_withHash_iff hcolour]
        constructor
        · rintro hplain colour' ⟨⟩ -
          exact hplain
        · intro hplain
          exact hplain colour rfl hcolour
      · next hcolour =>
        refine iff_of_true (isHashColour_ofMode leg.mode) ?_
        rintro colour' ⟨⟩ hcolour'
        exact absurd hcolour' hcolour
  · intro colour rgb hleg hrgb
    have hcolour : (Rgb.parse? colour).isSome := by
      rw [hrgb]
      rfl
    have hparse := parse?_withHash hcolour
    rw [ofLeg_of_branding hleg, if_pos hcolour]
    constructor
    · rw [hparse, hrgb]
    · split
      · next hblank =>
        rw [if_pos hblank] at hparse
        rw [textColour, hparse]
      · next hblank =>
        rw [if_neg hblank] at hparse
        exact textColour_congr hparse

/-- A leg of a line with a given branding. -/
def brandedLeg (colour : String) : Leg where
  mode := .bus
  line := some { presentation := some { colour := some colour } }

/-- Two hash signs make no difference, a blank behind the digits spoils the form, and one before
them loses the colour, so that dark red gets black text instead of white. -/
theorem ofLeg_of_blank_branding :
    IsHashColour (ofLeg (brandedLeg "##E60000")) ∧ ¬IsHashColour (ofLeg (brandedLeg "E60000 ")) ∧
    Rgb.parse? (ofLeg (brandedLeg "E60000 ")) = some ⟨0xE6, 0, 0⟩ ∧
    Rgb.parse? (ofLeg (brandedLeg " E60000")) = none ∧
    textColour " E60000" = whiteText ∧ textColour (ofLeg (brandedLeg " E60000")) = blackText := by
  obtain ⟨hhashes, -⟩ := ofLeg_branding (brandedLeg "##E60000")
  obtain ⟨hbehind, hkept⟩ := ofLeg_branding (brandedLeg "E60000 ")
  obtain ⟨-, hlost⟩ := ofLeg_branding (brandedLeg " E60000")
  have hred : Rgb.parse? " E60000" = some ⟨0xE6, 0, 0⟩ := by decide +kernel
  obtain ⟨hnone, hblack⟩ := hlost " E60000" ⟨0xE6, 0, 0⟩ rfl hred
  refine ⟨hhashes.mpr ?_, ?_, (hkept "E60000 " _ rfl (by decide +kernel)).1, hnone,
    by decide +kernel, hblack⟩
  · rintro colour ⟨⟩ - c hc
    have hplain : "##E60000".toList.any isBlank = false := by decide
    exact Bool.eq_false_iff.mpr (List.any_eq_false.mp hplain c hc)
  · intro hform
    have hplain := hbehind.mp hform "E60000 " rfl (by decide +kernel)
    exact absurd (hplain ' ' (by decide)) (by decide)

/-- The colour of a leg is not always one hash sign and a block of digits, nor always the colour of
its branding. -/
theorem not_ofLeg_isHashColour :
    ¬∀ leg : Leg, IsHashColour (ofLeg leg) ∧
      ∀ colour rgb, leg.lineColour = some colour → Rgb.parse? colour = some rgb →
        Rgb.parse? (ofLeg leg) = some rgb ∧ textColour (ofLeg leg) = textColour colour := by
  intro h
  obtain ⟨-, hsame⟩ := h (brandedLeg " E60000")
  have hred : Rgb.parse? " E60000" = some ⟨0xE6, 0, 0⟩ := by decide +kernel
  obtain ⟨hparse, -⟩ := hsame " E60000" _ rfl hred
  revert hparse
  decide +kernel

end LegBoard.Colour
