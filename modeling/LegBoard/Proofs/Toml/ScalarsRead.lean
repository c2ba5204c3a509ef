import LegBoard.Proofs.Toml.Scalars

/-!
# What is read as a boolean, a number, a date or a time

A spelling without quotes and brackets that is taken for a value is one of the grammar, and of the
kind it is taken for. A number beyond the range of its kind is known as such.
-/
namespace LegBoard.Toml

/-! ## Dates and times -/

theorem clock?_eq_some {cs t : List Char} (h : clock? cs = some t) :
    ∃ s, ClockText s ∧ cs = s ++ t := by
  simp only [clock?, Option.bind_eq_bind, Option.bind_eq_some_iff, Prod.exists] at h
  obtain ⟨hour, s₁, hhour, h⟩ := h
  split at h
  · next s₂ =>
    rw [Option.bind_eq_some_iff] at h
    obtain ⟨⟨minute, s₃⟩, hminute, h⟩ := h
    dsimp only at h
    split at h
    · next hday =>
      cases h
      obtain ⟨a, ha, rfl⟩ := twoDigits_of_twoDigits? hhour
      obtain ⟨b, hb, rfl⟩ := twoDigits_of_twoDigits? hminute
      refine ⟨a ++ ':' :: b, .mk ha hb hday.1 hday.2, ?_⟩
      rw [List.append_assoc, List.cons_append]
    · cases h
  · cases h

/-- The fraction of a second, if there is one, is of digits. -/
theorem secondFraction?_eq_some {cs t : List Char} (h : secondFraction? cs = some t) :
    cs = t ∨ ∃ c ds, (∀ d ∈ c :: ds, isDigit d = true) ∧ cs = '.' :: c :: (ds ++ t) := by
  unfold secondFraction? at h
  split at h
  · next cs =>
    split at h
    · next hhead =>
      cases h
      obtain ⟨c, cs, rfl⟩ : ∃ c cs', cs = c :: cs' := by
        cases cs with
        | nil => cases hhead
        | cons c cs => exact ⟨c, cs, rfl⟩
      have hc : isDigit c = true := hhead
      refine .inr ⟨c, cs.takeWhile isDigit, ?_, ?_⟩
      · exact List.forall_mem_cons.mpr ⟨hc, List.all_eq_true.mp List.all_takeWhile⟩
      · rw [List.dropWhile_cons_of_pos hc, List.takeWhile_append_dropWhile]
    · cases h
  · cases h
    exact .inl rfl

theorem time?_eq_some {cs t : List Char} (h : time? cs = some t) :
    ∃ c s, ClockText c ∧ SecondsText s ∧ cs = c ++ (s ++ t) := by
  rw [time?, Option.bind_eq_bind, Option.bind_eq_some_iff] at h
  obtain ⟨rest, hclock, h⟩ := h
  obtain ⟨c, hc, rfl⟩ := clock?_eq_some hclock
  split at h
  · next rest =>
    rw [Option.bind_eq_bind, Option.bind_eq_some_iff] at h
    obtain ⟨⟨second, more⟩, hsecond, h⟩ := h
    dsimp only at h
    split at h
    · next hrange =>
      obtain ⟨a, ha, rfl⟩ := twoDigits_of_twoDigits? hsecond
      rcases secondFraction?_eq_some h with rfl | ⟨d, ds, hdigits, rfl⟩
      · exact ⟨c, ':' :: a, hc, .whole ha hrange, rfl⟩
      · refine ⟨c, ':' :: (a ++ '.' :: d :: ds), hc, .fraction ha hrange hdigits, ?_⟩
        simp only [List.cons_append, List.append_assoc]
    · cases h
  · cases h
    exact ⟨c, [], hc, .absent, rfl⟩

theorem offsetText_of_isOffset {s : List Char} (h : isOffset s = true) : OffsetText s := by
  have hwhole : ∀ {cs}, (clock? cs == some []) = true → ClockText cs := by
    intro cs hcs
    obtain ⟨s, hs, rfl⟩ := clock?_eq_some (beq_iff_eq.mp hcs)
    rwa [List.append_nil]
  unfold isOffset at h
  split at h
  · exact .absent
  · exact .none (.inl rfl)
  · exact .none (.inr rfl)
  · exact .hours (.inl rfl) (hwhole h)
  · exact .hours (.inr rfl) (hwhole h)
  · cases h

theorem dateTimeText_of_isDateTime {s : List Char} (h : isDateTime s = true) :
    DateTimeText s := by
  unfold isDateTime at h
  split at h
  · obtain ⟨t, s, ht, hs, rfl⟩ := time?_eq_some (beq_iff_eq.mp h)
    rw [List.append_nil]
    exact .time ht hs
  · next hdate =>
    obtain ⟨d, hd, rfl⟩ := date?_eq_some hdate
    rw [List.append_nil]
    exact .date hd
  · next mark cs hdate =>
    obtain ⟨hmark, htime⟩ := Bool.and_eq_true_iff.mp h
    simp only [Bool.or_eq_true, beq_iff_eq, or_assoc] at hmark
    obtain ⟨o, ho, hoffset⟩ := (Option.any_eq_true ..).mp htime
    obtain ⟨d, hd, rfl⟩ := date?_eq_some hdate
    obtain ⟨t, s, ht, hs, rfl⟩ := time?_eq_some ho
    exact .both hd hmark ht hs (offsetText_of_isOffset hoffset)

/-! ## The kind of a spelling -/

theorem scalarText_of_isInteger {s : List Char} (h : isInteger s = true) :
    ScalarText (reading true) (if integerFits integerBound s then .integer else .oversized) s := by
  by_cases hfits : integerFits integerBound s = true
  · rw [if_pos hfits]
    exact .integer (integerText_of_isInteger h hfits)
  · obtain ⟨bound, hbound⟩ := exists_integerFits s
    rw [if_neg hfits]
    refine .largeInteger rfl (integerText_of_isInteger h hbound) fun hinteger => ?_
    exact hfits (isInteger_of_integerText hinteger).2

theorem scalarText_of_isSpecial {s : List Char} (h : isSpecial s = true) :
    ScalarText (reading true) .float s := by
  obtain ⟨sign, hsign, rfl | rfl⟩ := special_iff.mp h
  · exact .float (.infinite hsign)
  · exact .float (.undefined hsign)

theorem scalarText_of_isFloat {s : List Char} (h : isFloat s = true) :
    ScalarText (reading true) (if floatFits s then .float else .oversized) s := by
  obtain ⟨sign, digits, power, s', hsign, hreal, rfl⟩ := realText_of_isFloat h
  rw [(isFloat_of_realText hsign hreal).2]
  by_cases hrange : isInRange digits power = true
  · rw [if_pos hrange]
    exact .float (.number hsign hreal (isInRange_iff.mp hrange))
  · rw [if_neg hrange]
    exact .largeFloat rfl hsign hreal (mt isInRange_iff.mpr hrange)

/-- What is taken for a value is spelt as one of that kind. -/
theorem ofSpelling?_eq_some {v : Value} {s : List Char} (h : Value.ofSpelling? s = some v) :
    ScalarText (reading true) v s := by
  unfold Value.ofSpelling? at h
  split at h
  · next hboolean =>
    cases h
    simp only [Bool.or_eq_true, beq_iff_eq] at hboolean
    rcases hboolean with rfl | rfl
    · exact .yes
    · exact .no
  split at h
  · next hinteger =>
    cases h
    exact scalarText_of_isInteger hinteger
  split at h
  · next hspecial =>
    cases h
    exact scalarText_of_isSpecial hspecial
  split at h
  · next hfloat =>
    cases h
    exact scalarText_of_isFloat hfloat
  split at h
  · next hdateTime =>
    cases h
    exact .dateTime (dateTimeText_of_isDateTime hdateTime)
  · cases h

/-- What is taken off a text without quotes and brackets is a value of the grammar. -/
theorem scalar?_eq_some {cs t : List Char} {v : Value} (h : scalar? cs = some (v, t)) :
    ∃ s, ScalarText (reading true) v s ∧ cs = s ++ t := by
  have hsplit : cs.takeWhile isSpellingChar ++ cs.dropWhile isSpellingChar = cs :=
    List.takeWhile_append_dropWhile
  unfold scalar? at h
  dsimp only at h
  generalize cs.takeWhile isSpellingChar = spelling at h hsplit
  generalize cs.dropWhile isSpellingChar = rest at h hsplit
  subst hsplit
  split at h
  · next c more hdate =>
    split at h
    · obtain ⟨v, hv, h⟩ := Option.bind_eq_some_iff.mp h
      cases h
      refine ⟨_, ofSpelling?_eq_some hv, ?_⟩
      rw [List.append_assoc, List.cons_append, List.takeWhile_append_dropWhile]
    · cases h
      obtain ⟨d, hd, rfl⟩ := date?_eq_some hdate
      rw [List.append_nil]
      exact ⟨d, .dateTime (.date hd), rfl⟩
  · obtain ⟨v, hv, h⟩ := Option.bind_eq_some_iff.mp h
    cases h
    exact ⟨spelling, ofSpelling?_eq_some hv, rfl⟩

end LegBoard.Toml
