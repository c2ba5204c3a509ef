import LegBoard.Proofs.Json.Tokens

/-!
# Reading strings

The skipper of strings passes what the grammar spells, and nothing else. The reader does too,
except that it refuses units that stand for no text: an escape may name one half of a surrogate
pair, and the other half has to be escaped right behind it.
-/
namespace LegBoard.Json

/-! ## Strings -/

theorem charsOf?_single {unit : Nat} (hsecond : isSecondHalf unit = false)
    (hfirst : isFirstHalf unit = false) (units : Units) :
    charsOf? (unit :: units) = (charsOf? units).map (Char.ofNat unit :: ·) := by
  rw [charsOf?.eq_def]
  simp only [hsecond, hfirst, Bool.false_eq_true, ↓reduceIte]

theorem charsOf?_second {unit : Nat} (h : isSecondHalf unit = true) (units : Units) :
    charsOf? (unit :: units) = none := by
  rw [charsOf?.eq_def]
  simp only [h, ↓reduceIte]

theorem charsOf?_first {unit : Nat} (h : isFirstHalf unit = true) (next : Nat) (units : Units) :
    charsOf? (unit :: next :: units) =
      if isSecondHalf next then (charsOf? units).map (pairChar unit next :: ·) else none := by
  rw [charsOf?.eq_def]
  simp only [isSecondHalf_of_isFirstHalf h, h, Bool.false_eq_true, ↓reduceIte]

theorem charsOf?_unitsOf (c : Char) (units : Units) :
    charsOf? (unitsOf c ++ units) = (charsOf? units).map (c :: ·) := by
  unfold unitsOf
  split
  · rw [List.singleton_append,
      charsOf?_single (isSecondHalf_toNat c) (isFirstHalf_toNat c), Char.ofNat_toNat]
  · next hbig =>
    have hmax : c.toNat < 0x110000 := by
      have hc := c.valid
      simp only [UInt32.isValidChar, Nat.isValidChar] at hc
      simp only [Char.toNat]
      omega
    have hfirst : isFirstHalf (0xD800 + (c.toNat - 0x10000) / 0x400) = true := by
      simp only [isFirstHalf, Bool.and_eq_true, decide_eq_true_eq]
      omega
    have hsecond : isSecondHalf (0xDC00 + (c.toNat - 0x10000) % 0x400) = true := by
      simp only [isSecondHalf, Bool.and_eq_true, decide_eq_true_eq]
      omega
    have hpair : pairChar (0xD800 + (c.toNat - 0x10000) / 0x400)
        (0xDC00 + (c.toNat - 0x10000) % 0x400) = c := by
      have hsum : 0x10000 + (0xD800 + (c.toNat - 0x10000) / 0x400 - 0xD800) * 0x400 +
          (0xDC00 + (c.toNat - 0x10000) % 0x400 - 0xDC00) = c.toNat := by omega
      rw [pairChar, hsum, Char.ofNat_toNat]
    rw [List.cons_append, List.singleton_append, charsOf?_first hfirst, if_pos hsecond, hpair]

/-- No character completes a pair of which the first half was written as an escape. -/
theorem charsOf?_first_unitsOf {unit : Nat} (h : isFirstHalf unit = true) (c : Char)
    (units : Units) : charsOf? (unit :: (unitsOf c ++ units)) = none := by
  have hhead : ∃ next rest, unitsOf c ++ units = next :: rest ∧ isSecondHalf next = false := by
    unfold unitsOf
    split
    · exact ⟨_, _, rfl, isSecondHalf_toNat c⟩
    · next hbig =>
      refine ⟨_, _, rfl, isSecondHalf_of_isFirstHalf ?_⟩
      have hc := c.valid
      simp only [UInt32.isValidChar, Nat.isValidChar] at hc
      simp only [Char.toNat] at hbig
      simp only [isFirstHalf, Char.toNat, Bool.and_eq_true, decide_eq_true_eq]
      omega
  obtain ⟨next, rest, heq, hnext⟩ := hhead
  rw [heq, charsOf?_first h, hnext, if_neg Bool.false_ne_true]

/-- The first half of a pair is refused unless an escape of four digits follows. -/
theorem secondHalf_refuses (first : Nat) {s : List Char} (p : Position)
    (h : ∀ rest, s ≠ '\\' :: 'u' :: rest) :
    ∃ fault, secondHalf first ⟨p, s⟩ = .error fault := by
  unfold secondHalf
  split
  · exact ⟨_, rfl⟩
  · exact ⟨_, rfl⟩
  · next heq => exact absurd heq (h _)
  · exact ⟨_, rfl⟩
  · exact ⟨_, rfl⟩

theorem secondHalf_unit {first second : Nat} {ds : List Char} (h : UnitDigits ds second)
    (p : Position) (s : List Char) :
    secondHalf first ⟨p, '\\' :: 'u' :: (ds ++ s)⟩ =
      if isSecondHalf second then
        .ok (pairChar first second, ⟨p.afterAll ('\\' :: 'u' :: ds), s⟩)
      else .error ((⟨p.afterAll ('\\' :: 'u' :: ds), s⟩ : Cursor).here .loneSurrogate) := by
  have hread : secondHalf first ⟨p, '\\' :: 'u' :: (ds ++ s)⟩ =
      (hexUnit ⟨(p.after '\\').after 'u', ds ++ s⟩).bind fun r =>
        if isSecondHalf r.1 then .ok (pairChar first r.1, r.2)
        else .error (r.2.here .loneSurrogate) := rfl
  rw [hread, hexUnit_digits h]
  rfl

/-- Behind the first half of a pair either its second half is read, or the string is refused and
stands for no text. -/
theorem secondHalf_spelt {first : Nat} (hfirst : isFirstHalf first = true) {units : Units}
    {s t : List Char} (h : Spelt units s ('"' :: t)) (p : Position) :
    (∃ second units' s' q, units = second :: units' ∧ isSecondHalf second = true ∧
      Spelt units' s' ('"' :: t) ∧ s'.length < s.length ∧
      secondHalf first ⟨p, s⟩ = .ok (pairChar first second, ⟨q, s'⟩)) ∨
    (charsOf? (first :: units) = none ∧ ∃ fault, secondHalf first ⟨p, s⟩ = .error fault) := by
  cases h with
  | nil =>
    refine .inr ⟨?_, _, rfl⟩
    rw [charsOf?.eq_def]
    simp only [isSecondHalf_of_isFirstHalf hfirst, hfirst, Bool.false_eq_true, ↓reduceIte]
  | @raw units c s _ hquote hslash _ rest =>
    refine .inr ⟨charsOf?_first_unitsOf hfirst c units, secondHalf_refuses first p ?_⟩
    rintro rest heq
    exact hslash (List.cons.inj heq).1
  | @short units letter c s _ hletter rest =>
    refine .inr ⟨charsOf?_first_unitsOf hfirst c units, secondHalf_refuses first p ?_⟩
    rintro rest heq
    cases heq
    cases hletter
  | @unit units second ds s _ hdigits rest =>
    rw [secondHalf_unit hdigits, charsOf?_first hfirst]
    by_cases hsecond : isSecondHalf second = true
    · refine .inl ⟨second, units, s, _, rfl, hsecond, rest, ?_, if_pos hsecond⟩
      simp only [List.length_cons, List.length_append]
      omega
    · exact .inr ⟨if_neg hsecond, _, if_neg hsecond⟩

theorem Spelt.length_le {units : Units} {s t : List Char} (h : Spelt units s t) :
    t.length ≤ s.length := by
  induction h with
  | nil => exact Nat.le_refl _
  | raw _ _ _ _ ih | short _ _ ih =>
    simp only [List.length_cons]
    omega
  | unit _ _ ih =>
    simp only [List.length_cons, List.length_append]
    omega

theorem spelt_ne_nil {units : Units} {c : Char} {s t : List Char} (h : Spelt units s (c :: t)) :
    s ≠ [] := by
  cases h <;> exact List.cons_ne_nil _ _

theorem readEscape_digits {unit : Nat} {ds : List Char} (h : UnitDigits ds unit) (p : Position)
    (s : List Char) :
    readEscape ⟨p, 'u' :: (ds ++ s)⟩ =
      if isSecondHalf unit then
        .error ((⟨p.afterAll ('u' :: ds), s⟩ : Cursor).here .loneSurrogate)
      else if isFirstHalf unit then secondHalf unit ⟨p.afterAll ('u' :: ds), s⟩
      else .ok (Char.ofNat unit, ⟨p.afterAll ('u' :: ds), s⟩) := by
  simp only [readEscape, Cursor.step_cons, hexUnit_digits h]
  rfl

theorem map_taken (c : Char) (taken : List Char) (o : Option (List Char)) :
    (o.map (c :: ·)).map (taken.reverse ++ ·) = o.map ((c :: taken).reverse ++ ·) := by
  rw [Option.map_map]
  congr 1
  funext cs
  simp only [Function.comp_apply, List.reverse_cons, List.append_assoc, List.singleton_append]

/-- A string is read as the text that its units stand for, or refused if there is none. The clock
has a tick for every character ahead. -/
theorem textFrom_spelt {units : Units} {s t : List Char} (h : Spelt units s ('"' :: t))
    (clock : List Char) (hclock : s.length ≤ clock.length) (taken : List Char) (p : Position) :
    Answers (textFrom clock taken ⟨p, s⟩) ((charsOf? units).map (taken.reverse ++ ·)) t := by
  induction clock generalizing units s taken p with
  | nil =>
    exact absurd (List.eq_nil_of_length_eq_zero (Nat.le_zero.mp hclock)) (spelt_ne_nil h)
  | cons tick clock ih =>
    rw [List.length_cons] at hclock
    cases h with
    | nil => exact ⟨_, congrArg (fun cs => Except.ok (cs, _)) (List.append_nil _).symm⟩
    | @raw units c s _ hquote hslash hcontrol rest =>
      have hstep := textFrom_charSpelling (.raw hquote hslash hcontrol) tick clock taken p s
      rw [List.length_cons] at hclock
      rw [List.singleton_append] at hstep
      rw [hstep, charsOf?_unitsOf, map_taken]
      exact ih rest (by omega) (c :: taken) _
    | @short units letter c s _ hletter rest =>
      have hstep := textFrom_charSpelling (.short hletter) tick clock taken p s
      simp only [List.length_cons] at hclock
      simp only [List.cons_append, List.nil_append] at hstep
      rw [hstep, charsOf?_unitsOf, map_taken]
      exact ih rest (by omega) (c :: taken) _
    | @unit units unit ds s _ hdigits rest =>
      have hstep : textFrom (tick :: clock) taken ⟨p, '\\' :: 'u' :: (ds ++ s)⟩ =
          (readEscape ⟨p.after '\\', 'u' :: (ds ++ s)⟩).bind
            fun r => textFrom clock (r.1 :: taken) r.2 := rfl
      simp only [List.length_cons, List.length_append] at hclock
      rw [hstep, readEscape_digits hdigits]
      by_cases hsecond : isSecondHalf unit = true
      · rw [if_pos hsecond, charsOf?_second hsecond]
        exact ⟨_, rfl⟩
      rw [if_neg hsecond]
      by_cases hfirst : isFirstHalf unit = true
      · rw [if_pos hfirst]
        obtain ⟨second, units', s', q, rfl, hsecond', hrest, hlen, hread⟩ | ⟨hnone, fault, hread⟩ :=
          secondHalf_spelt hfirst rest ((p.after '\\').afterAll ('u' :: ds))
        · rw [hread, charsOf?_first hfirst, if_pos hsecond', map_taken]
          dsimp only [Except.bind]
          exact ih hrest (by omega) (pairChar unit second :: taken) q
        · rw [hread, hnone]
          exact ⟨_, rfl⟩
      · rw [if_neg hfirst, charsOf?_single (Bool.eq_false_iff.mpr hsecond)
          (Bool.eq_false_iff.mpr hfirst), map_taken]
        exact ih rest (by omega) (Char.ofNat unit :: taken) _

/-- Behind its opening quote a string is read as its text, or refused if it is none. -/
theorem readText_spelt {units : Units} {s t : List Char} (h : Spelt units s ('"' :: t))
    (p : Position) : Answers (readText ⟨p, s⟩) (textOf? units) t := by
  have hread := textFrom_spelt h s (Nat.le_refl _) [] p
  have hid : (charsOf? units).map (([] : List Char).reverse ++ ·) = charsOf? units :=
    Option.map_id' (x := charsOf? units)
  rw [hid] at hread
  exact hread.map String.ofList

theorem skipEscape_short {letter c : Char} (h : shortEscape? letter = some c) (p : Position)
    (s : List Char) : skipEscape ⟨p, letter :: s⟩ = .ok ⟨p.after letter, s⟩ := by
  unfold skipEscape
  split
  · next heq => cases heq
  · next heq =>
    cases heq
    cases h
  · next heq =>
    cases heq
    rw [h]
    rfl

theorem skipTextFrom_spelt {units : Units} {s t : List Char} (h : Spelt units s ('"' :: t))
    (clock : List Char) (hclock : s.length ≤ clock.length) (p : Position) :
    ∃ q, skipTextFrom clock ⟨p, s⟩ = .ok ⟨q, t⟩ := by
  induction clock generalizing units s p with
  | nil =>
    exact absurd (List.eq_nil_of_length_eq_zero (Nat.le_zero.mp hclock)) (spelt_ne_nil h)
  | cons tick clock ih =>
    rw [List.length_cons] at hclock
    cases h with
    | nil => exact ⟨_, rfl⟩
    | @raw units c s _ hquote hslash hcontrol rest =>
      rw [List.length_cons] at hclock
      simp only [skipTextFrom, hcontrol, Bool.false_eq_true, ↓reduceIte]
      exact ih rest (by omega) _
    | @short units letter c s _ hletter rest =>
      simp only [List.length_cons] at hclock
      have hstep : skipTextFrom (tick :: clock) ⟨p, '\\' :: letter :: s⟩ =
          (skipEscape ⟨p.after '\\', letter :: s⟩).bind (skipTextFrom clock) := rfl
      rw [hstep, skipEscape_short hletter]
      exact ih rest (by omega) _
    | @unit units unit ds s _ hdigits rest =>
      simp only [List.length_cons, List.length_append] at hclock
      have hstep : skipTextFrom (tick :: clock) ⟨p, '\\' :: 'u' :: (ds ++ s)⟩ =
          (hexUnit ⟨(p.after '\\').after 'u', ds ++ s⟩).bind
            fun r => skipTextFrom clock r.2 := by
        simp only [skipTextFrom, skipEscape, Cursor.step_cons]
        cases hexUnit ⟨(p.after '\\').after 'u', ds ++ s⟩ <;> rfl
      rw [hstep, hexUnit_digits hdigits]
      exact ih rest (by omega) _

/-- Behind its opening quote a string is passed over, whether it is a text or not. -/
theorem skipText_spelt {units : Units} {s t : List Char} (h : Spelt units s ('"' :: t))
    (p : Position) : ∃ q, skipText ⟨p, s⟩ = .ok ⟨q, t⟩ :=
  skipTextFrom_spelt h s (Nat.le_refl _) p

theorem utf8Size_of_value? {c : Char} {n : Nat} (h : Text.Hex.value? c = some n) :
    c.utf8Size = 1 := by
  rw [Char.utf8Size_eq_one_iff]
  unfold Text.Hex.value? at h
  simp only [Char.le_def, UInt32.le_iff_toNat_le] at h ⊢
  have h9 : '9'.val.toNat = 57 := rfl
  have hf : 'f'.val.toNat = 102 := rfl
  have hF : 'F'.val.toNat = 70 := rfl
  have h127 : (127 : UInt32).toNat = 127 := rfl
  split at h
  · omega
  · split at h
    · omega
    · split at h
      · omega
      · cases h

theorem byteSize_of_number? {cs : List Char} {n : Nat} (h : Text.Hex.number? cs = some n) :
    byteSize cs = cs.length := by
  unfold Text.Hex.number? at h
  generalize 0 = acc at h
  induction cs generalizing acc with
  | nil => rfl
  | cons c cs ih =>
    rw [List.foldlM_cons] at h
    obtain ⟨next, hnext, htail⟩ := Option.bind_eq_some_iff.mp h
    obtain ⟨digit, hdigit, -⟩ := Option.map_eq_some_iff.mp hnext
    rw [byteSize, List.foldr_cons, ← byteSize, utf8Size_of_value? hdigit, ih next htail,
      List.length_cons, Nat.add_comm]

theorem unitDigits_of_hexUnit {s s' : Cursor} {unit : Nat} (h : hexUnit s = .ok (unit, s')) :
    ∃ ds, UnitDigits ds unit ∧ s.rest = ds ++ s'.rest := by
  obtain ⟨p, rest⟩ := s
  simp only [hexUnit] at h
  split at h
  · cases h
  · next hsize =>
    split at h
    · next hnumber =>
      rw [byteSize_of_number? hnumber, List.length_take] at hsize
      obtain ⟨a, b, c, d, rest, rfl⟩ : ∃ a b c d rest', rest = a :: b :: c :: d :: rest' := by
        rcases rest with _ | ⟨a, _ | ⟨b, _ | ⟨c, _ | ⟨d, rest⟩⟩⟩⟩
        · simp at hsize
        · simp at hsize
        · simp at hsize
        · simp at hsize
        · exact ⟨a, b, c, d, rest, rfl⟩
      cases h
      exact ⟨[a, b, c, d], ⟨rfl, hnumber⟩, rfl⟩
    · cases h

theorem unitDigits_of_secondHalf {first : Nat} {s s' : Cursor} {c : Char}
    (h : secondHalf first s = .ok (c, s')) :
    ∃ ds second, UnitDigits ds second ∧ s.rest = '\\' :: 'u' :: (ds ++ s'.rest) := by
  obtain ⟨p, rest⟩ := s
  unfold secondHalf at h
  split at h
  · cases h
  · cases h
  · next ds heq =>
    dsimp only at heq
    subst heq
    obtain ⟨⟨second, s₁⟩, hunit, htail⟩ := ok_of_bind h
    obtain ⟨ds, hdigits, hds⟩ := unitDigits_of_hexUnit hunit
    dsimp only at htail
    split at htail
    · obtain ⟨-, rfl⟩ := Prod.mk.inj (Except.ok.inj htail)
      refine ⟨ds, second, hdigits, ?_⟩
      rw [← hds]
      rfl
    · cases htail
  · cases h
  · cases h

/-- What reading or skipping an escape passes, behind the backslash: units of the string, in front
of whatever it goes on with. -/
def PassesUnits (s s' : List Char) : Prop :=
  ∃ front : Units, ∀ {units t}, Spelt units s' t → Spelt (front ++ units) ('\\' :: s) t

theorem passesUnits_short {letter c : Char} (h : shortEscape? letter = some c) (s : List Char) :
    PassesUnits (letter :: s) s := ⟨unitsOf c, .short h⟩

theorem passesUnits_unit {unit : Nat} {ds : List Char} (h : UnitDigits ds unit) (s : List Char) :
    PassesUnits ('u' :: (ds ++ s)) s := ⟨[unit], .unit h⟩

theorem passesUnits_of_readEscape {s s' : Cursor} {c : Char} (h : readEscape s = .ok (c, s')) :
    PassesUnits s.rest s'.rest := by
  obtain ⟨p, rest⟩ := s
  unfold readEscape at h
  split at h
  · cases h
  · next rest heq =>
    dsimp only at heq
    subst heq
    obtain ⟨⟨unit, s₁⟩, hunit, htail⟩ := ok_of_bind h
    obtain ⟨ds, hdigits, hds⟩ := unitDigits_of_hexUnit hunit
    change rest = ds ++ s₁.rest at hds
    subst hds
    dsimp only at htail
    split at htail
    · cases htail
    · split at htail
      · obtain ⟨es, second, hes, heq⟩ := unitDigits_of_secondHalf htail
        refine ⟨[unit, second], fun hrest => ?_⟩
        have := Spelt.unit hdigits (.unit hes hrest)
        rw [heq]
        exact this
      · cases htail
        exact passesUnits_unit hdigits _
  · next letter rest hne heq =>
    dsimp only at heq
    subst heq
    split at h
    · next c hletter =>
      cases h
      exact passesUnits_short hletter rest
    · cases h

theorem passesUnits_of_skipEscape {s s' : Cursor} (h : skipEscape s = .ok s') :
    PassesUnits s.rest s'.rest := by
  obtain ⟨p, rest⟩ := s
  unfold skipEscape at h
  split at h
  · cases h
  · next rest heq =>
    dsimp only at heq
    subst heq
    obtain ⟨⟨unit, s₁⟩, hunit, htail⟩ := ok_of_bind h
    obtain ⟨ds, hdigits, hds⟩ := unitDigits_of_hexUnit hunit
    change rest = ds ++ s₁.rest at hds
    subst hds
    cases htail
    exact passesUnits_unit hdigits _
  · next letter rest hne heq =>
    dsimp only at heq
    subst heq
    split at h
    · next hletter =>
      obtain ⟨c, hc⟩ := Option.isSome_iff_exists.mp hletter
      cases h
      exact passesUnits_short hc rest
    · cases h

theorem spelt_of_textFrom {clock taken cs : List Char} {s s' : Cursor}
    (h : textFrom clock taken s = .ok (cs, s')) : ∃ units, Spelt units s.rest ('"' :: s'.rest) := by
  induction clock generalizing taken s with
  | nil => cases h
  | cons tick clock ih =>
    obtain ⟨p, rest⟩ := s
    unfold textFrom at h
    split at h
    · cases h
    · next rest heq =>
      dsimp only at heq
      subst heq
      cases h
      exact ⟨[], .nil⟩
    · next rest heq =>
      dsimp only at heq
      subst heq
      obtain ⟨⟨c, s₁⟩, hescape, htail⟩ := ok_of_bind h
      obtain ⟨units, hunits⟩ := ih htail
      obtain ⟨front, hfront⟩ := passesUnits_of_readEscape hescape
      exact ⟨front ++ units, hfront hunits⟩
    · next c rest hquote hslash heq =>
      dsimp only at heq
      subst heq
      split at h
      · cases h
      · next hcontrol =>
        obtain ⟨units, hunits⟩ := ih h
        exact ⟨_, .raw hquote hslash (Bool.eq_false_iff.mpr hcontrol) hunits⟩

theorem spelt_of_readText {s s' : Cursor} {t : String} (h : readText s = .ok (t, s')) :
    ∃ units, Spelt units s.rest ('"' :: s'.rest) := by
  obtain ⟨⟨cs, s₁⟩, hfrom, htail⟩ := ok_of_bind h
  cases htail
  exact spelt_of_textFrom hfrom

theorem spelt_of_skipTextFrom {clock : List Char} {s s' : Cursor}
    (h : skipTextFrom clock s = .ok s') : ∃ units, Spelt units s.rest ('"' :: s'.rest) := by
  induction clock generalizing s with
  | nil => cases h
  | cons tick clock ih =>
    obtain ⟨p, rest⟩ := s
    unfold skipTextFrom at h
    split at h
    · cases h
    · next rest heq =>
      dsimp only at heq
      subst heq
      cases h
      exact ⟨[], .nil⟩
    · next rest heq =>
      dsimp only at heq
      subst heq
      obtain ⟨s₁, hescape, htail⟩ := ok_of_bind h
      obtain ⟨units, hunits⟩ := ih htail
      obtain ⟨front, hfront⟩ := passesUnits_of_skipEscape hescape
      exact ⟨front ++ units, hfront hunits⟩
    · next c rest hquote hslash heq =>
      dsimp only at heq
      subst heq
      split at h
      · cases h
      · next hcontrol =>
        obtain ⟨units, hunits⟩ := ih h
        exact ⟨_, .raw hquote hslash (Bool.eq_false_iff.mpr hcontrol) hunits⟩

/-! ## Texts as they are -/

/-- The units of a text. -/
def unitsOfText (text : String) : Units := text.toList.flatMap unitsOf

theorem textOf?_unitsOfText (text : String) : textOf? (unitsOfText text) = some text := by
  have hchars : ∀ cs : List Char, charsOf? (cs.flatMap unitsOf) = some cs := by
    intro cs
    induction cs with
    | nil => rfl
    | cons c cs ih => rw [List.flatMap_cons, charsOf?_unitsOf, ih]; rfl
  rw [textOf?, unitsOfText, hchars, Option.map_some, String.ofList_toList]

theorem spelt_raw {t : List Char} : (cs : List Char) →
    cs.all (fun c => c ≠ '"' ∧ c ≠ '\\' ∧ isControl c = false) = true →
    Spelt (cs.flatMap unitsOf) (cs ++ t) t
  | [], _ => .nil
  | c :: cs, h => by
    rw [List.all_cons, Bool.and_eq_true, decide_eq_true_iff] at h
    obtain ⟨⟨hquote, hbackslash, hcontrol⟩, hcs⟩ := h
    exact .raw hquote hbackslash hcontrol (spelt_raw cs hcs)

end LegBoard.Json
