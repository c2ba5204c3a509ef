import LegBoard.Proofs.Text.PercentDecoding

/-!
# Which texts are encoded components

An encoded text is made of plain characters and of escapes that were needed, and what it stands for
is UTF-8. Every text of this form is the encoding of the text that it is decoded to, so between
texts and components nothing is lost in either direction. Whole bytes decide this: a character is
plain exactly if each of its bytes is, so a text may be encoded byte by byte.
-/
namespace LegBoard.Text.Percent

/-- Letters and digits of ASCII stand for themselves, and so do nine marks. -/
def IsPlain (c : Char) : Prop :=
  c.isAlphanum = true ∨ c ∈ ['-', '_', '.', '!', '~', '*', '\'', '(', ')']

/-- An upper-case hexadecimal digit of a value. -/
structure IsUpperDigit (x : Char) (n : Nat) : Prop where
  value : Hex.value? x = some n
  upper : x.isLower = false

/-- Plain characters, and escapes in upper case of bytes that are not plain. -/
inductive Canonical : List Char → Prop
  | nil : Canonical []
  | plain {c : Char} {cs : List Char} (hc : IsPlain c) (rest : Canonical cs) : Canonical (c :: cs)
  | escape {x y : Char} {cs : List Char} {high low : Nat} (hx : IsUpperDigit x high)
      (hy : IsUpperDigit y low) (hneeded : ¬IsPlain (Char.ofNat (16 * high + low)))
      (rest : Canonical cs) : Canonical ('%' :: x :: y :: cs)

/-- What a component of a URL looks like. -/
structure IsComponent (t : String) : Prop where
  canonical : Canonical t.toList
  utf8 : (decodeBytes t.toList).toByteArray.IsValidUTF8

theorem isLower_iff {c : Char} : c.isLower = true ↔ 97 ≤ c.toNat ∧ c.toNat ≤ 122 := by
  have hrange : c.isLower = (decide (c.val ≥ 'a'.val) && decide (c.val ≤ 'z'.val)) := rfl
  rw [hrange, Bool.and_eq_true, decide_eq_true_iff, decide_eq_true_iff]
  exact Iff.rfl

theorem isAlphanum_iff {c : Char} :
    c.isAlphanum = true ↔ ((65 ≤ c.toNat ∧ c.toNat ≤ 90) ∨ (97 ≤ c.toNat ∧ c.toNat ≤ 122)) ∨
      (48 ≤ c.toNat ∧ c.toNat ≤ 57) := by
  have hranges : c.isAlphanum = ((decide (c.val ≥ 'A'.val ∧ c.val ≤ 'Z'.val) || c.isLower) ||
      (decide (c.val ≥ '0'.val) && decide (c.val ≤ '9'.val))) := rfl
  rw [hranges]
  simp only [Bool.or_eq_true, Bool.and_eq_true, decide_eq_true_eq, isLower_iff]
  exact Iff.rfl

theorem isUnreserved_iff {c : Char} : isUnreserved c = true ↔ IsPlain c := by
  have halphanumeric : isAlphanumeric c = true ↔ c.isAlphanum = true := by
    simp only [isAlphanumeric, isAlphanum_iff, Bool.or_eq_true, Bool.and_eq_true,
      decide_eq_true_eq]
    change ((97 ≤ c.toNat ∧ c.toNat ≤ 122) ∨ (65 ≤ c.toNat ∧ c.toNat ≤ 90)) ∨
        (48 ≤ c.toNat ∧ c.toNat ≤ 57) ↔ _
    omega
  rw [isUnreserved, Bool.or_eq_true, halphanumeric, List.contains_iff_mem, IsPlain]

/-! ## Digits -/

theorem isUpperDigit_upper : ∀ n < 16, IsUpperDigit (Hex.upper n) n := by
  have hupper : ∀ n < 16, (Hex.upper n).isLower = false := by decide
  exact fun n hn => ⟨value?_upper n hn, hupper n hn⟩

/-- The number of a digit and its letter case determine the digit. -/
theorem IsUpperDigit.eq_upper {x : Char} {n : Nat} (h : IsUpperDigit x n) :
    n < 16 ∧ x = Hex.upper n := by
  obtain ⟨hvalue, hupper⟩ := h
  have hcases : (48 ≤ x.toNat ∧ x.toNat ≤ 57 ∧ n = x.toNat - 48) ∨
      (65 ≤ x.toNat ∧ x.toNat ≤ 70 ∧ n = x.toNat - 65 + 10) := by
    unfold Hex.value? at hvalue
    split at hvalue
    · next hdigit => exact .inl ⟨hdigit.1, hdigit.2, (Option.some.inj hvalue).symm⟩
    · split at hvalue
      · next hlower =>
        have hrange : 97 ≤ x.toNat ∧ x.toNat ≤ 102 := hlower
        have hletter : x.isLower = true := isLower_iff.mpr (by omega)
        rw [hupper] at hletter
        cases hletter
      · split at hvalue
        · next hletter => exact .inr ⟨hletter.1, hletter.2, (Option.some.inj hvalue).symm⟩
        · cases hvalue
  rcases hcases with ⟨hleast, hmost, rfl⟩ | ⟨hleast, hmost, rfl⟩
  · have hnumber : '0'.toNat + (x.toNat - 48) = x.toNat := by
      change 48 + (x.toNat - 48) = x.toNat
      omega
    refine ⟨by omega, ?_⟩
    rw [Hex.upper, if_pos (by omega), hnumber, Char.ofNat_toNat]
  · have hnumber : 'A'.toNat + (x.toNat - 65 + 10 - 10) = x.toNat := by
      change 65 + (x.toNat - 65 + 10 - 10) = x.toNat
      omega
    refine ⟨by omega, ?_⟩
    rw [Hex.upper, if_neg (by omega), hnumber, Char.ofNat_toNat]

/-! ## Bytes of characters -/

theorem not_isPlain_of_le {c : Char} (h : 128 ≤ c.toNat) : ¬IsPlain c := by
  rintro (halphanumeric | hmark)
  · have hranges := isAlphanum_iff.mp halphanumeric
    omega
  · have hsmall : ['-', '_', '.', '!', '~', '*', '\'', '(', ')'].all (·.toNat < 128) = true := rfl
    have hc := of_decide_eq_true (List.all_eq_true.mp hsmall c hmark)
    omega

/-- The character that a byte stands for by itself. -/
def charOfByte (b : UInt8) : Char := Char.ofNat b.toNat

theorem toNat_charOfByte (b : UInt8) : (charOfByte b).toNat = b.toNat := by
  have hb := b.toNat_lt
  rw [charOfByte, Char.ofNat, dif_pos (.inl (by omega))]
  rfl

theorem charOfByte_ofNat {c : Char} (h : c.toNat < 128) : charOfByte (.ofNat c.toNat) = c := by
  rw [charOfByte, UInt8.toNat_ofNat', Nat.mod_eq_of_lt (by omega), Char.ofNat_toNat]

/-- A character of ASCII is its own byte, and no byte of another one is of ASCII. -/
theorem utf8EncodeChar_cases (c : Char) :
    (c.toNat < 128 ∧ String.utf8EncodeChar c = [.ofNat c.toNat]) ∨
      (128 ≤ c.toNat ∧ ∀ b ∈ String.utf8EncodeChar c, 128 ≤ b.toNat) := by
  by_cases hascii : c.toNat ≤ 127
  · refine .inl ⟨by omega, ?_⟩
    rw [String.utf8EncodeChar]
    exact if_pos hascii
  · have hbeyond : ¬c.val.toNat ≤ 127 := hascii
    refine .inr ⟨by omega, ?_⟩
    have hbyte : ∀ n, 128 ≤ n % 256 → 128 ≤ (UInt8.ofNat n).toNat := by
      intro n hn
      rwa [UInt8.toNat_ofNat']
    intro b hb
    rw [String.utf8EncodeChar, if_neg hbeyond] at hb
    split at hb
    · simp only [List.mem_cons, List.not_mem_nil, or_false] at hb
      rcases hb with rfl | rfl <;> exact hbyte _ (by omega)
    · split at hb
      · simp only [List.mem_cons, List.not_mem_nil, or_false] at hb
        rcases hb with rfl | rfl | rfl <;> exact hbyte _ (by omega)
      · simp only [List.mem_cons, List.not_mem_nil, or_false] at hb
        rcases hb with rfl | rfl | rfl | rfl <;> exact hbyte _ (by omega)

/-- A byte stands for itself exactly if the character does that it belongs to. -/
theorem isPlain_charOfByte {c : Char} {b : UInt8} (hb : b ∈ String.utf8EncodeChar c) :
    IsPlain (charOfByte b) ↔ IsPlain c := by
  rcases utf8EncodeChar_cases c with ⟨hc, hbytes⟩ | ⟨hc, hbytes⟩
  · rw [hbytes, List.mem_singleton] at hb
    rw [hb, charOfByte_ofNat hc]
  · have hbyte := toNat_charOfByte b
    have hlarge := hbytes b hb
    exact iff_of_false (not_isPlain_of_le (by omega)) (not_isPlain_of_le hc)

/-! ## Encoding byte by byte -/

/-- A byte as it is written in a component. -/
def encodeUnit (b : UInt8) : List Char :=
  if isUnreserved (charOfByte b) then [charOfByte b] else encodeByte b

theorem encodeChar_eq (c : Char) :
    encodeChar c = (String.utf8EncodeChar c).flatMap encodeUnit := by
  by_cases hplain : IsPlain c
  · rcases utf8EncodeChar_cases c with ⟨hascii, hbytes⟩ | ⟨hlarge, -⟩
    · rw [encodeChar, if_pos (isUnreserved_iff.mpr hplain), hbytes, List.flatMap_singleton,
        encodeUnit, charOfByte_ofNat hascii, if_pos (isUnreserved_iff.mpr hplain)]
    · exact absurd hplain (not_isPlain_of_le hlarge)
  · have hunits : ∀ b ∈ String.utf8EncodeChar c, encodeUnit b = encodeByte b := by
      intro b hb
      rw [encodeUnit, if_neg]
      rw [isUnreserved_iff, isPlain_charOfByte hb]
      exact hplain
    rw [encodeChar, if_neg (mt isUnreserved_iff.mp hplain), List.flatMap_def, List.flatMap_def,
      List.map_congr_left hunits]

/-- An encoded text is made of its bytes. -/
theorem toList_encode (s : String) :
    (encode s).toList = (s.toList.flatMap String.utf8EncodeChar).flatMap encodeUnit := by
  rw [encode, String.toList_ofList, List.flatMap_assoc]
  exact congrArg (s.toList.flatMap ·) (funext encodeChar_eq)

theorem canonical_encodeUnit (b : UInt8) {cs : List Char} (h : Canonical cs) :
    Canonical (encodeUnit b ++ cs) := by
  by_cases hplain : IsPlain (charOfByte b)
  · rw [encodeUnit, if_pos (isUnreserved_iff.mpr hplain)]
    exact .plain hplain h
  · have hb := b.toNat_lt
    have hsum : 16 * (b.toNat / 16 % 16) + b.toNat % 16 = b.toNat := by omega
    rw [encodeUnit, if_neg (mt isUnreserved_iff.mp hplain)]
    refine .escape (isUpperDigit_upper (b.toNat / 16 % 16) (by omega))
      (isUpperDigit_upper (b.toNat % 16) (by omega)) ?_ h
    rwa [hsum]

theorem canonical_encode (s : String) : Canonical (encode s).toList := by
  rw [toList_encode]
  induction s.toList.flatMap String.utf8EncodeChar with
  | nil => exact .nil
  | cons b bs ih => exact canonical_encodeUnit b ih

/-- A canonical text is made of the bytes that it is decoded to. -/
theorem Canonical.encode_decodeBytes {cs : List Char} (h : Canonical cs) :
    (decodeBytes cs).flatMap encodeUnit = cs := by
  induction h with
  | nil => rfl
  | @plain c cs hc _ ih =>
    have hunreserved := isUnreserved_iff.mpr hc
    rw [decodeBytes_cons (ne_percent_of_isUnreserved hunreserved), List.flatMap_append,
      ← encodeChar_eq, encodeChar, if_pos hunreserved, ih, List.singleton_append]
  | @escape x y cs high low hx hy hneeded _ ih =>
    obtain ⟨hhigh, rfl⟩ := hx.eq_upper
    obtain ⟨hlow, rfl⟩ := hy.eq_upper
    have hbyte : (UInt8.ofNat (16 * high + low)).toNat = 16 * high + low := by
      rw [UInt8.toNat_ofNat', Nat.mod_eq_of_lt (by omega)]
    have hdigits :
        encodeByte (.ofNat (16 * high + low)) = ['%', Hex.upper high, Hex.upper low] := by
      have hquotient : (16 * high + low) / 16 % 16 = high := by omega
      have hremainder : (16 * high + low) % 16 = low := by omega
      rw [encodeByte, Hex.upperByte, hbyte, hquotient, hremainder]
    have hunit : encodeUnit (.ofNat (16 * high + low)) = encodeByte (.ofNat (16 * high + low)) := by
      rw [encodeUnit, if_neg]
      rw [isUnreserved_iff, charOfByte, hbyte]
      exact hneeded
    simp only [decodeBytes, hx.value, hy.value, List.flatMap_cons, ih, hunit, hdigits,
      List.cons_append, List.nil_append]

/-! ## Components -/

theorem toByteArray_decodeBytes_encode (s : String) :
    (decodeBytes (encode s).toList).toByteArray = s.toByteArray := by
  rw [encode, String.toList_ofList, decodeBytes_flatMap_encodeChar, ← List.utf8Encode,
    String.utf8Encode_toList]

theorem isComponent_encode (s : String) : IsComponent (encode s) := by
  refine ⟨canonical_encode s, ?_⟩
  rw [toByteArray_decodeBytes_encode]
  exact s.isValidUTF8

theorem bytes_of_decode? {t s : String} (h : decode? t = some s) :
    (decodeBytes t.toList).toByteArray = s.toByteArray := by
  unfold decode? String.fromUTF8? at h
  split at h
  · next hvalid =>
    rw [← Option.some.inj h]
    rfl
  · cases h

/-- A component is the encoding of the text that it is decoded to. -/
theorem IsComponent.encode_of_decode? {t s : String} (h : IsComponent t)
    (hs : decode? t = some s) : encode s = t := by
  have hbytes : decodeBytes t.toList = s.toList.flatMap String.utf8EncodeChar := by
    have hsame := bytes_of_decode? hs
    rw [← String.utf8Encode_toList, List.utf8Encode] at hsame
    have hlists := congrArg (·.data.toList) hsame
    simpa only [List.toList_data_toByteArray] using hlists
  rw [← String.toList_inj, toList_encode, ← hbytes, h.canonical.encode_decodeBytes]

theorem IsComponent.exists_decode? {t : String} (h : IsComponent t) : ∃ s, decode? t = some s :=
  ⟨_, dif_pos h.utf8⟩

/-- Encoding is one to one onto the components. Decoding gives back the bytes of every text, a text
is an encoding exactly if it is a component, and each component is the encoding of the text that it
is decoded to. -/
theorem encode_image :
    (∀ s : String, (decodeBytes (encode s).toList).toByteArray = s.toUTF8) ∧
    (∀ s s' : String, encode s = encode s' → s = s') ∧
    (∀ t : String, (∃ s, encode s = t) ↔ IsComponent t) ∧
    ∀ t : String, IsComponent t → ∃ s, decode? t = some s ∧ encode s = t := by
  have hback : ∀ t : String, IsComponent t → ∃ s, decode? t = some s ∧ encode s = t := by
    intro t ht
    obtain ⟨s, hs⟩ := ht.exists_decode?
    exact ⟨s, hs, ht.encode_of_decode? hs⟩
  refine ⟨toByteArray_decodeBytes_encode, fun s s' => encode_injective, fun t => ⟨?_, ?_⟩, hback⟩
  · rintro ⟨s, rfl⟩
    exact isComponent_encode s
  · intro ht
    obtain ⟨s, -, hs⟩ := hback t ht
    exact ⟨s, hs⟩

/-- The two bytes of an accented letter make a component. Digits in lower case, an escape that was
not needed, one of the two bytes and a raw space do not. -/
theorem encode_image_of_accent :
    (IsComponent "caf%C3%A9" ∧
      ∃ s, s = "café" ∧ decode? "caf%C3%A9" = some s ∧ encode s = "caf%C3%A9") ∧
    ∀ t ∈ ["caf%c3%a9", "%41", "%C3", "a b"], ¬IsComponent t := by
  obtain ⟨-, -, himage, hback⟩ := encode_image
  have haccent : IsComponent "caf%C3%A9" := (himage _).mp ⟨"café", by decide⟩
  obtain ⟨s, hs, hencode⟩ := hback _ haccent
  have hread : decode? "caf%C3%A9" = some "café" := by decide +kernel
  refine ⟨⟨haccent, s, ?_, hs, hencode⟩, ?_⟩
  · exact Option.some.inj (hs.symm.trans hread)
  · intro t ht hcomponent
    obtain ⟨s, hs, hencode⟩ := hback t hcomponent
    -- What each of them is decoded to, if anything, is written in another way.
    have hother : ∀ t ∈ ["caf%c3%a9", "%41", "%C3", "a b"], (decode? t).map encode ≠ some t := by
      decide +kernel
    apply hother t ht
    rw [hs, Option.map_some, hencode]

end LegBoard.Text.Percent
