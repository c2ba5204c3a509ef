import LegBoard.Text.Percent

/-!
# Percent-decoding reads components back

The decoder below knows nothing of how components are written. It undoes every
escape it meets and takes all other characters as their own bytes, a percent
sign that starts no escape included, so it accepts more texts than the encoder
writes. The decoder of forms also takes a plus sign for a space. Both give back
every encoded text, because an encoded text holds a percent sign in escapes
only and no plus sign at all.
-/
namespace LegBoard.Text.Percent

def decodeBytes : List Char → List UInt8
  | [] => []
  | '%' :: a :: b :: cs =>
    match Hex.value? a, Hex.value? b with
    | some high, some low => .ofNat (16 * high + low) :: decodeBytes cs
    | _, _ => String.utf8EncodeChar '%' ++ decodeBytes (a :: b :: cs)
  | c :: cs => String.utf8EncodeChar c ++ decodeBytes cs

/-- The text that a component stands for, if its bytes are UTF-8. -/
def decode? (s : String) : Option String :=
  String.fromUTF8? (decodeBytes s.toList).toByteArray

/-- The text that a component of a form stands for, where a plus sign is a space. -/
def decodeForm? (s : String) : Option String :=
  decode? (String.ofList (s.toList.map fun c => if c = '+' then ' ' else c))

theorem value?_upper : ∀ n < 16, Hex.value? (Hex.upper n) = some n := by decide

theorem isUnreserved_upper : ∀ n < 16, isUnreserved (Hex.upper n) = true := by decide

theorem decodeBytes_encodeByte (b : UInt8) (rest : List Char) :
    decodeBytes (encodeByte b ++ rest) = b :: decodeBytes rest := by
  have hb : b.toNat < 256 := b.toNat_lt
  have hhigh := value?_upper (b.toNat / 16 % 16) (by omega)
  have hlow := value?_upper (b.toNat % 16) (by omega)
  have hsum : 16 * (b.toNat / 16 % 16) + b.toNat % 16 = b.toNat := by omega
  simp only [encodeByte, Hex.upperByte, List.cons_append, List.nil_append, decodeBytes]
  rw [hhigh, hlow]
  simp only [hsum, UInt8.ofNat_toNat]

theorem decodeBytes_flatMap_encodeByte (bs : List UInt8) (rest : List Char) :
    decodeBytes (bs.flatMap encodeByte ++ rest) = bs ++ decodeBytes rest := by
  induction bs with
  | nil => rfl
  | cons b bs ih =>
    rw [List.flatMap_cons, List.append_assoc, decodeBytes_encodeByte, ih, List.cons_append]

theorem decodeBytes_cons {c : Char} (hc : c ≠ '%') (rest : List Char) :
    decodeBytes (c :: rest) = String.utf8EncodeChar c ++ decodeBytes rest := by
  rw [decodeBytes]
  intro a b cs h
  exact absurd h hc

theorem ne_percent_of_isUnreserved {c : Char} (hc : isUnreserved c = true) : c ≠ '%' := by
  rintro rfl
  revert hc
  decide

theorem decodeBytes_encodeChar (c : Char) (rest : List Char) :
    decodeBytes (encodeChar c ++ rest) = String.utf8EncodeChar c ++ decodeBytes rest := by
  unfold encodeChar
  split
  · next hc => exact decodeBytes_cons (ne_percent_of_isUnreserved hc) rest
  · exact decodeBytes_flatMap_encodeByte _ rest

theorem decodeBytes_flatMap_encodeChar (cs : List Char) :
    decodeBytes (cs.flatMap encodeChar) = cs.flatMap String.utf8EncodeChar := by
  induction cs with
  | nil => rfl
  | cons c cs ih => rw [List.flatMap_cons, decodeBytes_encodeChar, ih, List.flatMap_cons]

theorem decode?_encode (s : String) : decode? (encode s) = some s := by
  have hbytes : (decodeBytes (encode s).toList).toByteArray = s.toByteArray := by
    rw [encode, String.toList_ofList, decodeBytes_flatMap_encodeChar, ← List.utf8Encode,
      String.utf8Encode_toList]
  rw [decode?, hbytes, String.fromUTF8?, dif_pos s.isValidUTF8]
  rfl

theorem encode_injective {s t : String} (h : encode s = encode t) : s = t := by
  have hs := decode?_encode s
  rw [h, decode?_encode t] at hs
  exact (Option.some.inj hs).symm

/-- An encoded text is made of characters that stand for themselves and percent signs. -/
theorem isUnreserved_or_percent_of_mem_encode {s : String} {c : Char}
    (hc : c ∈ (encode s).toList) : isUnreserved c = true ∨ c = '%' := by
  rw [encode, String.toList_ofList, List.mem_flatMap] at hc
  obtain ⟨d, -, hd⟩ := hc
  unfold encodeChar at hd
  split at hd
  · next hu =>
    rw [List.mem_singleton] at hd
    exact .inl (hd ▸ hu)
  · obtain ⟨b, -, hb⟩ := List.mem_flatMap.mp hd
    simp only [encodeByte, Hex.upperByte, List.mem_cons, List.not_mem_nil, or_false] at hb
    rcases hb with rfl | rfl | rfl
    · exact .inr rfl
    · exact .inl (isUnreserved_upper _ (Nat.mod_lt _ (by decide)))
    · exact .inl (isUnreserved_upper _ (Nat.mod_lt _ (by decide)))

/-- A character that has a meaning of its own in a URL does not occur in an encoded text. -/
theorem not_mem_encode {c : Char} (hc : isUnreserved c = false) (hp : c ≠ '%') (s : String) :
    c ∉ (encode s).toList := by
  intro h
  rcases isUnreserved_or_percent_of_mem_encode h with hu | rfl
  · rw [hc] at hu
    exact Bool.false_ne_true hu
  · exact hp rfl

/-- No plus sign is written, so the decoder of forms agrees with the plain one. -/
theorem decodeForm?_encode (s : String) : decodeForm? (encode s) = some s := by
  have hplus : ∀ c ∈ (encode s).toList, (if c = '+' then ' ' else c) = id c := by
    intro c hc
    refine if_neg ?_
    rintro rfl
    exact not_mem_encode (by decide) (by decide) s hc
  rw [decodeForm?, List.map_congr_left hplus, List.map_id, String.ofList_toList, decode?_encode]

end LegBoard.Text.Percent
