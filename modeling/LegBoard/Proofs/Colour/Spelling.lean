import LegBoard.Colour.Rgb
import LegBoard.Proofs.Fallible
import LegBoard.Proofs.Text.Runs

/-!
# How colours are spelt

A text is read as a colour exactly if it consists of blanks, hash signs, a block of three or six
hexadecimal digits and blanks, in this order. The block alone decides which colour it is. Nothing
is said here of what a style sheet makes of such a text.
-/
namespace LegBoard.Colour

open LegBoard.Text (isBlank trim dropWhile_append_stop)
open LegBoard.Text.Hex (value?)

/-! ## Digits and the characters around them -/

/-- Three or six hexadecimal digits. -/
structure DigitBlock (ds : List Char) : Prop where
  length_eq : ds.length = 3 ∨ ds.length = 6
  isDigit : ∀ d ∈ ds, (value? d).isSome

/-- What a text that is read as a colour consists of. -/
structure Parts (before hashes ds behind : List Char) : Prop where
  before : ∀ c ∈ before, isBlank c = true
  hashes : ∀ c ∈ hashes, c = '#'
  block : DigitBlock ds
  behind : ∀ c ∈ behind, isBlank c = true

theorem DigitBlock.ne_nil {ds : List Char} (h : DigitBlock ds) : ds ≠ [] := by
  rintro rfl
  have hlen := h.length_eq
  rw [List.length_nil] at hlen
  omega

theorem ne_hash_of_value? {c : Char} (h : (value? c).isSome) : c ≠ '#' := by
  rintro rfl
  cases h

theorem range_of_value? {c : Char} (h : (value? c).isSome) :
    (48 ≤ c.toNat ∧ c.toNat ≤ 57) ∨ (97 ≤ c.toNat ∧ c.toNat ≤ 102) ∨
      (65 ≤ c.toNat ∧ c.toNat ≤ 70) := by
  unfold value? at h
  split at h
  · next hdigit => exact .inl hdigit
  · split at h
    · next hlower => exact .inr (.inl hlower)
    · split at h
      · next hupper => exact .inr (.inr hupper)
      · cases h

/-- No blank lies in one of the three ranges of digits. -/
theorem isBlank_of_value? {c : Char} (h : (value? c).isSome) : isBlank c = false := by
  have hrange := range_of_value? h
  cases hblank : isBlank c with
  | false => rfl
  | true =>
    simp only [isBlank, Bool.or_eq_true, Bool.and_eq_true, decide_eq_true_eq, beq_iff_eq] at hblank
    omega

theorem isBlank_hash : isBlank '#' = false := by decide

/-! ## Trimming -/

/-- What is dropped from the front of a text ends where the text has a character of another
kind. -/
theorem trim_append {before cs behind : List Char} (hbefore : ∀ c ∈ before, isBlank c = true)
    (hbehind : ∀ c ∈ behind, isBlank c = true) (hne : cs ≠ [])
    (hfirst : ∀ c ∈ cs.head?, isBlank c = false) (hlast : ∀ c ∈ cs.getLast?, isBlank c = false) :
    trim (before ++ (cs ++ behind)) = cs := by
  have hfront : (before ++ (cs ++ behind)).dropWhile isBlank = cs ++ behind := by
    apply dropWhile_append_stop hbefore
    obtain ⟨c, cs, rfl⟩ := List.exists_cons_of_ne_nil hne
    exact hfirst
  have hback : (behind.reverse ++ cs.reverse).dropWhile isBlank = cs.reverse := by
    apply dropWhile_append_stop
    · intro c hc
      exact hbehind c (List.mem_reverse.mp hc)
    · rwa [List.head?_reverse]
  rw [trim, hfront, List.reverse_append, hback, List.reverse_reverse]

theorem exists_trim (cs : List Char) :
    ∃ before behind, (∀ c ∈ before, isBlank c = true) ∧ (∀ c ∈ behind, isBlank c = true) ∧
      cs = before ++ (trim cs ++ behind) := by
  have htake : ∀ ds : List Char, ∀ c ∈ ds.takeWhile isBlank, isBlank c = true := by
    intro ds c hc
    exact List.all_eq_true.mp List.all_takeWhile c hc
  refine ⟨cs.takeWhile isBlank, ((cs.dropWhile isBlank).reverse.takeWhile isBlank).reverse,
    htake cs, ?_, ?_⟩
  · intro c hc
    exact htake _ c (List.mem_reverse.mp hc)
  · have hback := (cs.dropWhile isBlank).reverse.takeWhile_append_dropWhile (p := isBlank)
    rw [trim, ← List.reverse_append, hback, List.reverse_reverse,
      List.takeWhile_append_dropWhile]

/-! ## Which texts are colours -/

namespace Rgb

theorem exists_mapM {α β : Type} {f : α → Option β} {as : List α}
    (h : ∀ a ∈ as, (f a).isSome) : ∃ bs, as.mapM f = some bs := by
  induction as with
  | nil => exact ⟨[], rfl⟩
  | cons a as ih =>
    obtain ⟨ha, has⟩ := List.forall_mem_cons.mp h
    obtain ⟨b, hb⟩ := Option.isSome_iff_exists.mp ha
    obtain ⟨bs, hbs⟩ := ih has
    refine ⟨b :: bs, ?_⟩
    rw [List.mapM_cons, hb, hbs]
    rfl

theorem ofDigits?_isSome_iff {ns : List Nat} :
    (ofDigits? ns).isSome ↔ ns.length = 3 ∨ ns.length = 6 := by
  match ns with
  | [_, _, _] => exact iff_of_true rfl (.inl rfl)
  | [_, _, _, _, _, _] => exact iff_of_true rfl (.inr rfl)
  | [] | [_] | [_, _] | [_, _, _, _] | [_, _, _, _, _] => exact iff_of_false nofun (by simp)
  | _ :: _ :: _ :: _ :: _ :: _ :: _ :: ns =>
    refine iff_of_false nofun ?_
    simp only [List.length_cons]
    omega

/-- A text is a colour exactly if what it leaves within the blanks and behind the hash signs is a
block of digits. -/
theorem parse?_isSome_iff {s : String} : (parse? s).isSome ↔ DigitBlock (digits s) := by
  constructor
  · intro h
    obtain ⟨rgb, hrgb⟩ := Option.isSome_iff_exists.mp h
    obtain ⟨ns, hns, hrgb⟩ := Option.bind_eq_some_iff.mp hrgb
    obtain ⟨hlen, hdigits⟩ := length_of_mapM hns
    refine ⟨?_, hdigits⟩
    rw [← hlen, ← ofDigits?_isSome_iff, hrgb]
    rfl
  · intro h
    obtain ⟨ns, hns⟩ := exists_mapM h.isDigit
    obtain ⟨hlen, -⟩ := length_of_mapM hns
    have hcolour : parse? s = ofDigits? ns := by
      rw [parse?, hns]
      rfl
    rw [hcolour, ofDigits?_isSome_iff, hlen]
    exact h.length_eq

theorem parse?_congr {s t : String} (h : digits s = digits t) : parse? s = parse? t := by
  rw [parse?, parse?, h]

/-- The digits of a text are those of its block, whatever stands around that. -/
theorem digits_ofParts {before hashes ds behind : List Char} (h : Parts before hashes ds behind)
    {s : String} (hs : s.toList = before ++ (hashes ++ (ds ++ behind))) : digits s = ds := by
  have hplain : ∀ c ∈ hashes ++ ds, isBlank c = false := by
    intro c hc
    rcases List.mem_append.mp hc with hhash | hdigit
    · rw [h.hashes c hhash]
      exact isBlank_hash
    · exact isBlank_of_value? (h.block.isDigit c hdigit)
  have htrim : trim s.toList = hashes ++ ds := by
    rw [hs, ← List.append_assoc hashes]
    apply trim_append h.before h.behind
    · exact List.append_ne_nil_of_right_ne_nil _ h.block.ne_nil
    · exact fun c hc => hplain c (List.mem_of_head? hc)
    · exact fun c hc => hplain c (List.mem_of_getLast? hc)
  rw [digits, htrim]
  apply dropWhile_append_stop
  · intro c hc
    rw [h.hashes c hc]
    decide
  · intro c hc
    have hdigit := h.block.isDigit c (List.mem_of_head? hc)
    exact beq_false_of_ne (ne_hash_of_value? hdigit)

/-- Every text that is read as a colour has the parts of one. -/
theorem exists_parts {s : String} (h : (parse? s).isSome) :
    ∃ before hashes behind, Parts before hashes (digits s) behind ∧
      s.toList = before ++ (hashes ++ (digits s ++ behind)) := by
  obtain ⟨before, behind, hbefore, hbehind, hs⟩ := exists_trim s.toList
  have hsplit : (trim s.toList).takeWhile (· == '#') ++ digits s = trim s.toList :=
    List.takeWhile_append_dropWhile
  refine ⟨before, (trim s.toList).takeWhile (· == '#'), behind,
    ⟨hbefore, ?_, parse?_isSome_iff.mp h, hbehind⟩, ?_⟩
  · intro c hc
    exact beq_iff_eq.mp (List.all_eq_true.mp List.all_takeWhile c hc)
  · calc s.toList = before ++ (trim s.toList ++ behind) := hs
      _ = before ++ ((trim s.toList).takeWhile (· == '#') ++ digits s ++ behind) := by rw [hsplit]
      _ = _ := by rw [List.append_assoc (List.takeWhile _ _)]

end Rgb

end LegBoard.Colour
