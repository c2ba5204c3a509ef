import LegBoard.Colour.Contrast
import LegBoard.Proofs.Colour.Spelling
import LegBoard.Proofs.Json.Strings
import LegBoard.Proofs.Text.Components

/-!
# Which colour a text spells

The block of digits in a text names its colour: six digits are the three parts in hexadecimal, in
either letter case, and three digits name the colour of the six that they are doubled to. The same
reading can be done on the bytes of the text, with slices at fixed places and with products that
have to fit into a byte. Nothing goes wrong in that, because the block is known to be ASCII before
it is cut. The text on a background depends on the colour that is read and on nothing else.
-/
namespace LegBoard.Colour

open LegBoard.Text.Hex (value? number? lower lowerByte)

/-! ## The digits of a colour -/

/-- The six digits of a colour, in lower case. -/
def Rgb.hex (c : Rgb) : List Char :=
  lowerByte c.red.toNat ++ (lowerByte c.green.toNat ++ lowerByte c.blue.toNat)

/-- A block of three digits with each of them doubled. -/
def sixDigits (ds : List Char) : List Char :=
  if ds.length = 3 then ds.flatMap fun d => [d, d] else ds

/-- The digits of a block spell a colour, in either letter case. -/
def Spells (ds : List Char) (c : Rgb) : Prop := (sixDigits ds).map Char.toLower = c.hex

theorem value?_lower : ∀ n < 16, value? (lower n) = some n := by decide

theorem eq_lower_of_value? {d : Char} {n : Nat} (h : value? d = some n) :
    n < 16 ∧ d.toLower = lower n := by
  -- All digits are of ASCII, so that every one of them can be looked at.
  have hcheck : ∀ m < 128, (value? (Char.ofNat m)).all
      (fun n => n < 16 && (Char.ofNat m).toLower == lower n) = true := by decide
  have hrange := range_of_value? (c := d) (by rw [h]; rfl)
  have hd := hcheck d.toNat (by omega)
  rw [Char.ofNat_toNat, h] at hd
  simpa using hd

theorem lowerByte_injective {a b : UInt8} (h : lowerByte a.toNat = lowerByte b.toNat) : a = b := by
  have ha := a.toNat_lt
  have hb := b.toNat_lt
  simp only [lowerByte, List.cons.injEq, and_true] at h
  have hhigh := value?_lower (a.toNat / 16 % 16) (by omega)
  have hlow := value?_lower (a.toNat % 16) (by omega)
  rw [h.1, value?_lower _ (by omega), Option.some.injEq] at hhigh
  rw [h.2, value?_lower _ (by omega), Option.some.injEq] at hlow
  exact UInt8.toNat_inj.mp (by omega)

theorem Rgb.hex_injective {c d : Rgb} (h : c.hex = d.hex) : c = d := by
  obtain ⟨hred, hrest⟩ := List.append_inj h rfl
  obtain ⟨hgreen, hblue⟩ := List.append_inj hrest rfl
  cases c
  cases d
  rw [Rgb.mk.injEq]
  exact ⟨lowerByte_injective hred, lowerByte_injective hgreen, lowerByte_injective hblue⟩

theorem mapM_cons_eq_some {α β : Type} {f : α → Option β} {a : α} {as : List α} {b : β}
    {bs : List β} : (a :: as).mapM f = some (b :: bs) ↔ f a = some b ∧ as.mapM f = some bs := by
  rw [List.mapM_cons]
  cases f a <;> cases as.mapM f <;> simp

theorem map_toLower_of_mapM {ds : List Char} {ns : List Nat} (h : ds.mapM value? = some ns) :
    ds.map Char.toLower = ns.map lower ∧ ∀ n ∈ ns, n < 16 := by
  induction ds generalizing ns with
  | nil =>
    cases h
    exact ⟨rfl, nofun⟩
  | cons d ds ih =>
    rw [List.mapM_cons] at h
    obtain ⟨n, hn, h⟩ := Option.bind_eq_some_iff.mp h
    obtain ⟨ns', hns, h⟩ := Option.bind_eq_some_iff.mp h
    cases h
    obtain ⟨hlt, hlower⟩ := eq_lower_of_value? hn
    obtain ⟨hmap, hall⟩ := ih hns
    refine ⟨?_, List.forall_mem_cons.mpr ⟨hlt, hall⟩⟩
    rw [List.map_cons, List.map_cons, hlower, hmap]

/-- Two digits make a byte, of which they are the digits. -/
theorem lowerByte_ofNat {high low : Nat} (hhigh : high < 16) (hlow : low < 16) :
    lowerByte (UInt8.ofNat (16 * high + low)).toNat = [lower high, lower low] := by
  have hbyte : (UInt8.ofNat (16 * high + low)).toNat = 16 * high + low := by
    rw [UInt8.toNat_ofNat']
    omega
  have hfirst : (16 * high + low) / 16 % 16 = high := by omega
  have hsecond : (16 * high + low) % 16 = low := by omega
  rw [hbyte, lowerByte, hfirst, hsecond]

theorem spells_of_ofDigits? {ds : List Char} {ns : List Nat} {c : Rgb}
    (hns : ds.mapM value? = some ns) (hc : Rgb.ofDigits? ns = some c) : Spells ds c := by
  obtain ⟨hlen, -⟩ := length_of_mapM hns
  obtain ⟨hmap, hlt⟩ := map_toLower_of_mapM hns
  unfold Rgb.ofDigits? at hc
  split at hc
  · next r g b =>
    cases hc
    simp only [List.forall_mem_cons] at hlt
    obtain ⟨hr, hg, hb, -⟩ := hlt
    have hdouble : ∀ n < 16, lowerByte (UInt8.ofNat (17 * n)).toNat = [lower n, lower n] := by
      intro n hn
      have hsum : 17 * n = 16 * n + n := by omega
      rw [hsum, lowerByte_ofNat hn hn]
    have hthree : (ds.flatMap fun d => [d, d]).map Char.toLower =
        (ds.map Char.toLower).flatMap fun d => [d, d] := by
      rw [List.map_flatMap, List.flatMap_map]
      rfl
    have hlen : ds.length = 3 := hlen.symm
    rw [Spells, sixDigits, if_pos hlen, hthree, hmap, Rgb.hex, hdouble r hr, hdouble g hg,
      hdouble b hb]
    rfl
  · next r r' g g' b b' =>
    cases hc
    simp only [List.forall_mem_cons] at hlt
    obtain ⟨hr, hr', hg, hg', hb, hb', -⟩ := hlt
    have hlen : ds.length = 6 := hlen.symm
    rw [Spells, sixDigits, if_neg (by omega), hmap, Rgb.hex, lowerByte_ofNat hr hr',
      lowerByte_ofNat hg hg', lowerByte_ofNat hb hb']
    rfl
  · cases hc

theorem spells_of_parse? {s : String} {c : Rgb} (h : Rgb.parse? s = some c) :
    Spells (Rgb.digits s) c := by
  obtain ⟨ns, hns, hc⟩ := Option.bind_eq_some_iff.mp h
  exact spells_of_ofDigits? hns hc

/-- The colour of a text is the one that the digits of its block spell. -/
theorem parse?_eq_some_iff {s : String} {c : Rgb} : Rgb.parse? s = some c ↔
    ∃ before hashes ds behind, Parts before hashes ds behind ∧
      s.toList = before ++ (hashes ++ (ds ++ behind)) ∧ Spells ds c := by
  constructor
  · intro h
    obtain ⟨before, hashes, behind, hparts, hs⟩ := Rgb.exists_parts (by rw [h]; rfl)
    exact ⟨before, hashes, _, behind, hparts, hs, spells_of_parse? h⟩
  · rintro ⟨before, hashes, ds, behind, hparts, hs, hspells⟩
    have hdigits := Rgb.digits_ofParts hparts hs
    have hblock := hparts.block
    rw [← hdigits, ← Rgb.parse?_isSome_iff, Option.isSome_iff_exists] at hblock
    obtain ⟨c', hc'⟩ := hblock
    have hspells' := spells_of_parse? hc'
    rw [hdigits] at hspells'
    rw [hc', Rgb.hex_injective (hspells'.symm.trans hspells)]

/-! ## Reading byte by byte -/

/-- What can go wrong where a text is cut at bytes and counted in bytes. -/
inductive Mishap where
  /-- A slice starts or ends within a character or behind the text. -/
  | slice
  /-- A product does not fit into a byte. -/
  | overflow
  /-- There are more or fewer digits than places for them. -/
  | place

def isDigitByte (b : UInt8) : Bool :=
  (48 ≤ b.toNat && b.toNat ≤ 57) || (65 ≤ b.toNat && b.toNat ≤ 70) ||
    (97 ≤ b.toNat && b.toNat ≤ 102)

/-- What is behind a number of bytes. -/
def dropBytes : Nat → List Char → Except Mishap (List Char)
  | 0, cs => .ok cs
  | _ + 1, [] => .error .slice
  | n + 1, c :: cs =>
    if c.utf8Size ≤ n + 1 then dropBytes (n + 1 - c.utf8Size) cs else .error .slice

/-- What a number of bytes hold. -/
def takeBytes : Nat → List Char → Except Mishap (List Char)
  | 0, _ => .ok []
  | _ + 1, [] => .error .slice
  | n + 1, c :: cs =>
    if c.utf8Size ≤ n + 1 then (takeBytes (n + 1 - c.utf8Size) cs).map (c :: ·)
    else .error .slice

/-- The digits between two bytes, as a number. One that is no byte counts as no number. -/
def byteBetween (start stop : Nat) (cs : List Char) : Except Mishap (Option UInt8) := do
  let ds ← takeBytes (stop - start) (← dropBytes start cs)
  return (number? ds).bind fun n => if n < 256 then some (.ofNat n) else none

/-- A digit times seventeen. -/
def doubledDigit (n : Nat) : Except Mishap UInt8 :=
  if 17 * n < 256 then .ok (.ofNat (17 * n)) else .error .overflow

/-- A colour of three digits, which are doubled one after the other. -/
def readThree (cs : List Char) : Except Mishap (Option Rgb) :=
  match cs.mapM value? with
  | none => .ok none
  | some [r, g, b] => do
    return some ⟨← doubledDigit r, ← doubledDigit g, ← doubledDigit b⟩
  | some _ => .error .place

/-- A colour of six digits, which are cut in pairs. -/
def readSix (cs : List Char) : Except Mishap (Option Rgb) := do
  let red ← byteBetween 0 2 cs
  let green ← byteBetween 2 4 cs
  let blue ← byteBetween 4 6 cs
  return do some ⟨← red, ← green, ← blue⟩

/-- The colour of a text, read by its bytes. They all have to be digits, and their number decides
how they are read. -/
def readBytes (s : String) : Except Mishap (Option Rgb) :=
  let cs := Rgb.digits s
  let bytes := cs.flatMap String.utf8EncodeChar
  if !bytes.all isDigitByte then .ok none
  else match bytes.length with
    | 3 => readThree cs
    | 6 => readSix cs
    | _ => .ok none

/-- A character consists of bytes that are digits exactly if it is a digit itself. -/
theorem all_isDigitByte (c : Char) :
    (String.utf8EncodeChar c).all isDigitByte = (value? c).isSome := by
  rcases Text.Percent.utf8EncodeChar_cases c with ⟨hascii, hbytes⟩ | ⟨hlarge, hbytes⟩
  · have hcheck : ∀ n < 128, isDigitByte (.ofNat n) = (value? (Char.ofNat n)).isSome := by decide
    have hc := hcheck c.toNat hascii
    rw [Char.ofNat_toNat] at hc
    rw [hbytes, List.all_cons, List.all_nil, Bool.and_true, hc]
  · have hdigit : (value? c).isSome = false := by
      rw [Bool.eq_false_iff]
      intro hvalue
      have hrange := range_of_value? hvalue
      omega
    rw [hdigit, List.all_eq_false]
    obtain ⟨b, bs, hb⟩ := List.exists_cons_of_ne_nil (String.utf8EncodeChar_ne_nil (c := c))
    have hmem : b ∈ String.utf8EncodeChar c := by
      rw [hb]
      exact List.mem_cons_self
    have hb' := hbytes b hmem
    refine ⟨b, hmem, ?_⟩
    simp only [isDigitByte, Bool.or_eq_true, Bool.and_eq_true, decide_eq_true_eq]
    omega

theorem all_isDigitByte_flatMap (cs : List Char) :
    (cs.flatMap String.utf8EncodeChar).all isDigitByte = cs.all fun c => (value? c).isSome := by
  rw [List.all_flatMap]
  exact congrArg cs.all (funext all_isDigitByte)

/-- A text of digits has as many bytes as characters. -/
theorem length_bytes {cs : List Char} (h : ∀ c ∈ cs, (value? c).isSome) :
    (cs.flatMap String.utf8EncodeChar).length = cs.length := by
  induction cs with
  | nil => rfl
  | cons c cs ih =>
    obtain ⟨hc, hcs⟩ := List.forall_mem_cons.mp h
    obtain ⟨n, hn⟩ := Option.isSome_iff_exists.mp hc
    rw [List.flatMap_cons, List.length_append, String.length_utf8EncodeChar,
      Json.utf8Size_of_value? hn, ih hcs, List.length_cons, Nat.add_comm]

theorem takeBytes_digits {ds : List Char} (h : ∀ d ∈ ds, (value? d).isSome) (rest : List Char) :
    takeBytes ds.length (ds ++ rest) = .ok ds := by
  induction ds with
  | nil => exact takeBytes.eq_1 rest
  | cons d ds ih =>
    obtain ⟨hd, hds⟩ := List.forall_mem_cons.mp h
    obtain ⟨n, hn⟩ := Option.isSome_iff_exists.mp hd
    have hsize := Json.utf8Size_of_value? hn
    rw [List.length_cons, List.cons_append, takeBytes, if_pos (by omega), hsize,
      Nat.add_sub_cancel, ih hds]
    rfl

theorem dropBytes_digits {ds : List Char} (h : ∀ d ∈ ds, (value? d).isSome) (rest : List Char) :
    dropBytes ds.length (ds ++ rest) = .ok rest := by
  induction ds with
  | nil => exact dropBytes.eq_1 rest
  | cons d ds ih =>
    obtain ⟨hd, hds⟩ := List.forall_mem_cons.mp h
    obtain ⟨n, hn⟩ := Option.isSome_iff_exists.mp hd
    have hsize := Json.utf8Size_of_value? hn
    rw [List.length_cons, List.cons_append, dropBytes, if_pos (by omega), hsize,
      Nat.add_sub_cancel, ih hds]

/-- Between two bytes of a text of digits stands the number of the digits there. -/
theorem byteBetween_pair (before behind : List Char) {d d' : Char} {high low : Nat}
    (hbefore : ∀ c ∈ before, (value? c).isSome) (hd : value? d = some high)
    (hd' : value? d' = some low) :
    byteBetween before.length (before.length + 2) (before ++ d :: d' :: behind) =
      .ok (some (.ofNat (16 * high + low))) := by
  have hpair : ∀ c ∈ [d, d'], (value? c).isSome := by simp [hd, hd']
  have hhigh := (eq_lower_of_value? hd).1
  have hlow := (eq_lower_of_value? hd').1
  have htake := takeBytes_digits hpair behind
  have hnumber : number? [d, d'] = some (16 * high + low) := by
    simp [number?, hd, hd']
  rw [byteBetween, dropBytes_digits hbefore, Nat.add_sub_cancel_left]
  change (takeBytes [d, d'].length ([d, d'] ++ behind) >>= _) = _
  rw [htake]
  change Except.ok ((number? [d, d']).bind _) = _
  rw [hnumber, Option.bind_some, if_pos (by omega)]

theorem doubledDigit_of_lt {n : Nat} (h : n < 16) :
    doubledDigit n = .ok (.ofNat (17 * n)) := if_pos (by omega)

theorem readThree_eq {cs : List Char} {ns : List Nat} (hns : cs.mapM value? = some ns)
    (hlen : cs.length = 3) : readThree cs = .ok (Rgb.ofDigits? ns) := by
  obtain ⟨-, hlt⟩ := map_toLower_of_mapM hns
  obtain ⟨hlen', -⟩ := length_of_mapM hns
  match ns, hlen'.trans hlen with
  | [r, g, b], _ =>
    simp only [List.forall_mem_cons] at hlt
    obtain ⟨hr, hg, hb, -⟩ := hlt
    rw [readThree, hns]
    dsimp only
    rw [doubledDigit_of_lt hr, doubledDigit_of_lt hg, doubledDigit_of_lt hb]
    rfl

theorem readSix_eq {cs : List Char} {ns : List Nat} (hns : cs.mapM value? = some ns)
    (hlen : cs.length = 6) : readSix cs = .ok (Rgb.ofDigits? ns) := by
  obtain ⟨hlen', hdigits⟩ := length_of_mapM hns
  match cs, ns, hlen, hlen'.trans hlen with
  | [r, r', g, g', b, b'], [n₁, n₂, n₃, n₄, n₅, n₆], _, _ =>
    simp only [mapM_cons_eq_some] at hns
    obtain ⟨hr, hr', hg, hg', hb, hb', -⟩ := hns
    have hred := byteBetween_pair [] [g, g', b, b'] nofun hr hr'
    have hgreen := byteBetween_pair [r, r'] [b, b']
      (by simp [hr, hr']) hg hg'
    have hblue := byteBetween_pair [r, r', g, g'] []
      (by simp [hr, hr', hg, hg']) hb hb'
    simp only [List.length_cons, List.length_nil, List.cons_append, List.nil_append]
      at hred hgreen hblue
    rw [readSix, hred, hgreen, hblue]
    rfl

/-- Reading by bytes never goes wrong, and finds what reading by characters does. -/
theorem readBytes_eq (s : String) : readBytes s = .ok (Rgb.parse? s) := by
  rw [readBytes, Rgb.parse?]
  generalize Rgb.digits s = cs
  rw [all_isDigitByte_flatMap]
  cases hns : cs.mapM value? with
  | none =>
    have hall : (cs.all fun c => (value? c).isSome) = false := by
      rw [Bool.eq_false_iff]
      intro hall
      obtain ⟨ns, hns'⟩ := Rgb.exists_mapM (List.all_eq_true.mp hall)
      rw [hns] at hns'
      cases hns'
    rw [hall]
    rfl
  | some ns =>
    obtain ⟨hlen, hdigits⟩ := length_of_mapM hns
    rw [List.all_eq_true.mpr hdigits, length_bytes hdigits]
    change (match cs.length with | 3 => _ | 6 => _ | _ => _) = Except.ok (Rgb.ofDigits? ns)
    split
    · next hthree => exact readThree_eq hns hthree
    · next hsix => exact readSix_eq hns hsix
    · next hthree hsix =>
      have hnone : ¬(Rgb.ofDigits? ns).isSome := by
        rw [Rgb.ofDigits?_isSome_iff, hlen]
        rintro (h | h)
        · exact hthree h
        · exact hsix h
      rw [Option.not_isSome_iff_eq_none.mp hnone]

/-! ## The spelling decides -/

/-- A text is read as a colour exactly if it is made of the parts of one, the digits of its block
spell which colour that is, and nothing goes wrong while its bytes are read. Texts of the same
colour have the same text colour. -/
theorem parse?_spelling (s : String) :
    ((Rgb.parse? s).isSome ↔ ∃ before hashes ds behind, Parts before hashes ds behind ∧
      s.toList = before ++ (hashes ++ (ds ++ behind))) ∧
    (∀ c, Rgb.parse? s = some c ↔ ∃ before hashes ds behind, Parts before hashes ds behind ∧
      s.toList = before ++ (hashes ++ (ds ++ behind)) ∧ Spells ds c) ∧
    readBytes s = .ok (Rgb.parse? s) ∧
    ∀ t, Rgb.parse? t = Rgb.parse? s → textColour t = textColour s := by
  refine ⟨⟨fun h => ?_, ?_⟩, fun c => parse?_eq_some_iff, readBytes_eq s, fun t h => ?_⟩
  · obtain ⟨before, hashes, behind, hparts, hs⟩ := Rgb.exists_parts h
    exact ⟨before, hashes, _, behind, hparts, hs⟩
  · rintro ⟨before, hashes, ds, behind, hparts, hs⟩
    rw [Rgb.parse?_isSome_iff, Rgb.digits_ofParts hparts hs]
    exact hparts.block
  · rw [textColour, textColour, h]

/-- Blanks, hash signs, letter case and doubled digits make no difference to the text on a colour.
The three bytes of a euro sign are no three digits. -/
theorem spelling_of_three_digits :
    Rgb.parse? "\u00a0##eC3\n" = some ⟨0xEE, 0xCC, 0x33⟩ ∧
    Rgb.parse? "EEcc33" = Rgb.parse? "\u00a0##eC3\n" ∧
    textColour "EEcc33" = textColour "\u00a0##eC3\n" ∧ readBytes "€" = .ok none := by
  obtain ⟨-, hthree, -, hsame⟩ := parse?_spelling "\u00a0##eC3\n"
  obtain ⟨-, hsix, -, -⟩ := parse?_spelling "EEcc33"
  obtain ⟨-, -, hbytes, -⟩ := parse?_spelling "€"
  have hdoubled : Rgb.parse? "\u00a0##eC3\n" = some ⟨0xEE, 0xCC, 0x33⟩ :=
    (hthree _).mpr ⟨['\u00a0'], ['#', '#'], ['e', 'C', '3'], ['\n'],
      ⟨List.all_eq_true.mp rfl, by simp, ⟨by decide, List.all_eq_true.mp rfl⟩,
        List.all_eq_true.mp rfl⟩, rfl, rfl⟩
  have hfull : Rgb.parse? "EEcc33" = some ⟨0xEE, 0xCC, 0x33⟩ :=
    (hsix _).mpr ⟨[], [], ['E', 'E', 'c', 'c', '3', '3'], [],
      ⟨List.all_eq_true.mp rfl, by simp, ⟨by decide, List.all_eq_true.mp rfl⟩,
        List.all_eq_true.mp rfl⟩, rfl, rfl⟩
  have hequal := hfull.trans hdoubled.symm
  exact ⟨hdoubled, hequal, hsame _ hequal, hbytes.trans (congrArg Except.ok (by decide +kernel))⟩

end LegBoard.Colour
