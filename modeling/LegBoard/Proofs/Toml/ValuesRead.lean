import LegBoard.Proofs.Toml.ScalarsRead
import LegBoard.Proofs.Toml.StringsRead
import LegBoard.Proofs.Toml.Values

/-!
# What is read as a key or a value

What is taken off a text as a key or a value is one of the grammar. A comment that holds a control
is not passed to its end; that no item starts with one is why nothing else is read there.
-/
namespace LegBoard.Toml

/-! ## Between the tokens -/

theorem skipSpace_split (cs : List Char) : ∃ b, Spaces b ∧ cs = b ++ skipSpace cs :=
  ⟨cs.takeWhile isSpace, List.all_eq_true.mp List.all_takeWhile,
    List.takeWhile_append_dropWhile.symm⟩

theorem isPlain_of_isSpace {c : Char} (h : isSpace c = true) : isPlain c = true := by
  simp only [isSpace, Bool.or_eq_true, beq_iff_eq] at h
  rcases h with rfl | rfl <;> rfl

/-- A comment may be longer. -/
theorem Free.comment_cons {c : Char} {f : List Char} (hc : isPlain c = true)
    (h : Free ('#' :: f)) : Free ('#' :: c :: f) := by
  generalize hmark : '#' :: f = s at h
  cases h with
  | nil => cases hmark
  | space hspace =>
    cases hmark
    cases hspace
  | line hcomment he h =>
    cases hcomment with
    | absent => cases he <;> cases hmark
    | present hs =>
      cases hmark
      exact .line (.present (List.forall_mem_cons.mpr ⟨hc, hs⟩)) he h

theorem Free.line_cons {e f : List Char} (he : LineEnd e) (hf : Free f) (inComment : Bool) :
    Free (if inComment then '#' :: (e ++ f) else e ++ f) := by
  cases inComment with
  | false => exact .line .absent he hf
  | true => exact .line (.present (List.forall_mem_nil _)) he hf

/-- What is passed up to a character that may stand on a line is free, or the rest of a comment and
then free. -/
theorem skipFree_split {inComment : Bool} {cs t : List Char} {c : Char} (hc : isPlain c = true)
    (h : skipFree inComment cs = c :: t) :
    ∃ f, cs = f ++ c :: t ∧ Free (if inComment then '#' :: f else f) := by
  fun_induction skipFree inComment cs with
  | case1 => cases h
  | case2 inComment cs ih =>
    obtain ⟨f, rfl, hf⟩ := ih h
    exact ⟨['\r', '\n'] ++ f, rfl, hf.line_cons .both inComment⟩
  | case3 inComment d cs _ hcomment ih =>
    obtain ⟨f, rfl, hf⟩ := ih h
    obtain ⟨rfl, hd⟩ := Bool.and_eq_true_iff.mp hcomment
    exact ⟨d :: f, rfl, hf.comment_cons hd⟩
  | case4 inComment d cs _ hcomment hblank ih =>
    obtain ⟨f, rfl, hf⟩ := ih h
    rcases Bool.or_eq_true_iff.mp hblank with hspace | hfeed
    · rw [isPlain_of_isSpace hspace, Bool.and_true, Bool.not_eq_true] at hcomment
      rw [hcomment]
      exact ⟨d :: f, rfl, .space hspace hf⟩
    · obtain rfl := beq_iff_eq.mp hfeed
      exact ⟨['\n'] ++ f, rfl, hf.line_cons .feed inComment⟩
  | case5 inComment cs _ hcomment _ ih =>
    obtain ⟨f, rfl, hf⟩ := ih h
    have houtside : inComment = false := by
      cases inComment with
      | false => rfl
      | true => exact absurd rfl hcomment
    rw [houtside]
    exact ⟨'#' :: f, rfl, hf⟩
  | case6 inComment d cs _ hcomment =>
    cases h
    rw [hc, Bool.and_true, Bool.not_eq_true] at hcomment
    rw [hcomment]
    exact ⟨[], rfl, .nil⟩

/-! ## Characters of a line -/

theorem isPlain_of_range {a z c : Char} (ha : a ≤ c) (hz : c ≤ z) (hspace : 0x20 ≤ a.toNat)
    (hdelete : z.toNat < 0x7F) : isPlain c = true := by
  have hac : a.toNat ≤ c.toNat := UInt32.le_iff_toNat_le.mp ha
  have hcz : c.toNat ≤ z.toNat := UInt32.le_iff_toNat_le.mp hz
  simp only [isPlain, Bool.or_eq_true, Bool.and_eq_true, decide_eq_true_eq]
  exact .inr (by omega)

theorem isPlain_of_isSpellingChar {c : Char} (h : isSpellingChar c = true) : isPlain c = true := by
  simp only [isSpellingChar, isDigit, Bool.or_eq_true, Bool.and_eq_true, decide_eq_true_eq,
    beq_iff_eq, or_assoc] at h
  rcases h with ⟨ha, hz⟩ | ⟨ha, hz⟩ | ⟨ha, hz⟩ | rfl | rfl | rfl | rfl | rfl
  · exact isPlain_of_range ha hz (by decide) (by decide)
  · exact isPlain_of_range ha hz (by decide) (by decide)
  · exact isPlain_of_range ha hz (by decide) (by decide)
  all_goals rfl

theorem isSpellingChar_of_isBare {c : Char} (h : isBare c = true) : isSpellingChar c = true := by
  simp only [isBare, Bool.or_eq_true] at h
  simp only [isSpellingChar, Bool.or_eq_true]
  tauto

theorem StartsKey.plain {c : Char} (h : StartsKey c) : isPlain c = true := by
  rcases h with hbare | rfl | rfl
  · exact isPlain_of_isSpellingChar (isSpellingChar_of_isBare hbare)
  · rfl
  · rfl

/-! ## Keys -/

theorem keyPart?_eq_some {cs t : List Char} {name : String} (h : keyPart? cs = some (name, t)) :
    ∃ s, KeyPart name s ∧ cs = s ++ t := by
  unfold keyPart? at h
  split at h
  · obtain ⟨inside, s, hinside, rfl, rfl⟩ := basic_eq_some h
    exact ⟨_, .basic hinside, by simp only [List.cons_append, List.append_assoc, List.nil_append]⟩
  · obtain ⟨s, hs, rfl, rfl⟩ := literal_eq_some h
    exact ⟨_, .literal hs, by simp only [List.cons_append, List.append_assoc, List.nil_append]⟩
  · have hsplit : cs.takeWhile isBare ++ cs.dropWhile isBare = cs :=
      List.takeWhile_append_dropWhile
    have hbare : ∀ c ∈ cs.takeWhile isBare, isBare c = true :=
      List.all_eq_true.mp List.all_takeWhile
    dsimp only at h
    generalize cs.takeWhile isBare = part at h hsplit hbare
    split at h
    · cases h
    · next hne =>
      cases h
      obtain ⟨c, part, rfl⟩ := List.exists_cons_of_ne_nil hne
      exact ⟨c :: part, .bare hbare, hsplit.symm⟩

/-- A key is read with the blanks behind it. -/
theorem keyFrom_eq_some {clock cs t : List Char} {key : Key}
    (h : keyFrom clock cs = some (key, t)) :
    ∃ s b, KeyText key s ∧ Spaces b ∧ cs = s ++ (b ++ t) := by
  induction clock generalizing cs key with
  | nil => cases h
  | cons tick clock ih =>
    rw [keyFrom, Option.bind_eq_bind, Option.bind_eq_some_iff] at h
    obtain ⟨⟨part, rest⟩, hpart, h⟩ := h
    obtain ⟨s, hs, rfl⟩ := keyPart?_eq_some hpart
    obtain ⟨b, hb, hskip⟩ := skipSpace_split rest
    dsimp only at h
    split at h
    · next more hdot =>
      rw [Option.bind_eq_bind, Option.bind_eq_some_iff] at h
      obtain ⟨⟨⟨parents, name⟩, rest⟩, hkey, h⟩ := h
      cases h
      obtain ⟨s', b'', hs', hb'', hmore⟩ := ih hkey
      obtain ⟨b', hb', hskip'⟩ := skipSpace_split more
      refine ⟨s ++ (b ++ '.' :: (b' ++ s')), b'', .dotted hs hb hb' hs', hb'', ?_⟩
      rw [hskip, hdot, hskip', hmore]
      simp only [List.append_assoc, List.cons_append]
    · cases h
      exact ⟨s, b, .last hs, hb, congrArg (s ++ ·) hskip⟩

theorem key?_eq_some {cs t : List Char} {key : Key} (h : key? cs = some (key, t)) :
    ∃ s b, KeyText key s ∧ key.parents.length < greatestDepth ∧ Spaces b ∧ cs = s ++ (b ++ t) := by
  rw [key?, Option.bind_eq_bind, Option.bind_eq_some_iff] at h
  obtain ⟨⟨key, rest⟩, hkey, h⟩ := h
  dsimp only at h
  split at h
  · next hlimit =>
    cases h
    obtain ⟨s, b, hs, hb, rfl⟩ := keyFrom_eq_some hkey
    exact ⟨s, b, hs, hlimit, hb, rfl⟩
  · cases h

/-! ## Items -/

/-- What is taken for an item is spelt as one, and no item starts with a control. -/
structure TakesItems {α : Type} (item : α → List Char → Prop)
    (read : List Char → Option (α × List Char)) : Prop where
  plain {a : α} {s : List Char} (h : item a s) : ∃ c s', s = c :: s' ∧ isPlain c = true
  takes {a : α} {cs t : List Char} (h : read cs = some (a, t)) : ∃ s, item a s ∧ cs = s ++ t

section Items

variable {α : Type} {close : Char} {item : α → List Char → Prop}
  {read : List Char → Option (α × List Char)}

/-- An item is read behind what is free. -/
theorem TakesItems.takes_skipFree (htakes : TakesItems item read) {a : α} {cs t : List Char}
    (h : read (skipFree false cs) = some (a, t)) :
    ∃ f s, Free f ∧ item a s ∧ cs = f ++ (s ++ t) := by
  obtain ⟨s, hs, hskip⟩ := htakes.takes h
  obtain ⟨c, s', rfl, hc⟩ := htakes.plain hs
  obtain ⟨f, rfl, hf⟩ := skipFree_split hc hskip
  exact ⟨f, c :: s', hf, hs, rfl⟩

/-- Items are read up to the closing bracket. -/
theorem TakesItems.items (htakes : TakesItems item read) (hclose : isPlain close = true)
    {clock cs t : List Char} {as : List α} (h : items? close read clock cs = some (as, t)) :
    ∃ s, ItemsText close item as s ∧ cs = s ++ t := by
  induction clock generalizing cs as with
  | nil => cases h
  | cons tick clock ih =>
    unfold items? at h
    split at h
    · cases h
    · next c rest hskip =>
      split at h
      · next hc =>
        cases h
        subst hc
        obtain ⟨f, rfl, hf⟩ := skipFree_split hclose hskip
        exact ⟨f ++ [c], .nil hf, by rw [List.append_assoc, List.singleton_append]⟩
      · rw [Option.bind_eq_bind, Option.bind_eq_some_iff] at h
        obtain ⟨⟨a, more⟩, hitem, h⟩ := h
        rw [← hskip] at hitem
        obtain ⟨f, s, hf, hs, rfl⟩ := htakes.takes_skipFree hitem
        dsimp only at h
        split at h
        · cases h
        · next d rest hskip' =>
          split at h
          · next hd =>
            cases h
            subst hd
            obtain ⟨f', rfl, hf'⟩ := skipFree_split hclose hskip'
            exact ⟨f ++ (s ++ (f' ++ [d])), .last hf hs hf', by simp⟩
          split at h
          · next hd =>
            subst hd
            obtain ⟨f', rfl, hf'⟩ := skipFree_split rfl hskip'
            rw [Option.bind_eq_bind, Option.bind_eq_some_iff] at h
            obtain ⟨⟨as, rest⟩, hrest, h⟩ := h
            cases h
            obtain ⟨s', hs', rfl⟩ := ih hrest
            exact ⟨f ++ (s ++ (f' ++ ',' :: s')), .cons hf hs hf' hs', by simp⟩
          · cases h

end Items

/-- A key with its value is read if the value is. -/
theorem TakesItems.pair {value : Value → List Char → Prop}
    {read : List Char → Option (Value × List Char)} (htakes : TakesItems value read) :
    TakesItems (PairText (reading true) value) (pair? read) where
  plain := by
    intro pair s h
    cases h with
    | mk hkey =>
      obtain ⟨c, s', rfl, hc⟩ := hkey.head
      exact ⟨c, _, rfl, hc.plain⟩
  takes := by
    intro pair cs t h
    rw [pair?, Option.bind_eq_bind, Option.bind_eq_some_iff] at h
    obtain ⟨⟨key, rest⟩, hkey, h⟩ := h
    dsimp only at h
    split at h
    · next rest =>
      rw [Option.bind_eq_bind, Option.bind_eq_some_iff] at h
      obtain ⟨⟨v, rest'⟩, hvalue, h⟩ := h
      cases h
      obtain ⟨s, b, hs, hlimit, hb, rfl⟩ := key?_eq_some hkey
      obtain ⟨b', hb', hskip⟩ := skipSpace_split rest
      obtain ⟨s', hs', hvalue⟩ := htakes.takes hvalue
      refine ⟨s ++ (b ++ '=' :: (b' ++ s')), .mk hs hlimit hb hb' hs', ?_⟩
      rw [hskip, hvalue]
      simp only [List.append_assoc, List.cons_append]
    · cases h

/-! ## Values -/

theorem PlainText.plain {v : Value} {s : List Char} (h : PlainText (reading true) v s) :
    ∃ c s', s = c :: s' ∧ isPlain c = true := by
  cases h with
  | text h =>
    obtain ⟨mark, s', rfl, rfl | rfl⟩ := h.head
    · exact ⟨'"', s', rfl, rfl⟩
    · exact ⟨'\'', s', rfl, rfl⟩
  | scalar h =>
    obtain ⟨c, s', rfl, hc⟩ := h.head
    exact ⟨c, s', rfl, isPlain_of_isSpellingChar hc⟩

/-- What does not start with a bracket is a value that holds no others. -/
theorem plainText_of_valueWith? {inner : Option (List Char → Option (Value × List Char))} {c : Char}
    {cs t : List Char} {v : Value} (hbracket : c ≠ '[') (hbrace : c ≠ '{')
    (h : valueWith? inner (c :: cs) = some (v, t)) :
    ∃ s, PlainText (reading true) v s ∧ c :: cs = s ++ t := by
  unfold valueWith? at h
  dsimp only at h
  split at h
  · next hmark =>
    rw [Option.bind_eq_bind, Option.bind_eq_some_iff] at h
    obtain ⟨⟨text, rest⟩, hquoted, h⟩ := h
    cases h
    obtain ⟨s, hs, rfl⟩ := quoted?_eq_some hmark hquoted
    exact ⟨c :: s, .text hs, rfl⟩
  · obtain ⟨s, hs, heq⟩ := scalar?_eq_some h
    exact ⟨s, .scalar hs, heq⟩

theorem takesItems_plain : TakesItems (PlainText (reading true)) (valueWith? none) where
  plain := PlainText.plain
  takes := by
    intro v cs t h
    cases cs with
    | nil => cases h
    | cons c cs =>
      by_cases hbracket : c = '['
      · subst hbracket
        cases h
      by_cases hbrace : c = '{'
      · subst hbrace
        cases h
      exact plainText_of_valueWith? hbracket hbrace h

/-- A value is read if the values inside it are. -/
theorem TakesItems.over {inner : Value → List Char → Prop}
    {read : List Char → Option (Value × List Char)} (htakes : TakesItems inner read) :
    TakesItems (ValueOver (reading true) inner) (valueWith? (some read)) where
  plain := by
    intro v s h
    cases h with
    | plain h => exact h.plain
    | array => exact ⟨'[', _, rfl, rfl⟩
    | table => exact ⟨'{', _, rfl, rfl⟩
  takes := by
    intro v cs t h
    cases cs with
    | nil => cases h
    | cons c cs =>
      by_cases hbracket : c = '['
      · subst hbracket
        change (items? ']' read cs cs).bind _ = _ at h
        obtain ⟨⟨vs, rest⟩, hitems, h⟩ := Option.bind_eq_some_iff.mp h
        cases h
        obtain ⟨s, hs, rfl⟩ := htakes.items rfl hitems
        exact ⟨'[' :: s, .array hs, rfl⟩
      by_cases hbrace : c = '{'
      · subst hbrace
        change (items? '}' (pair? read) cs cs).bind _ = _ at h
        obtain ⟨⟨pairs, rest⟩, hitems, h⟩ := Option.bind_eq_some_iff.mp h
        obtain ⟨⟨origin, entries⟩, hentries, h⟩ := Option.bind_eq_some_iff.mp h
        cases h
        obtain ⟨s, hs, rfl⟩ := htakes.pair.items rfl hitems
        have hgains := gainsAll_of_insertAll hentries
        obtain rfl : origin = .inlined := hgains.origin_eq
        exact ⟨'{' :: s, .table hs hgains, rfl⟩
      obtain ⟨s, hs, heq⟩ := plainText_of_valueWith? hbracket hbrace h
      exact ⟨s, .plain hs, heq⟩

/-- What is read as a value is one, however deep. -/
theorem takesItems_value :
    ∀ depth : Nat, TakesItems (ValueText (reading true) depth) (value? depth)
  | 0 => takesItems_plain
  | depth + 1 => (takesItems_value depth).over

end LegBoard.Toml
