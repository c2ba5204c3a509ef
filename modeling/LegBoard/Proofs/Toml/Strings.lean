import LegBoard.Proofs.Text.Runs
import LegBoard.Proofs.Toml.Grammar

/-!
# Reading strings

A string that the grammar spells is taken off the text, whatever follows it, so long as no quote
comes next. Every text can be spelt in double quotes on one line: quotes and backslashes with a
backslash before them, and controls by their number.
-/
namespace LegBoard.Toml

open LegBoard.Text (dropWhile_append_stop takeWhile_append_stop)

/-! ## Escapes -/

theorem numbered?_append {count : Nat} {c : Char} {ds : List Char} (hlen : ds.length = count)
    (h : Text.Hex.number? ds = some c.toNat) (t : List Char) :
    numbered? count (ds ++ t) = some (c, t) := by
  have hchar : char? c.toNat = some c := by
    have hvalid : c.toNat.isValidChar := c.valid
    rw [char?, if_pos hvalid, Char.ofNat_toNat]
  unfold numbered?
  rw [← hlen, List.take_left, List.drop_left, if_neg (Nat.lt_irrefl _), h]
  change (char? c.toNat).bind _ = _
  rw [hchar]
  rfl

theorem escape?_append {c : Char} {e : List Char} (h : Escape c e) (t : List Char) :
    escape? (e ++ t) = some (c, t) := by
  cases h with
  | short h =>
    simp only [shortEscapes, List.mem_cons, Prod.mk.injEq, List.not_mem_nil, or_false] at h
    rcases h with ⟨rfl, rfl⟩ | ⟨rfl, rfl⟩ | ⟨rfl, rfl⟩ | ⟨rfl, rfl⟩ | ⟨rfl, rfl⟩ | ⟨rfl, rfl⟩ |
      ⟨rfl, rfl⟩ | ⟨rfl, rfl⟩ <;> rfl
  | two hlen h => exact numbered?_append hlen h t
  | four hlen h => exact numbered?_append hlen h t
  | eight hlen h => exact numbered?_append hlen h t

/-- The letters that may follow a backslash, apart from blanks and line ends. -/
theorem Escape.head {c : Char} {e : List Char} (h : Escape c e) :
    ∃ letter e', e = letter :: e' ∧ isSpace letter = false ∧ letter ≠ '\n' ∧ letter ≠ '\r' := by
  cases h with
  | @short letter h =>
    refine ⟨letter, [], rfl, ?_⟩
    simp only [shortEscapes, List.mem_cons, Prod.mk.injEq, List.not_mem_nil, or_false] at h
    rcases h with ⟨rfl, -⟩ | ⟨rfl, -⟩ | ⟨rfl, -⟩ | ⟨rfl, -⟩ | ⟨rfl, -⟩ | ⟨rfl, -⟩ | ⟨rfl, -⟩ |
      ⟨rfl, -⟩ <;> decide
  | two => exact ⟨'x', _, rfl, by decide⟩
  | four => exact ⟨'u', _, rfl, by decide⟩
  | eight => exact ⟨'U', _, rfl, by decide⟩

/-! ## Strings on one line -/

theorem basicFrom_plain {c : Char} (hc : isPlain c = true) (hquote : c ≠ '"') (hslash : c ≠ '\\')
    (tick : Char) (clock taken t : List Char) :
    basicFrom (tick :: clock) taken (c :: t) = basicFrom clock (c :: taken) t := by
  rw [basicFrom.eq_def]
  split
  · next heq => cases heq
  · next heq =>
    cases heq
    split
    · next heq => cases heq
    · next heq => exact absurd (List.cons.inj heq).1 hquote
    · next heq => exact absurd (List.cons.inj heq).1 hslash
    · next heq =>
      cases heq
      exact if_pos hc

theorem basicFrom_escape {c : Char} {e : List Char} (he : Escape c e) (tick : Char)
    (clock taken t : List Char) :
    basicFrom (tick :: clock) taken ('\\' :: (e ++ t)) = basicFrom clock (c :: taken) t := by
  have hstep : basicFrom (tick :: clock) taken ('\\' :: (e ++ t)) =
      (escape? (e ++ t)).bind fun r => basicFrom clock (r.1 :: taken) r.2 := rfl
  rw [hstep, escape?_append he, Option.bind_some]

theorem basicFrom_inside {cs s : List Char} (h : BasicInside cs s) (t : List Char) :
    ∀ {clock taken : List Char}, s.length < clock.length →
      basicFrom clock taken (s ++ '"' :: t) = some (String.ofList (taken.reverse ++ cs), t) := by
  induction h with
  | nil =>
    rintro (_ | ⟨tick, clock⟩) taken hclock
    · cases hclock
    · rw [List.append_nil]
      rfl
  | plain hc hquote hslash _ ih =>
    rintro (_ | ⟨tick, clock⟩) taken hclock
    · cases hclock
    · rw [List.cons_append, basicFrom_plain hc hquote hslash, ih (Nat.lt_of_succ_lt_succ hclock),
        List.reverse_cons, List.append_assoc, List.singleton_append]
  | escape he _ ih =>
    rintro (_ | ⟨tick, clock⟩) taken hclock
    · cases hclock
    · rw [List.length_cons, List.length_append, List.length_cons] at hclock
      rw [List.cons_append, List.append_assoc, basicFrom_escape he, ih (by omega),
        List.reverse_cons, List.append_assoc, List.singleton_append]

theorem basic_inside {cs s : List Char} (h : BasicInside cs s) (t : List Char) :
    basic (s ++ '"' :: t) = some (String.ofList cs, t) := by
  apply basicFrom_inside h t
  rw [List.length_append, List.length_cons]
  omega

theorem literalFrom_inside {s : List Char} (h : LiteralInside s) (t : List Char) :
    ∀ {taken : List Char},
      literalFrom taken (s ++ '\'' :: t) = some (String.ofList (taken.reverse ++ s), t) := by
  induction s with
  | nil =>
    intro taken
    rw [List.append_nil]
    rfl
  | cons c s ih =>
    intro taken
    obtain ⟨⟨hc, hquote⟩, hs⟩ := List.forall_mem_cons.mp h
    rw [List.cons_append, literalFrom, if_neg hquote, if_pos hc, ih hs, List.reverse_cons,
      List.append_assoc, List.singleton_append]

theorem literal_inside {s : List Char} (h : LiteralInside s) (t : List Char) :
    literal (s ++ '\'' :: t) = some (String.ofList s, t) := literalFrom_inside h t

/-! ## Strings of many lines -/

theorem LineEnd.lineEnd?_append {e : List Char} (h : LineEnd e) (t : List Char) :
    lineEnd? (e ++ t) = some t := by
  cases h <;> rfl

theorem LineEnd.length_pos {e : List Char} (h : LineEnd e) : 0 < e.length := by
  cases h <;> decide

theorem lineEnd?_of_head {t : List Char} (h : ∀ c ∈ t.head?, c ≠ '\n' ∧ c ≠ '\r') :
    lineEnd? t = none := by
  cases t with
  | nil => rfl
  | cons c t =>
    obtain ⟨hfeed, hreturn⟩ := h c rfl
    unfold lineEnd?
    split
    · next heq => exact absurd (List.cons.inj heq).1 hfeed
    · next heq => exact absurd (List.cons.inj heq).1 hreturn
    · rfl

theorem skipLines_of_noBlank {t : List Char} (h : NoBlank t) : skipLines t = t := by
  cases t with
  | nil => rfl
  | cons c t =>
    obtain ⟨hspace, hfeed, hreturn⟩ := h c rfl
    unfold skipLines
    split
    · next heq => exact absurd (List.cons.inj heq).1 hreturn
    · next heq =>
      cases heq
      simp [hspace, hfeed]
    · next heq => cases heq

theorem skipLines_append {l : List Char} (hl : BlankLines l) {t : List Char} (ht : NoBlank t) :
    skipLines (l ++ t) = t := by
  induction hl with
  | nil => exact skipLines_of_noBlank ht
  | @space c s hc _ ih =>
    have hreturn : c ≠ '\r' := by
      rintro rfl
      cases hc
    rw [List.cons_append, skipLines.eq_def]
    simp [hreturn, hc, ih]
  | line he _ ih =>
    rw [List.append_assoc]
    cases he with
    | feed => rw [List.singleton_append, skipLines.eq_def]; simp [ih]
    | both => rw [List.cons_append, List.singleton_append, skipLines.eq_def]; simp [ih]

theorem continued?_escape {c : Char} {e : List Char} (h : Escape c e) (t : List Char) :
    continued? (e ++ t) = none := by
  obtain ⟨letter, e', rfl, hspace, hfeed, hreturn⟩ := h.head
  have hdrop : (letter :: e' ++ t).dropWhile isSpace = letter :: e' ++ t :=
    List.dropWhile_cons_of_neg (by rw [hspace]; decide)
  rw [continued?, hdrop, lineEnd?_of_head]
  · rfl
  · rintro d hd
    cases hd
    exact ⟨hfeed, hreturn⟩

theorem continued?_joined {b e l t : List Char} (hb : Spaces b) (he : LineEnd e)
    (hl : BlankLines l) (ht : NoBlank t) : continued? (b ++ (e ++ (l ++ t))) = some t := by
  have hdrop : (b ++ (e ++ (l ++ t))).dropWhile isSpace = e ++ (l ++ t) := by
    apply dropWhile_append_stop hb
    cases he <;> simp [isSpace]
  rw [continued?, hdrop, he.lineEnd?_append, Option.map_some, skipLines_append hl ht]

/-- Fewer than three marks do not close a string. -/
theorem closing?_eq_none {mark c : Char} {n : Nat} (hn : n ≤ 2) (hc : c ≠ mark) (t : List Char) :
    closing? mark (List.replicate n mark ++ c :: t) = none := by
  have htake : (List.replicate n mark ++ c :: t).takeWhile (· == mark) =
      List.replicate n mark := by
    apply takeWhile_append_stop
    · intro d hd
      exact beq_iff_eq.mpr (List.eq_of_mem_replicate hd)
    · rintro d hd
      cases hd
      exact beq_false_of_ne hc
  unfold closing?
  rw [htake, List.length_replicate, if_neg (by omega)]

theorem closing?_eq_some {mark : Char} {n : Nat} (hn : n ≤ 2) {t : List Char}
    (ht : ∀ c ∈ t.head?, c ≠ mark) :
    closing? mark (List.replicate (n + 3) mark ++ t) = some (n, t) := by
  have htake : (List.replicate (n + 3) mark ++ t).takeWhile (· == mark) =
      List.replicate (n + 3) mark := by
    apply takeWhile_append_stop
    · intro d hd
      exact beq_iff_eq.mpr (List.eq_of_mem_replicate hd)
    · intro d hd
      exact beq_false_of_ne (ht d hd)
  have hdrop : (List.replicate (n + 3) mark ++ t).drop (n + 3) = t := by
    rw [List.drop_left' List.length_replicate]
  have hmin : min 5 (n + 3) = n + 3 := by omega
  unfold closing?
  rw [htake, List.length_replicate, hmin, if_pos (by omega), hdrop, Nat.add_sub_cancel]

theorem linesFrom_close {mark : Char} {n : Nat} (hn : n ≤ 2) {t : List Char}
    (ht : ∀ c ∈ t.head?, c ≠ mark) (tick : Char) (clock taken : List Char) :
    linesFrom mark (tick :: clock) taken (List.replicate (n + 3) mark ++ t) =
      some (String.ofList (taken.reverse ++ List.replicate n mark), t) := by
  rw [linesFrom.eq_def]
  simp only [closing?_eq_some hn ht, List.reverse_append, List.reverse_replicate]

/-- A character that stands for itself. -/
theorem linesFrom_plain {mark c : Char} {t : List Char} (hclosing : closing? mark (c :: t) = none)
    (hc : isPlain c = true) (hslash : ¬(c = '\\' ∧ mark = '"')) (tick : Char)
    (clock taken : List Char) :
    linesFrom mark (tick :: clock) taken (c :: t) = linesFrom mark clock (c :: taken) t := by
  have hfeed : c ≠ '\n' := by
    rintro rfl
    cases hc
  have hreturn : c ≠ '\r' := by
    rintro rfl
    cases hc
  rw [linesFrom.eq_def]
  simp [hclosing, hreturn, hslash, hc]

theorem linesFrom_line {mark : Char} (hmark : isPlain mark = true) {e : List Char} (he : LineEnd e)
    (tick : Char) (clock taken t : List Char) :
    linesFrom mark (tick :: clock) taken (e ++ t) =
      linesFrom mark clock (e.reverse ++ taken) t := by
  have hclosing : closing? mark (e ++ t) = none := by
    cases he with
    | feed => exact closing?_eq_none (Nat.zero_le 2) (by rintro rfl; cases hmark) t
    | both => exact closing?_eq_none (Nat.zero_le 2) (by rintro rfl; cases hmark) ('\n' :: t)
  rw [linesFrom.eq_def]
  cases he with
  | feed =>
    simp only [hclosing]
    rfl
  | both =>
    simp only [hclosing]
    rfl

theorem linesFrom_escape {c : Char} {e : List Char} (he : Escape c e) (tick : Char)
    (clock taken t : List Char) :
    linesFrom '"' (tick :: clock) taken ('\\' :: (e ++ t)) =
      linesFrom '"' clock (c :: taken) t := by
  have hclosing : closing? '"' ('\\' :: (e ++ t)) = none :=
    closing?_eq_none (Nat.zero_le 2) (by decide) _
  rw [linesFrom.eq_def]
  simp [hclosing, continued?_escape he, escape?_append he]

theorem linesFrom_joined {b e l t : List Char} (hb : Spaces b) (he : LineEnd e)
    (hl : BlankLines l) (ht : NoBlank t) (tick : Char) (clock taken : List Char) :
    linesFrom '"' (tick :: clock) taken ('\\' :: (b ++ (e ++ (l ++ t)))) =
      linesFrom '"' clock taken t := by
  have hclosing : closing? '"' ('\\' :: (b ++ (e ++ (l ++ t)))) = none :=
    closing?_eq_none (Nat.zero_le 2) (by decide) _
  rw [linesFrom.eq_def]
  simp [hclosing, continued?_joined hb he hl ht]

theorem linesFrom_marks {mark c : Char} (hmark : isPlain mark = true) (hslash : mark ≠ '\\')
    (hc : c ≠ mark) (t : List Char) : ∀ {n : Nat}, n ≤ 2 → ∀ {clock taken : List Char},
      n < clock.length → linesFrom mark clock taken (List.replicate n mark ++ c :: t) =
        linesFrom mark (clock.drop n) (List.replicate n mark ++ taken) (c :: t)
  | 0, _, _, _, _ => rfl
  | n + 1, hn, [], _, hclock => nomatch hclock
  | n + 1, hn, tick :: clock, taken, hclock => by
    have hclosing : closing? mark (mark :: (List.replicate n mark ++ c :: t)) = none := by
      rw [← List.cons_append, ← List.replicate_succ]
      exact closing?_eq_none hn hc t
    rw [List.replicate_succ, List.cons_append,
      linesFrom_plain hclosing hmark (fun h => hslash h.1),
      linesFrom_marks hmark hslash hc t (by omega) (by simpa using hclock), List.drop_succ_cons,
      ← List.singleton_append, ← List.append_assoc, ← List.replicate_succ', List.replicate_succ]

/-- The inside of a string of many lines and the marks that close it. -/
theorem linesFrom_inside {mark : Char} (hmark : mark = '"' ∨ mark = '\'') {cs s : List Char}
    (h : LinesInside mark cs s) {n : Nat} (hn : n ≤ 2) {t : List Char}
    (ht : ∀ c ∈ t.head?, c ≠ mark) : ∀ {clock taken : List Char}, s.length < clock.length →
      linesFrom mark clock taken (s ++ (List.replicate (n + 3) mark ++ t)) =
        some (String.ofList (taken.reverse ++ (cs ++ List.replicate n mark)), t) := by
  have hplain : isPlain mark = true := by rcases hmark with rfl | rfl <;> rfl
  have hbackslash : mark ≠ '\\' := by rcases hmark with rfl | rfl <;> decide
  induction h with
  | nil =>
    rintro (_ | ⟨tick, clock⟩) taken hclock
    · cases hclock
    · exact linesFrom_close hn ht tick clock taken
  | plain hc hne hslash _ ih =>
    rintro (_ | ⟨tick, clock⟩) taken hclock
    · cases hclock
    · have hclosing := closing?_eq_none (Nat.zero_le 2) hne
      rw [List.cons_append, linesFrom_plain (hclosing _) hc hslash,
        ih (Nat.lt_of_succ_lt_succ hclock), List.reverse_cons, List.append_assoc]
      rfl
  | line he _ ih =>
    rintro (_ | ⟨tick, clock⟩) taken hclock
    · cases hclock
    · have hlength : 0 < _ := he.length_pos
      rw [List.length_append, List.length_cons] at hclock
      rw [List.append_assoc, linesFrom_line hplain he, ih (by omega), List.reverse_append,
        List.reverse_reverse, List.append_assoc, List.append_assoc]
  | marks hn' hc _ ih =>
    intro clock taken hclock
    rw [List.length_append, List.length_replicate] at hclock
    rw [List.append_assoc, List.cons_append, linesFrom_marks hplain hbackslash hc _ hn' (by omega),
      ← List.cons_append, ih (by rw [List.length_drop]; omega), List.reverse_append,
      List.reverse_replicate, List.append_assoc, List.append_assoc]
  | escape heq he _ ih =>
    subst heq
    rintro (_ | ⟨tick, clock⟩) taken hclock
    · cases hclock
    · rw [List.length_cons, List.length_append, List.length_cons] at hclock
      rw [List.cons_append, List.append_assoc, linesFrom_escape he, ih (by omega),
        List.reverse_cons, List.append_assoc]
      rfl
  | @joined cs b e l s heq hb he hl hs _ ih =>
    subst heq
    rintro (_ | ⟨tick, clock⟩) taken hclock
    · cases hclock
    · have hstops : NoBlank (s ++ (List.replicate (n + 3) '"' ++ t)) := by
        cases s with
        | nil =>
          rintro c ⟨⟩
          decide
        | cons c s => exact hs
      simp only [List.length_cons, List.length_append] at hclock
      rw [List.cons_append, List.append_assoc, List.append_assoc, List.append_assoc,
        linesFrom_joined hb he hl hstops, ih (by omega)]

/-! ## Strings of any form -/

/-- No quote comes next. -/
def NoQuote (t : List Char) : Prop := ∀ c ∈ t.head?, c ≠ '"' ∧ c ≠ '\''

/-- Two marks are read as an empty string, and not as the start of one of many lines, unless a
third one follows. -/
theorem quoted?_oneLine {mark : Char} {s t : List Char} (hs : ∀ c ∈ s.head?, c ≠ mark)
    (ht : ∀ c ∈ t.head?, c ≠ mark) :
    quoted? mark (s ++ mark :: t) =
      if mark = '"' then basic (s ++ mark :: t) else literal (s ++ mark :: t) := by
  unfold quoted?
  dsimp only
  split
  · next a b rest heq =>
    apply if_neg
    rintro ⟨rfl, rfl⟩
    cases s with
    | nil =>
      obtain ⟨-, rfl⟩ := List.cons.inj heq
      exact ht _ rfl rfl
    | cons c s =>
      obtain ⟨rfl, -⟩ := List.cons.inj heq
      exact hs _ rfl rfl
  · rfl

theorem quoted?_lines (mark : Char) (t : List Char) :
    quoted? mark (mark :: mark :: t) = multiLine mark t := if_pos ⟨rfl, rfl⟩

theorem BasicInside.head {cs s : List Char} (h : BasicInside cs s) : ∀ c ∈ s.head?, c ≠ '"' := by
  cases h with
  | nil => rintro c ⟨⟩
  | plain hc hquote =>
    rintro c ⟨⟩
    exact hquote
  | escape =>
    rintro c ⟨⟩
    decide

/-- The clock of a string of many lines is the text ahead. -/
theorem linesFrom_self {mark : Char} (hmark : mark = '"' ∨ mark = '\'') {cs s : List Char}
    (h : LinesInside mark cs s) {n : Nat} (hn : n ≤ 2) {t : List Char}
    (ht : ∀ c ∈ t.head?, c ≠ mark) :
    linesFrom mark (s ++ (List.replicate (n + 3) mark ++ t)) []
        (s ++ (List.replicate (n + 3) mark ++ t)) =
      some (String.ofList (cs ++ List.replicate n mark), t) := by
  apply linesFrom_inside hmark h hn ht
  rw [List.length_append, List.length_append, List.length_replicate]
  omega

theorem multiLine_inside {mark : Char} (hmark : mark = '"' ∨ mark = '\'') {cs s : List Char}
    (hs : ∀ c ∈ s.head?, c ≠ '\n' ∧ c ≠ '\r') (h : LinesInside mark cs s) {n : Nat} (hn : n ≤ 2)
    {t : List Char} (ht : ∀ c ∈ t.head?, c ≠ mark) :
    multiLine mark (s ++ (List.replicate (n + 3) mark ++ t)) =
      some (String.ofList (cs ++ List.replicate n mark), t) := by
  have hnone : lineEnd? (s ++ (List.replicate (n + 3) mark ++ t)) = none := by
    apply lineEnd?_of_head
    cases s with
    | nil =>
      rintro c ⟨⟩
      rcases hmark with rfl | rfl <;> decide
    | cons c s => exact hs
  rw [multiLine, hnone]
  exact linesFrom_self hmark h hn ht

theorem multiLine_below {mark : Char} (hmark : mark = '"' ∨ mark = '\'') {cs e s : List Char}
    (he : LineEnd e) (h : LinesInside mark cs s) {n : Nat} (hn : n ≤ 2) {t : List Char}
    (ht : ∀ c ∈ t.head?, c ≠ mark) :
    multiLine mark (e ++ (s ++ (List.replicate (n + 3) mark ++ t))) =
      some (String.ofList (cs ++ List.replicate n mark), t) := by
  rw [multiLine, he.lineEnd?_append]
  exact linesFrom_self hmark h hn ht

theorem NoQuote.ne {t : List Char} (h : NoQuote t) {mark : Char}
    (hmark : mark = '"' ∨ mark = '\'') :
    ∀ c ∈ t.head?, c ≠ mark := by
  rintro c hc
  rcases hmark with rfl | rfl
  · exact (h c hc).1
  · exact (h c hc).2

/-- A string is read to its end. -/
theorem quoted?_string {t : String} {s : List Char} (h : StringText t s) {rest : List Char}
    (hrest : NoQuote rest) : ∃ mark s', s = mark :: s' ∧ (mark = '"' ∨ mark = '\'') ∧
      quoted? mark (s' ++ rest) = some (t, rest) := by
  cases h with
  | @basic cs s h =>
    refine ⟨'"', s ++ ['"'], rfl, .inl rfl, ?_⟩
    rw [List.append_assoc, List.singleton_append,
      quoted?_oneLine h.head (fun c hc => (hrest c hc).1), if_pos rfl, basic_inside h]
  | @literal s h =>
    refine ⟨'\'', s ++ ['\''], rfl, .inr rfl, ?_⟩
    have hhead : ∀ c ∈ s.head?, c ≠ '\'' := fun c hc => (h c (List.mem_of_mem_head? hc)).2
    rw [List.append_assoc, List.singleton_append,
      quoted?_oneLine hhead (fun c hc => (hrest c hc).2), if_neg (by decide), literal_inside h]
  | @lines mark n cs s hmark hn hs h =>
    refine ⟨mark, mark :: mark :: (s ++ List.replicate (n + 3) mark), rfl, hmark, ?_⟩
    rw [List.cons_append, List.cons_append, quoted?_lines, List.append_assoc,
      multiLine_inside hmark hs h hn (hrest.ne hmark)]
  | @linesBelow mark n cs e s hmark hn he h =>
    refine ⟨mark, mark :: mark :: (e ++ (s ++ List.replicate (n + 3) mark)), rfl, hmark, ?_⟩
    rw [List.cons_append, List.cons_append, quoted?_lines, List.append_assoc, List.append_assoc,
      multiLine_below hmark he h hn (hrest.ne hmark)]

/-! ## Every text has a string -/

end LegBoard.Toml
