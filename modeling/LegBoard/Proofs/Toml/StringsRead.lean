import LegBoard.Proofs.Toml.Strings

/-!
# What is read as a string

What is taken off a text as a string is one of the grammar. For a string of many lines that is
shown mark by mark: a quote that does not close it is put in front of what comes behind it, and the
two of them at most that may stand there together are counted by what closing needs.
-/
namespace LegBoard.Toml

/-! ## Escapes -/

theorem numbered?_eq_some {count : Nat} {cs t : List Char} {c : Char}
    (h : numbered? count cs = some (c, t)) :
    ∃ ds, ds.length = count ∧ Text.Hex.number? ds = some c.toNat ∧ cs = ds ++ t := by
  unfold numbered? at h
  dsimp only at h
  split at h
  · cases h
  · next hlength =>
    simp only [Option.bind_eq_bind, Option.bind_eq_some_iff] at h
    obtain ⟨n, hn, d, hd, h⟩ := h
    cases h
    unfold char? at hd
    split at hd
    · next hvalid =>
      cases hd
      refine ⟨cs.take count, ?_, ?_, (List.take_append_drop count cs).symm⟩
      · rw [List.length_take] at hlength ⊢
        omega
      · rw [hn, Char.ofNat, dif_pos hvalid]
        rfl
    · cases hd

theorem escape?_eq_some {cs t : List Char} {c : Char} (h : escape? cs = some (c, t)) :
    ∃ e, Escape c e ∧ cs = e ++ t := by
  unfold escape? at h
  split at h
  · cases h
    exact ⟨['b'], .short (by decide), rfl⟩
  · cases h
    exact ⟨['t'], .short (by decide), rfl⟩
  · cases h
    exact ⟨['n'], .short (by decide), rfl⟩
  · cases h
    exact ⟨['f'], .short (by decide), rfl⟩
  · cases h
    exact ⟨['r'], .short (by decide), rfl⟩
  · cases h
    exact ⟨['e'], .short (by decide), rfl⟩
  · cases h
    exact ⟨['"'], .short (by decide), rfl⟩
  · cases h
    exact ⟨['\\'], .short (by decide), rfl⟩
  · obtain ⟨ds, hlength, hnumber, rfl⟩ := numbered?_eq_some h
    exact ⟨'x' :: ds, .two hlength hnumber, rfl⟩
  · obtain ⟨ds, hlength, hnumber, rfl⟩ := numbered?_eq_some h
    exact ⟨'u' :: ds, .four hlength hnumber, rfl⟩
  · obtain ⟨ds, hlength, hnumber, rfl⟩ := numbered?_eq_some h
    exact ⟨'U' :: ds, .eight hlength hnumber, rfl⟩
  · cases h

/-! ## Strings on one line -/

theorem basicFrom_eq_some {clock taken cs t : List Char} {text : String}
    (h : basicFrom clock taken cs = some (text, t)) :
    ∃ inside s, BasicInside inside s ∧ text = String.ofList (taken.reverse ++ inside) ∧
      cs = s ++ '"' :: t := by
  fun_induction basicFrom clock taken cs with
  | case1 => cases h
  | case2 => cases h
  | case3 tick clock taken cs =>
    cases h
    exact ⟨[], [], .nil, by rw [List.append_nil], rfl⟩
  | case4 tick clock taken cs ih =>
    obtain ⟨⟨c, rest⟩, hescape, hrest⟩ := Option.bind_eq_some_iff.mp h
    obtain ⟨inside, s, hinside, rfl, rfl⟩ := ih _ _ hrest
    obtain ⟨e, he, rfl⟩ := escape?_eq_some hescape
    refine ⟨c :: inside, _, .escape he hinside, ?_, ?_⟩
    · rw [List.reverse_cons, List.append_assoc, List.singleton_append]
    · rw [List.cons_append, List.append_assoc]
  | case5 tick clock taken c cs hquote hslash hplain ih =>
    obtain ⟨inside, s, hinside, rfl, rfl⟩ := ih h
    refine ⟨c :: inside, c :: s, .plain hplain hquote hslash hinside, ?_, rfl⟩
    rw [List.reverse_cons, List.append_assoc, List.singleton_append]
  | case6 => cases h

theorem basic_eq_some {cs t : List Char} {text : String} (h : basic cs = some (text, t)) :
    ∃ inside s, BasicInside inside s ∧ text = String.ofList inside ∧ cs = s ++ '"' :: t :=
  basicFrom_eq_some h

theorem literalFrom_eq_some {taken cs t : List Char} {text : String}
    (h : literalFrom taken cs = some (text, t)) :
    ∃ s, LiteralInside s ∧ text = String.ofList (taken.reverse ++ s) ∧ cs = s ++ '\'' :: t := by
  fun_induction literalFrom taken cs with
  | case1 => cases h
  | case2 taken cs =>
    cases h
    exact ⟨[], List.forall_mem_nil _, by rw [List.append_nil], rfl⟩
  | case3 taken c cs hquote hplain ih =>
    obtain ⟨s, hs, rfl, rfl⟩ := ih h
    refine ⟨c :: s, List.forall_mem_cons.mpr ⟨⟨hplain, hquote⟩, hs⟩, ?_, rfl⟩
    rw [List.reverse_cons, List.append_assoc, List.singleton_append]
  | case4 => cases h

theorem literal_eq_some {cs t : List Char} {text : String} (h : literal cs = some (text, t)) :
    ∃ s, LiteralInside s ∧ text = String.ofList s ∧ cs = s ++ '\'' :: t := literalFrom_eq_some h

/-! ## Line ends and blanks -/

theorem lineEnd?_eq_some {cs t : List Char} (h : lineEnd? cs = some t) :
    ∃ e, LineEnd e ∧ cs = e ++ t := by
  unfold lineEnd? at h
  split at h
  · cases h
    exact ⟨['\n'], .feed, rfl⟩
  · cases h
    exact ⟨['\r', '\n'], .both, rfl⟩
  · cases h

theorem skipLines_split (cs : List Char) : ∃ l, BlankLines l ∧ cs = l ++ skipLines cs := by
  fun_induction skipLines cs with
  | case1 cs ih =>
    obtain ⟨l, hl, heq⟩ := ih
    refine ⟨['\r', '\n'] ++ l, .line .both hl, ?_⟩
    rw [List.append_assoc, ← heq]
    rfl
  | case2 c cs _ hblank ih =>
    obtain ⟨l, hl, heq⟩ := ih
    rcases Bool.or_eq_true_iff.mp hblank with hspace | hfeed
    · exact ⟨c :: l, .space hspace hl, congrArg (c :: ·) heq⟩
    · obtain rfl := beq_iff_eq.mp hfeed
      exact ⟨['\n'] ++ l, .line .feed hl, congrArg ('\n' :: ·) heq⟩
  | case3 c cs => exact ⟨[], .nil, rfl⟩
  | case4 => exact ⟨[], .nil, rfl⟩

/-- A blank or a line end does not come next behind those that were passed. -/
theorem skipLines_stops (cs : List Char) :
    (∀ c ∈ (skipLines cs).head?, isSpace c = false ∧ c ≠ '\n') ∧
      ∀ t, skipLines cs ≠ '\r' :: '\n' :: t := by
  fun_induction skipLines cs with
  | case1 cs ih => exact ih
  | case2 c cs _ _ ih => exact ih
  | case3 c cs hreturn hblank =>
    rw [Bool.or_eq_true_iff, beq_iff_eq, not_or, Bool.not_eq_true] at hblank
    refine ⟨?_, ?_⟩
    · rintro d ⟨⟩
      exact hblank
    · rintro t ⟨⟩
      exact hreturn t rfl rfl
  | case4 => exact ⟨nofun, nofun⟩

theorem continued?_eq_some {cs t : List Char} (h : continued? cs = some t) :
    ∃ b e l, Spaces b ∧ LineEnd e ∧ BlankLines l ∧ cs = b ++ (e ++ (l ++ t)) ∧
      (∀ c ∈ t.head?, isSpace c = false ∧ c ≠ '\n') ∧ ∀ t', t ≠ '\r' :: '\n' :: t' := by
  obtain ⟨rest, hend, rfl⟩ := Option.map_eq_some_iff.mp h
  obtain ⟨e, he, hdrop⟩ := lineEnd?_eq_some hend
  obtain ⟨l, hl, hrest⟩ := skipLines_split rest
  refine ⟨cs.takeWhile isSpace, e, l, List.all_eq_true.mp List.all_takeWhile, he, hl, ?_,
    skipLines_stops rest⟩
  rw [← hrest, ← hdrop, List.takeWhile_append_dropWhile]

/-! ## Strings of many lines -/

theorem closing?_split {mark : Char} {cs t : List Char} {extra : Nat}
    (h : closing? mark cs = some (extra, t)) :
    extra ≤ 2 ∧ cs = List.replicate (extra + 3) mark ++ t := by
  unfold closing? at h
  dsimp only at h
  split at h
  · next hmarks =>
    have hrun : cs.takeWhile (· == mark) ++ cs.dropWhile (· == mark) = cs :=
      List.takeWhile_append_dropWhile
    have hmark : ∀ c ∈ cs.takeWhile (· == mark), c = mark :=
      fun c hc => beq_iff_eq.mp (List.all_eq_true.mp List.all_takeWhile c hc)
    generalize cs.takeWhile (· == mark) = run at h hmarks hrun hmark
    have htake : cs.take (min 5 run.length) = List.replicate (min 5 run.length) mark := by
      rw [← hrun, List.take_append_of_le_length (Nat.min_le_right ..), List.eq_replicate_iff]
      refine ⟨by rw [List.length_take]; omega, fun c hc => hmark c (List.mem_of_mem_take hc)⟩
    cases h
    refine ⟨by omega, ?_⟩
    rw [Nat.sub_add_cancel hmarks, ← htake, List.take_append_drop]
  · cases h

theorem closing?_ne_none {mark : Char} {k : Nat} (hk : 3 ≤ k) (t : List Char) :
    closing? mark (List.replicate k mark ++ t) ≠ none := by
  have hfront : ∀ c ∈ List.replicate k mark, (c == mark) = true :=
    fun c hc => beq_iff_eq.mpr (List.eq_of_mem_replicate hc)
  unfold closing?
  rw [List.takeWhile_append_of_pos hfront, List.length_append, List.length_replicate,
    if_pos (by omega)]
  exact Option.some_ne_none _

section

variable {mark : Char} (hmark : mark = '"' ∨ mark = '\'')

include hmark

/-- A quote in front that closes nothing belongs to the string. -/
theorem LinesInside.quote {inside s : List Char} (h : LinesInside mark inside s) {n : Nat}
    {t : List Char}
    (hclosing : closing? mark (mark :: (s ++ (List.replicate (n + 3) mark ++ t))) = none) :
    LinesInside mark (mark :: inside) (mark :: s) := by
  have hone : ∀ {c s}, c ≠ mark → LinesInside mark inside (c :: s) →
      LinesInside mark (mark :: inside) (mark :: c :: s) :=
    fun hc h => .marks (n := 1) (by decide) hc h
  cases h with
  | nil => exact absurd hclosing (closing?_ne_none (k := n + 4) (by omega) t)
  | plain hc hne hslash h => exact hone hne (.plain hc hne hslash h)
  | line he h =>
    cases he with
    | feed => exact hone (by rcases hmark with rfl | rfl <;> decide) (.line .feed h)
    | both => exact hone (by rcases hmark with rfl | rfl <;> decide) (.line .both h)
  | @marks k c cs s hk hc h =>
    match k, hk with
    | 0, _ => exact hone hc h
    | 1, _ => exact .marks (n := 2) (by decide) hc h
    | 2, _ => exact absurd hclosing (closing?_ne_none (k := 3) (by decide) _)
  | escape heq he h => exact hone (by rw [heq]; decide) (.escape heq he h)
  | joined heq hb he hl hs h => exact hone (by rw [heq]; decide) (.joined heq hb he hl hs h)

/-- A carriage return stands before a line feed only. -/
theorem LinesInside.return {inside s : List Char} (h : LinesInside mark inside s) :
    ∀ s', s = '\r' :: s' → ∃ s'', s' = '\n' :: s'' := by
  induction h with
  | nil => exact nofun
  | plain hc =>
    rintro s' ⟨⟩
    cases hc
  | line he =>
    cases he with
    | feed => exact nofun
    | both =>
      rintro s' ⟨⟩
      exact ⟨_, rfl⟩
  | @marks k c cs s hk hc h ih =>
    cases k with
    | zero => exact ih
    | succ k =>
      rintro s' heq
      have hreturn : mark = '\r' := (List.cons.inj heq).1
      rcases hmark with rfl | rfl <;> cases hreturn
  | escape => exact nofun
  | joined => exact nofun

/-- No blank comes next if none was left to pass: a carriage return comes before a line feed. -/
theorem LinesInside.noBlank {inside s t : List Char} (h : LinesInside mark inside s)
    (hstop : ∀ c ∈ (s ++ t).head?, isSpace c = false ∧ c ≠ '\n')
    (hreturn : ∀ t', s ++ t ≠ '\r' :: '\n' :: t') : NoBlank s := by
  intro c hc
  cases s with
  | nil => cases hc
  | cons d s =>
    cases hc
    obtain ⟨hspace, hfeed⟩ := hstop c rfl
    refine ⟨hspace, hfeed, ?_⟩
    rintro rfl
    obtain ⟨s'', rfl⟩ := h.return hmark s rfl
    exact hreturn (s'' ++ t) rfl

theorem linesFrom_eq_some {clock taken cs t : List Char} {text : String}
    (h : linesFrom mark clock taken cs = some (text, t)) :
    ∃ inside s n, n ≤ 2 ∧ LinesInside mark inside s ∧
      text = String.ofList (taken.reverse ++ (inside ++ List.replicate n mark)) ∧
      cs = s ++ (List.replicate (n + 3) mark ++ t) := by
  fun_induction linesFrom mark clock taken cs with
  | case1 => cases h
  | case2 tick clock taken cs extra rest hclosing =>
    cases h
    obtain ⟨hextra, rfl⟩ := closing?_split hclosing
    refine ⟨[], [], extra, hextra, .nil, ?_, rfl⟩
    rw [List.reverse_append, List.reverse_replicate, List.nil_append]
  | case3 => cases h
  | case4 tick clock taken cs _ ih =>
    obtain ⟨inside, s, n, hn, hinside, rfl, rfl⟩ := ih h
    refine ⟨['\n'] ++ inside, ['\n'] ++ s, n, hn, .line .feed hinside, ?_, rfl⟩
    simp only [List.reverse_cons, List.append_assoc]
  | case5 tick clock taken cs _ ih =>
    obtain ⟨inside, s, n, hn, hinside, rfl, rfl⟩ := ih h
    refine ⟨['\r', '\n'] ++ inside, ['\r', '\n'] ++ s, n, hn, .line .both hinside, ?_, rfl⟩
    simp only [List.reverse_cons, List.append_assoc, List.cons_append, List.nil_append]
  | case6 tick clock taken c cs _ _ hslash rest hjoined _ ih =>
    obtain ⟨inside, s, n, hn, hinside, rfl, rfl⟩ := ih h
    obtain ⟨b, e, l, hb, he, hl, rfl, hstop, hreturn⟩ := continued?_eq_some hjoined
    obtain ⟨rfl, hquote⟩ := hslash
    have hs : NoBlank s := hinside.noBlank hmark hstop hreturn
    refine ⟨inside, _, n, hn, .joined hquote hb he hl hs hinside, rfl, ?_⟩
    simp only [List.cons_append, List.append_assoc]
  | case7 tick clock taken c cs _ _ hslash _ _ ih =>
    obtain ⟨⟨d, rest⟩, hescape, hrest⟩ := Option.bind_eq_some_iff.mp h
    obtain ⟨inside, s, n, hn, hinside, rfl, rfl⟩ := ih d rest hrest
    obtain ⟨e, he, rfl⟩ := escape?_eq_some hescape
    obtain ⟨rfl, hquote⟩ := hslash
    refine ⟨d :: inside, _, n, hn, .escape hquote he hinside, ?_, ?_⟩
    · simp only [List.reverse_cons, List.append_assoc, List.cons_append, List.nil_append]
    · rw [List.cons_append, List.append_assoc]
  | case8 tick clock taken c cs _ _ hslash hplain hclosing ih =>
    obtain ⟨inside, s, n, hn, hinside, rfl, rfl⟩ := ih h
    have hmore : LinesInside mark (c :: inside) (c :: s) := by
      by_cases hc : c = mark
      · subst hc
        exact hinside.quote hmark hclosing
      · exact .plain hplain hc hslash hinside
    refine ⟨c :: inside, c :: s, n, hn, hmore, ?_, rfl⟩
    simp only [List.reverse_cons, List.append_assoc, List.cons_append, List.nil_append]
  | case9 => cases h

/-- Behind the three marks that open it, a string of many lines is read up to those that close
it. -/
theorem multiLine_eq_some {cs t : List Char} {text : String}
    (h : multiLine mark cs = some (text, t)) :
    ∃ s, StringText text (List.replicate 3 mark ++ s) ∧ cs = s ++ t := by
  unfold multiLine at h
  cases hend : lineEnd? cs with
  | none =>
    rw [hend] at h
    obtain ⟨inside, s, n, hn, hinside, rfl, rfl⟩ := linesFrom_eq_some hmark h
    refine ⟨s ++ List.replicate (n + 3) mark, .lines hmark hn ?_ hinside, ?_⟩
    · intro c hc
      cases s with
      | nil => cases hc
      | cons d s =>
        cases hc
        refine ⟨?_, ?_⟩
        · rintro rfl
          cases hend
        · rintro rfl
          obtain ⟨s'', rfl⟩ := hinside.return hmark s rfl
          cases hend
    · rw [List.append_assoc]
  | some rest =>
    rw [hend] at h
    obtain ⟨inside, s, n, hn, hinside, rfl, rfl⟩ := linesFrom_eq_some hmark h
    obtain ⟨e, he, rfl⟩ := lineEnd?_eq_some hend
    refine ⟨e ++ (s ++ List.replicate (n + 3) mark), .linesBelow hmark hn he hinside, ?_⟩
    simp only [List.append_assoc]

/-- A string on one line, from behind its mark. -/
theorem oneLine_eq_some {cs t : List Char} {text : String}
    (h : (if mark = '"' then basic cs else literal cs) = some (text, t)) :
    ∃ s, StringText text (mark :: s) ∧ cs = s ++ t := by
  rcases hmark with rfl | rfl
  · obtain ⟨inside, s, hinside, rfl, rfl⟩ := basic_eq_some h
    exact ⟨s ++ ['"'], .basic hinside, by rw [List.append_assoc, List.singleton_append]⟩
  · obtain ⟨s, hs, rfl, rfl⟩ := literal_eq_some h
    exact ⟨s ++ ['\''], .literal hs, by rw [List.append_assoc, List.singleton_append]⟩

/-- What is read as a string is one. -/
theorem quoted?_eq_some {cs t : List Char} {text : String}
    (h : quoted? mark cs = some (text, t)) :
    ∃ s, StringText text (mark :: s) ∧ cs = s ++ t := by
  unfold quoted? at h
  dsimp only at h
  split at h
  · next a b rest =>
    split at h
    · next hmarks =>
      obtain ⟨rfl, rfl⟩ := hmarks
      obtain ⟨s, hs, rfl⟩ := multiLine_eq_some hmark h
      exact ⟨_ :: _ :: s, hs, rfl⟩
    · exact oneLine_eq_some hmark h
  · exact oneLine_eq_some hmark h

end

end LegBoard.Toml
