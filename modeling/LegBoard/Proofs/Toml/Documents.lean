import LegBoard.Proofs.Toml.Values

/-!
# Reading documents

The statements of a document that the grammar spells within the bounds of the reader are read, one
line after the other.
-/
namespace LegBoard.Toml

open LegBoard.Text (dropWhile_append_stop head_append)

variable {oversized : Bool}

/-! ## The end of a line -/

theorem head_lineEnd {e : List Char} (he : LineEnd e) (t : List Char) :
    ∃ c t', e ++ t = c :: t' ∧ isSpace c = false ∧ isPlain c = false ∧ c ≠ '#' ∧
      (c = '#' ∨ c = '\n' ∨ c = '\r') := by
  cases he with
  | feed => exact ⟨'\n', t, rfl, by decide⟩
  | both => exact ⟨'\r', '\n' :: t, rfl, by decide⟩

/-- The line end behind blanks and a comment is passed. -/
theorem endLine?_append {b comment e : List Char} (hb : Spaces b) (hcomment : Comment comment)
    (he : LineEnd e) (t : List Char) : endLine? (b ++ (comment ++ (e ++ t))) = some t := by
  obtain ⟨c, t', hhead, hspace, hplain, hmark, -⟩ := head_lineEnd he t
  have hline : lineEnd? (c :: t') = some t := by
    rw [← hhead]
    exact he.lineEnd?_append t
  rw [hhead]
  cases hcomment with
  | absent =>
    have hskip : skipSpace (b ++ c :: t') = c :: t' :=
      skipSpace_append hb (by rintro d ⟨⟩; exact hspace)
    simp [endLine?, hskip, hmark, hline]
  | @present s hs =>
    have hskip : skipSpace (b ++ '#' :: (s ++ c :: t')) = '#' :: (s ++ c :: t') :=
      skipSpace_append hb (by rintro d ⟨⟩; decide)
    have hdrop : ('#' :: s ++ c :: t').dropWhile isPlain = c :: t' :=
      dropWhile_append_stop (List.forall_mem_cons.mpr ⟨by decide, hs⟩)
        (by rintro d ⟨⟩; exact hplain)
    rw [List.cons_append] at hdrop ⊢
    simp [endLine?, hskip, hdrop, hline]

theorem endLine?_last {b comment : List Char} (hb : Spaces b) (hcomment : Comment comment) :
    endLine? (b ++ comment) = some [] := by
  cases hcomment with
  | absent =>
    have hskip : skipSpace (b ++ []) = [] := skipSpace_append hb (by rintro d ⟨⟩)
    rw [endLine?, hskip]
    rfl
  | @present s hs =>
    have hskip : skipSpace (b ++ '#' :: s) = '#' :: s :=
      skipSpace_append hb (by rintro d ⟨⟩; decide)
    have hdrop : ('#' :: s ++ []).dropWhile isPlain = [] :=
      dropWhile_append_stop (List.forall_mem_cons.mpr ⟨by decide, hs⟩) (by rintro d ⟨⟩)
    rw [List.append_nil] at hdrop
    simp [endLine?, hskip, hdrop]

/-- A value may end before the end of its line. -/
theorem endsValue_of_lineEnd {b comment e : List Char} (hb : Spaces b) (hcomment : Comment comment)
    (he : LineEnd e) (t : List Char) : EndsValue (b ++ (comment ++ (e ++ t))) := by
  refine ⟨b, _, hb, rfl, ?_⟩
  cases hcomment with
  | absent =>
    cases he with
    | feed => rintro c ⟨⟩; decide
    | both => rintro c ⟨⟩; decide
  | present => rintro c ⟨⟩; decide

theorem endsValue_last {b comment : List Char} (hb : Spaces b) (hcomment : Comment comment) :
    EndsValue (b ++ comment) := by
  refine ⟨b, _, hb, rfl, ?_⟩
  cases hcomment with
  | absent => rintro c ⟨⟩
  | present => rintro c ⟨⟩; decide

/-! ## Headers -/

theorem header?_append {key : Key} {b s b' : List Char} (hb : Spaces b) (hkey : KeyText key s)
    (hlimit : key.parents.length < greatestDepth) (hb' : Spaces b') (t : List Char) :
    header? (b ++ (s ++ (b' ++ ']' :: t))) = some (.header key false, t) := by
  obtain ⟨c, s', hs, hc⟩ := hkey.head
  obtain ⟨hspace, hmarks⟩ := hc.ne
  have hskip : skipSpace (b ++ (s ++ (b' ++ ']' :: t))) = s ++ (b' ++ ']' :: t) := by
    apply skipSpace_append hb
    rw [hs]
    rintro d ⟨⟩
    exact hspace
  have hhead : (b ++ (s ++ (b' ++ ']' :: t))).head? ≠ some '[' := by
    cases b with
    | nil =>
      rw [hs]
      rintro ⟨⟩
      exact hmarks (by decide)
    | cons d b =>
      rintro ⟨⟩
      exact absurd (hb '[' List.mem_cons_self) (by decide)
  have hends : EndsKey (']' :: t) := by
    rintro d ⟨⟩
    exact .inr rfl
  simp only [header?, beq_false_of_ne hhead, if_neg Bool.false_ne_true, hskip,
    key?_append hkey hlimit hb' hends, Option.bind_eq_bind, Option.bind_some]

theorem header?_repeated {key : Key} {b s b' : List Char} (hb : Spaces b) (hkey : KeyText key s)
    (hlimit : key.parents.length < greatestDepth) (hb' : Spaces b') (t : List Char) :
    header? ('[' :: (b ++ (s ++ (b' ++ ']' :: ']' :: t)))) = some (.header key true, t) := by
  obtain ⟨c, s', hs, hc⟩ := hkey.head
  have hskip : skipSpace (b ++ (s ++ (b' ++ ']' :: ']' :: t))) = s ++ (b' ++ ']' :: ']' :: t) := by
    apply skipSpace_append hb
    rw [hs]
    rintro d ⟨⟩
    exact hc.ne.1
  have hends : EndsKey (']' :: ']' :: t) := by
    rintro d ⟨⟩
    exact .inr rfl
  simp only [header?, List.head?_cons, beq_self_eq_true, if_true, List.tail_cons, hskip,
    key?_append hkey hlimit hb' hends, Option.bind_eq_bind, Option.bind_some]

/-! ## Lines -/

theorem statementsFrom_nil (clock : List Char) : statementsFrom clock [] = some [] := by
  cases clock <;> rfl

/-- A line that says something, with what follows the statement up to the next line. -/
theorem statementsFrom_statement {statement : Statement} {b s r t : List Char} (hb : Spaces b)
    (hline : LineText (reading oversized) (some statement) s) (hr : EndsValue r)
    (ht : endLine? r = some t) (tick : Char) (clock : List Char) :
    statementsFrom (tick :: clock) (b ++ (s ++ r)) =
      (statementsFrom clock t).map (statement :: ·) := by
  have hbind : ∀ rest : Option (List Statement),
      (rest.bind fun rest => some (statement :: rest)) = rest.map (statement :: ·) := by
    rintro (_ | rest) <;> rfl
  cases hline with
  | @pair key v s h =>
    have hpair : pair? (value? greatestDepth) (s ++ r) = some ((key, v), r) :=
      (readsItems_value greatestDepth).pair.reads h hr
    obtain ⟨c, s', hs, hc⟩ : ∃ c s', s = c :: s' ∧ StartsKey c := by
      cases h with
      | mk hkey =>
        obtain ⟨c, s', rfl, hc⟩ := hkey.head
        exact ⟨c, _, rfl, hc⟩
    obtain ⟨hspace, hmarks⟩ := hc.ne
    simp only [List.mem_cons, not_or] at hmarks
    have hskip : skipSpace (b ++ (s ++ r)) = c :: (s' ++ r) := by
      rw [hs]
      exact skipSpace_append hb (by rintro d ⟨⟩; exact hspace)
    rw [hs, List.cons_append] at hpair
    simp [statementsFrom, hskip, hmarks, hpair, ht, hbind]
  | @header key b₁ s b₂ hb₁ hkey hlimit hb₂ =>
    have htext : '[' :: (b₁ ++ (s ++ (b₂ ++ [']']))) ++ r =
        '[' :: (b₁ ++ (s ++ (b₂ ++ ']' :: r))) := by simp
    have hskip : skipSpace (b ++ '[' :: (b₁ ++ (s ++ (b₂ ++ ']' :: r)))) =
        '[' :: (b₁ ++ (s ++ (b₂ ++ ']' :: r))) :=
      skipSpace_append hb (by rintro d ⟨⟩; decide)
    rw [htext]
    simp [statementsFrom, hskip, header?_append hb₁ hkey hlimit hb₂, ht, hbind]
  | @repeated key b₁ s b₂ hb₁ hkey hlimit hb₂ =>
    have htext : '[' :: '[' :: (b₁ ++ (s ++ (b₂ ++ [']', ']']))) ++ r =
        '[' :: '[' :: (b₁ ++ (s ++ (b₂ ++ ']' :: ']' :: r))) := by simp
    have hskip : skipSpace (b ++ '[' :: '[' :: (b₁ ++ (s ++ (b₂ ++ ']' :: ']' :: r)))) =
        '[' :: '[' :: (b₁ ++ (s ++ (b₂ ++ ']' :: ']' :: r))) :=
      skipSpace_append hb (by rintro d ⟨⟩; decide)
    rw [htext]
    simp [statementsFrom, hskip, header?_repeated hb₁ hkey hlimit hb₂, ht, hbind]

/-- A line without a statement. -/
theorem statementsFrom_blank {b comment e : List Char} (hb : Spaces b) (hcomment : Comment comment)
    (he : LineEnd e) (tick : Char) (clock t : List Char) :
    statementsFrom (tick :: clock) (b ++ (comment ++ (e ++ t))) = statementsFrom clock t := by
  have hend := endLine?_append (b := []) (List.forall_mem_nil _) hcomment he t
  obtain ⟨c, r, hr, hc⟩ :
      ∃ c r, comment ++ (e ++ t) = c :: r ∧ (c = '#' ∨ c = '\n' ∨ c = '\r') := by
    cases hcomment with
    | absent =>
      obtain ⟨c, r, hr, -, -, -, hc⟩ := head_lineEnd he t
      exact ⟨c, r, hr, hc⟩
    | present => exact ⟨'#', _, rfl, .inl rfl⟩
  have hskip : skipSpace (b ++ c :: r) = c :: r :=
    skipSpace_append hb (by rintro d ⟨⟩; rcases hc with rfl | rfl | rfl <;> decide)
  rw [List.nil_append, hr] at hend
  rw [hr, statementsFrom, hskip]
  split
  · next heq => cases heq
  · next heq =>
    obtain ⟨rfl, -⟩ := List.cons.inj heq
    exact absurd hc (by decide)
  · next heq =>
    cases heq
    rw [if_pos hc, hend]
    rfl

theorem statementsFrom_lastBlank {b comment : List Char} (hb : Spaces b)
    (hcomment : Comment comment) (tick : Char) (clock : List Char) :
    statementsFrom (tick :: clock) (b ++ comment) = some [] := by
  cases hcomment with
  | absent =>
    have hskip : skipSpace (b ++ []) = [] := skipSpace_append hb (by rintro d ⟨⟩)
    rw [statementsFrom, hskip]
  | @present s hs =>
    have hskip : skipSpace (b ++ '#' :: s) = '#' :: s :=
      skipSpace_append hb (by rintro d ⟨⟩; decide)
    have hend := endLine?_last (b := []) (List.forall_mem_nil _) (.present hs)
    rw [List.nil_append] at hend
    simp [statementsFrom, hskip, hend, statementsFrom_nil]

/-! ## Documents -/

theorem LineText.ne_nil {bounds : Bounds} {statement : Statement} {s : List Char}
    (h : LineText bounds (some statement) s) : s ≠ [] := by
  cases h with
  | pair h =>
    cases h with
    | mk hkey =>
      obtain ⟨c, s', rfl, -⟩ := hkey.head
      exact List.cons_ne_nil _ _
  | header => exact List.cons_ne_nil _ _
  | repeated => exact List.cons_ne_nil _ _

theorem Spaces.append {b b' : List Char} (hb : Spaces b) (hb' : Spaces b') : Spaces (b ++ b') :=
  List.forall_mem_append.mpr ⟨hb, hb'⟩

theorem statementsFrom_document {statements : List Statement} {s : List Char}
    (h : DocumentText (reading oversized) statements s) :
    ∀ {clock : List Char}, s.length ≤ clock.length → statementsFrom clock s = some statements := by
  induction h with
  | @last statement b s b' comment hb hline hb' hcomment =>
    rintro (_ | ⟨tick, clock⟩) hclock
    · cases statement with
      | none => rfl
      | some statement =>
        have hlength := List.length_pos_of_ne_nil hline.ne_nil
        simp only [List.length_append, List.length_nil] at hclock
        omega
    · cases statement with
      | none =>
        cases hline
        rw [List.nil_append, ← List.append_assoc, statementsFrom_lastBlank (hb.append hb') hcomment]
        rfl
      | some statement =>
        rw [statementsFrom_statement hb hline (endsValue_last hb' hcomment)
          (endLine?_last hb' hcomment), statementsFrom_nil]
        rfl
  | @line statement statements b s b' comment e t hb hline hb' hcomment he _ ih =>
    have hlength := he.length_pos
    rintro (_ | ⟨tick, clock⟩) hclock
    · simp only [List.length_append, List.length_nil] at hclock
      omega
    · simp only [List.length_append, List.length_cons] at hclock
      have hshort : t.length ≤ clock.length := by omega
      have hnext := ih hshort
      cases statement with
      | none =>
        cases hline
        rw [List.nil_append, ← List.append_assoc,
          statementsFrom_blank (hb.append hb') hcomment he, hnext]
        rfl
      | some statement =>
        rw [statementsFrom_statement hb hline (endsValue_of_lineEnd hb' hcomment he t)
          (endLine?_append hb' hcomment he t), hnext]
        rfl

/-- No document starts with a byte order mark. -/
theorem DocumentText.head {bounds : Bounds} {statements : List Statement} {s : List Char}
    (h : DocumentText bounds statements s) : ∀ c ∈ s.head?, c ≠ '\uFEFF' := by
  have hspaces : ∀ {b}, Spaces b → ∀ c ∈ b.head?, c ≠ '\uFEFF' := by
    rintro b hb c hc rfl
    exact absurd (hb _ (List.mem_of_mem_head? hc)) (by decide)
  have hcomments : ∀ {comment}, Comment comment → ∀ c ∈ comment.head?, c ≠ '\uFEFF' := by
    rintro comment (_ | _) c ⟨⟩
    decide
  have hlines : ∀ {statement s}, LineText bounds statement s → ∀ c ∈ s.head?, c ≠ '\uFEFF' := by
    intro statement s hline
    cases hline with
    | blank => rintro c ⟨⟩
    | pair h =>
      cases h with
      | mk hkey =>
        obtain ⟨c, s', rfl, hc⟩ := hkey.head
        rintro d ⟨⟩ rfl
        exact hc.ne.2 (by decide)
    | header => rintro c ⟨⟩; decide
    | repeated => rintro c ⟨⟩; decide
  cases h with
  | last hb hline hb' hcomment =>
    exact head_append (hspaces hb) (head_append (hlines hline) (head_append (hspaces hb')
      (hcomments hcomment)))
  | line hb hline hb' hcomment he =>
    refine head_append (hspaces hb) (head_append (hlines hline) (head_append (hspaces hb')
      (head_append (hcomments hcomment) ?_)))
    cases he with
    | feed => rintro c ⟨⟩; decide
    | both => rintro c ⟨⟩; decide

/-- Every document within the bounds of the reader is read. -/
theorem statements?_of_states {text : String} {statements : List Statement}
    (h : States (reading oversized) text statements) : statements? text = some statements := by
  obtain ⟨s, hs, htext⟩ := h
  have hread := statementsFrom_document hs (Nat.le_refl s.length)
  unfold statements?
  rcases htext with htext | htext
  · rw [htext]
    dsimp only
    split
    · exact absurd rfl (hs.head '\uFEFF' rfl)
    · exact hread
  · rw [htext]
    exact hread

end LegBoard.Toml
