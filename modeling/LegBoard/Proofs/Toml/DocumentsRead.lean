import LegBoard.Proofs.Toml.Documents
import LegBoard.Proofs.Toml.ValuesRead

/-!
# What is read as a document

A text is read exactly if the grammar spells it, and it makes exactly the root table that the rules
make of its statements. Numbers beyond their range are read as such: it is up to who asks for a
value whether they are looked at.
-/
namespace LegBoard.Toml

/-! ## The end of a line -/

theorem endLine?_eq_some {cs t : List Char} (h : endLine? cs = some t) :
    ∃ b comment r, Spaces b ∧ Comment comment ∧ cs = b ++ (comment ++ r) ∧
      (r = [] ∧ t = [] ∨ ∃ e, LineEnd e ∧ r = e ++ t) := by
  obtain ⟨b, hb, hskip⟩ := skipSpace_split cs
  have hrest : ∀ {r}, (if r.isEmpty = true then some [] else lineEnd? r) = some t →
      r = [] ∧ t = [] ∨ ∃ e, LineEnd e ∧ r = e ++ t := by
    intro r hr
    split at hr
    · next hempty =>
      cases hr
      exact .inl ⟨List.isEmpty_iff.mp hempty, rfl⟩
    · exact .inr (lineEnd?_eq_some hr)
  unfold endLine? at h
  dsimp only at h
  by_cases hmark : (skipSpace cs).head? = some '#'
  · rw [if_pos hmark] at h
    obtain ⟨more, hmore⟩ := List.head?_eq_some_iff.mp hmark
    rw [hmore] at h hskip
    refine ⟨b, '#' :: more.takeWhile isPlain, more.dropWhile isPlain, hb,
      .present (List.all_eq_true.mp List.all_takeWhile), ?_, hrest h⟩
    rw [hskip, List.cons_append, List.takeWhile_append_dropWhile]
  · rw [if_neg hmark] at h
    exact ⟨b, [], skipSpace cs, hb, .absent, hskip, hrest h⟩

/-! ## Headers -/

theorem header?_eq_some {cs t : List Char} {statement : Statement}
    (h : header? cs = some (statement, t)) :
    ∃ s, LineText (reading true) (some statement) ('[' :: s) ∧ cs = s ++ t := by
  rw [header?, Option.bind_eq_bind, Option.bind_eq_some_iff] at h
  obtain ⟨⟨key, rest⟩, hkey, h⟩ := h
  obtain ⟨s, b', hs, hlimit, hb', hskip⟩ := key?_eq_some hkey
  dsimp only at h
  split at h
  · next rest hrepeated =>
    cases h
    obtain ⟨cs, rfl⟩ := List.head?_eq_some_iff.mp (beq_iff_eq.mp hrepeated)
    obtain ⟨b, hb, hcs⟩ := skipSpace_split cs
    rw [hrepeated, if_pos rfl, List.tail_cons] at hskip
    refine ⟨_, .repeated hb hs hlimit hb', ?_⟩
    rw [hcs, hskip]
    simp only [List.append_assoc, List.cons_append, List.nil_append]
  · next rest hsingle =>
    cases h
    obtain ⟨b, hb, hcs⟩ := skipSpace_split cs
    rw [hsingle, if_neg Bool.false_ne_true] at hskip
    refine ⟨_, .header hb hs hlimit hb', ?_⟩
    rw [hcs, hskip]
    simp only [List.append_assoc, List.cons_append, List.nil_append]
  · cases h

/-! ## Lines -/

/-- A line in front of those that are read behind it. -/
theorem documentText_of_endLine? {statement : Option Statement} {statements : List Statement}
    {b s r t clock : List Char} (hb : Spaces b) (hline : LineText (reading true) statement s)
    (hend : endLine? r = some t) (hread : statementsFrom clock t = some statements)
    (hrest : t.length < r.length → DocumentText (reading true) statements t) :
    DocumentText (reading true) (statement.toList ++ statements) (b ++ (s ++ r)) := by
  obtain ⟨b', comment, r', hb', hcomment, rfl, ⟨rfl, rfl⟩ | ⟨e, he, rfl⟩⟩ := endLine?_eq_some hend
  · rw [statementsFrom_nil] at hread
    cases hread
    rw [List.append_nil, List.append_nil]
    exact .last hb hline hb' hcomment
  · have hlength := he.length_pos
    refine .line hb hline hb' hcomment he (hrest ?_)
    simp only [List.length_append]
    omega

theorem documentText_of_statementsFrom {clock cs : List Char} {statements : List Statement}
    (hclock : cs.length ≤ clock.length) (h : statementsFrom clock cs = some statements) :
    DocumentText (reading true) statements cs := by
  induction clock generalizing cs statements with
  | nil =>
    obtain rfl := List.eq_nil_of_length_eq_zero (Nat.le_zero.mp hclock)
    cases h
    exact .last (List.forall_mem_nil _) .blank (List.forall_mem_nil _) .absent
  | cons tick clock ih =>
    obtain ⟨b, hb, hskip⟩ := skipSpace_split cs
    have hshort : ∀ {s r t : List Char}, cs = b ++ (s ++ r) → t.length < r.length →
        t.length ≤ clock.length := by
      rintro s r t rfl hlt
      simp only [List.length_append, List.length_cons] at hclock
      omega
    rw [statementsFrom] at h
    split at h
    · next hnil =>
      cases h
      rw [hskip, hnil]
      exact .last hb .blank (List.forall_mem_nil _) .absent
    · next rest hbracket =>
      simp only [Option.bind_eq_bind, Option.bind_eq_some_iff, Prod.exists] at h
      obtain ⟨statement, r, hheader, t, hend, statements, hread, h⟩ := h
      cases h
      obtain ⟨s, hline, rfl⟩ := header?_eq_some hheader
      rw [hbracket, ← List.cons_append] at hskip
      rw [hskip]
      exact documentText_of_endLine? hb hline hend hread fun hlt => ih (hshort hskip hlt) hread
    · next c rest _ hhead =>
      rw [hhead] at hskip
      split at h
      · obtain ⟨t, hend, hread⟩ := Option.bind_eq_some_iff.mp h
        rw [← List.nil_append (c :: rest)] at hskip
        rw [hskip]
        exact documentText_of_endLine? hb .blank hend hread fun hlt => ih (hshort hskip hlt) hread
      · simp only [Option.bind_eq_bind, Option.bind_eq_some_iff, Prod.exists] at h
        obtain ⟨key, v, r, hpair, t, hend, statements, hread, h⟩ := h
        cases h
        obtain ⟨s, hs, heq⟩ := (takesItems_value greatestDepth).pair.takes hpair
        rw [heq] at hskip
        rw [hskip]
        exact documentText_of_endLine? hb (.pair hs) hend hread
          fun hlt => ih (hshort hskip hlt) hread

/-! ## Documents -/

/-- What is read as the statements of a document states them. -/
theorem states_of_statements? {text : String} {statements : List Statement}
    (h : statements? text = some statements) : States (reading true) text statements := by
  unfold statements? at h
  dsimp only at h
  split at h
  · next cs hmark => exact ⟨cs, documentText_of_statementsFrom (Nat.le_refl _) h, .inr hmark⟩
  · exact ⟨text.toList, documentText_of_statementsFrom (Nat.le_refl _) h, .inl rfl⟩

/-- A text is read exactly if it is a document within the bounds of the reader, and its root table
is the one that the rules make of its statements. -/
theorem parse?_eq_some_iff {text : String} {root : Table} :
    parse? text = some root ↔
      ∃ statements, States (reading true) text statements ∧ Composes statements root := by
  constructor
  · intro h
    obtain ⟨statements, hstatements, hroot⟩ := Option.bind_eq_some_iff.mp h
    exact ⟨statements, states_of_statements? hstatements, root?_eq_some_iff.mp hroot⟩
  · rintro ⟨statements, hstates, hcomposes⟩
    exact Option.bind_eq_some_iff.mpr
      ⟨statements, statements?_of_states hstates, root?_eq_some_iff.mpr hcomposes⟩

end LegBoard.Toml
