import LegBoard.Html.Escape

/-!
# References in HTML are undone

The four references are read back, whatever stands behind them, so a value
between the quotes of an attribute is the one it was written from. What is
escaped holds no angle bracket, and in a value no quote either. References by
number and by any other name are not read: nothing here writes them.
-/
namespace LegBoard.Html

/-- A text with its references undone. Any other ampersand stands for itself. -/
def unescape : List Char → List Char
  | '&' :: 'a' :: 'm' :: 'p' :: ';' :: cs => '&' :: unescape cs
  | '&' :: 'l' :: 't' :: ';' :: cs => '<' :: unescape cs
  | '&' :: 'g' :: 't' :: ';' :: cs => '>' :: unescape cs
  | '&' :: 'q' :: 'u' :: 'o' :: 't' :: ';' :: cs => '"' :: unescape cs
  | c :: cs => c :: unescape cs
  | [] => []

theorem unescape_cons {c : Char} (h : c ≠ '&') (cs : List Char) :
    unescape (c :: cs) = c :: unescape cs := by
  rw [unescape] <;> (intro _ hc; exact absurd hc h)

theorem escapeTextChar_of_ne {c : Char} (hamp : c ≠ '&') (hlt : c ≠ '<') (hgt : c ≠ '>') :
    escapeTextChar c = [c] := by
  rw [escapeTextChar]
  · exact hamp
  · exact hlt
  · exact hgt

theorem escapeValueChar_of_ne {c : Char} (h : c ≠ '"') :
    escapeValueChar c = escapeTextChar c := by
  rw [escapeValueChar]
  exact h

theorem unescape_escapeTextChar (c : Char) (rest : List Char) :
    unescape (escapeTextChar c ++ rest) = c :: unescape rest := by
  by_cases hamp : c = '&'
  · subst hamp; rfl
  by_cases hlt : c = '<'
  · subst hlt; rfl
  by_cases hgt : c = '>'
  · subst hgt; rfl
  rw [escapeTextChar_of_ne hamp hlt hgt]
  exact unescape_cons hamp rest

theorem unescape_escapeValueChar (c : Char) (rest : List Char) :
    unescape (escapeValueChar c ++ rest) = c :: unescape rest := by
  by_cases hquote : c = '"'
  · subst hquote; rfl
  · rw [escapeValueChar_of_ne hquote]
    exact unescape_escapeTextChar c rest

/-- A value is read back from between its quotes. -/
theorem unescape_escapeValue (s : String) : unescape (escapeValue s) = s.toList := by
  rw [escapeValue]
  induction s.toList with
  | nil => rfl
  | cons c cs ih => rw [List.flatMap_cons, unescape_escapeValueChar, ih]

/-- What a character of a text is written with is no angle bracket, and a quote only if it is one
itself. -/
theorem ne_of_mem_escapeTextChar {c x : Char} (h : x ∈ escapeTextChar c) :
    x ≠ '<' ∧ x ≠ '>' ∧ (x = '"' → c = '"') := by
  by_cases hamp : c = '&'
  · subst hamp
    simp only [escapeTextChar, List.mem_cons, List.not_mem_nil, or_false] at h
    rcases h with rfl | rfl | rfl | rfl | rfl <;> decide
  by_cases hlt : c = '<'
  · subst hlt
    simp only [escapeTextChar, List.mem_cons, List.not_mem_nil, or_false] at h
    rcases h with rfl | rfl | rfl | rfl <;> decide
  by_cases hgt : c = '>'
  · subst hgt
    simp only [escapeTextChar, List.mem_cons, List.not_mem_nil, or_false] at h
    rcases h with rfl | rfl | rfl | rfl <;> decide
  rw [escapeTextChar_of_ne hamp hlt hgt, List.mem_singleton] at h
  subst h
  exact ⟨hlt, hgt, id⟩

theorem ne_of_mem_escapeValueChar {c x : Char} (h : x ∈ escapeValueChar c) :
    x ≠ '<' ∧ x ≠ '>' ∧ x ≠ '"' := by
  by_cases hquote : c = '"'
  · subst hquote
    simp only [escapeValueChar, List.mem_cons, List.not_mem_nil, or_false] at h
    rcases h with rfl | rfl | rfl | rfl | rfl | rfl <;> decide
  rw [escapeValueChar_of_ne hquote] at h
  obtain ⟨hlt, hgt, himp⟩ := ne_of_mem_escapeTextChar h
  exact ⟨hlt, hgt, fun hx => hquote (himp hx)⟩

theorem lt_not_mem_escapeText (s : String) : '<' ∉ escapeText s := by
  intro h
  rw [escapeText, List.mem_flatMap] at h
  obtain ⟨c, -, hc⟩ := h
  exact (ne_of_mem_escapeTextChar hc).1 rfl

theorem gt_not_mem_escapeValue (s : String) : '>' ∉ escapeValue s := by
  intro h
  rw [escapeValue, List.mem_flatMap] at h
  obtain ⟨c, -, hc⟩ := h
  exact (ne_of_mem_escapeValueChar hc).2.1 rfl

theorem quote_not_mem_escapeValue (s : String) : '"' ∉ escapeValue s := by
  intro h
  rw [escapeValue, List.mem_flatMap] at h
  obtain ⟨c, -, hc⟩ := h
  exact (ne_of_mem_escapeValueChar hc).2.2 rfl

end LegBoard.Html
