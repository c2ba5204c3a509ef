import LegBoard.Json.Skip
import LegBoard.Proofs.Fallible
import LegBoard.Proofs.Json.Grammar

/-!
# Reading tokens

Each reader of a token is compared with the grammar in both directions.
-/
namespace LegBoard.Json

/-! ## Answers -/

/-- A reader answers with a value, behind which a text is still ahead, or with a fault. -/
def Answers {α : Type} (result : Except Fault (α × Cursor)) (answer : Option α)
    (t : List Char) : Prop :=
  match answer with
  | some a => ∃ q, result = .ok (a, ⟨q, t⟩)
  | none => ∃ fault, result = .error fault

theorem Answers.map {α β : Type} {result : Except Fault (α × Cursor)} {answer : Option α}
    {t : List Char} (h : Answers result answer t) (f : α → β) :
    Answers (result.map fun r => (f r.1, r.2)) (answer.map f) t := by
  cases answer with
  | none =>
    obtain ⟨fault, rfl⟩ := h
    exact ⟨fault, rfl⟩
  | some a =>
    obtain ⟨q, rfl⟩ := h
    exact ⟨q, rfl⟩

theorem Answers.bind_map {α β γ : Type} {result : Except Fault (β × Cursor)} {answer : Option α}
    {f : α → β} {t u : List Char} (h : Answers result (answer.map f) t)
    {next : β × Cursor → Except Fault (γ × Cursor)} {answers : α → Option γ}
    (hnext : ∀ a q, Answers (next (f a, ⟨q, t⟩)) (answers a) u) :
    Answers (result >>= next) (answer.bind answers) u := by
  cases answer with
  | none =>
    obtain ⟨fault, rfl⟩ := h
    exact ⟨fault, rfl⟩
  | some a =>
    obtain ⟨q, rfl⟩ := h
    exact hnext a q

theorem Answers.bind {α β : Type} {result : Except Fault (α × Cursor)} {answer : Option α}
    {t u : List Char} (h : Answers result answer t)
    {next : α × Cursor → Except Fault (β × Cursor)} {answers : α → Option β}
    (hnext : ∀ a q, Answers (next (a, ⟨q, t⟩)) (answers a) u) :
    Answers (result >>= next) (answer.bind answers) u := by
  have hsame : Answers result (answer.map id) t := by
    rw [Option.map_id]
    exact h
  exact hsame.bind_map hnext

theorem Answers.of_some {α : Type} {result : Except Fault (α × Cursor)} {answer : Option α}
    {a : α} {t : List Char} (h : Answers result answer t) (ha : answer = some a) :
    ∃ q, result = .ok (a, ⟨q, t⟩) := by
  subst ha
  exact h

/-! ## Blanks -/

theorem rest_dropWhile (p : Char → Bool) (s : Cursor) :
    (s.dropWhile p).rest = s.rest.dropWhile p := by
  obtain ⟨here, cs⟩ := s
  change (Cursor.dropWhile.go p here cs).rest = cs.dropWhile p
  induction cs generalizing here with
  | nil => rfl
  | cons c cs ih =>
    rw [Cursor.dropWhile.go, List.dropWhile_cons]
    split
    · exact ih _
    · rfl

/-- A text that does not go on with a character of a kind. -/
def Stops (p : Char → Bool) (t : List Char) : Prop := ∀ c cs, t = c :: cs → p c = false

theorem stops_nil (p : Char → Bool) : Stops p [] := fun _ _ h => nomatch h

theorem stops_cons {p : Char → Bool} {c : Char} (h : p c = false) (cs : List Char) :
    Stops p (c :: cs) := by
  rintro d ds heq
  cases heq
  exact h

/-- All characters of a kind are passed, and nothing else. -/
theorem dropWhile_append {p : Char → Bool} {cs t : List Char} (h : ∀ c ∈ cs, p c = true)
    (ht : Stops p t) (here : Position) :
    ∃ q, (⟨here, cs ++ t⟩ : Cursor).dropWhile p = ⟨q, t⟩ := by
  have hrest := rest_dropWhile p ⟨here, cs ++ t⟩
  have hstop : t.dropWhile p = t := by
    cases t with
    | nil => rfl
    | cons c ds => rw [List.dropWhile_cons, ht c ds rfl]; rfl
  have happend : (cs ++ t).dropWhile p = t := by
    rw [List.dropWhile_append_of_pos h, hstop]
  exact ⟨_, congrArg (Cursor.mk _) (hrest.trans happend)⟩

theorem Blanks.nil (t : List Char) : Blanks t t := ⟨[], nofun, rfl⟩

theorem Blanks.length_le {s t : List Char} (h : Blanks s t) : t.length ≤ s.length := by
  obtain ⟨blanks, -, rfl⟩ := h
  rw [List.length_append]
  exact Nat.le_add_left _ _

/-- What is skipped between two tokens are blanks. -/
theorem blanks_skipBlank (s : Cursor) : Blanks s.rest s.skipBlank.rest := by
  refine ⟨s.rest.takeWhile Cursor.isBlank, List.all_eq_true.mp List.all_takeWhile, ?_⟩
  rw [Cursor.skipBlank, rest_dropWhile, List.takeWhile_append_dropWhile]

/-- Readers that skip blanks go on from some place behind them. -/
theorem exists_skipBlank (s : Cursor) : ∃ p rest, s.skipBlank = ⟨p, rest⟩ ∧ Blanks s.rest rest :=
  ⟨s.skipBlank.position, s.skipBlank.rest, rfl, blanks_skipBlank s⟩

/-- A text that does not start with a blank. -/
abbrev Settled (t : List Char) : Prop := Stops Cursor.isBlank t

theorem skipBlank_settled {t : List Char} (ht : Settled t) (p : Position) :
    (⟨p, t⟩ : Cursor).skipBlank = ⟨p, t⟩ := by
  cases t with
  | nil => rfl
  | cons c cs =>
    change Cursor.dropWhile.go Cursor.isBlank p (c :: cs) = _
    rw [Cursor.dropWhile.go, ht c cs rfl]
    rfl

/-- Skipping blanks leads to the only place behind them that is not followed by another one. -/
theorem Blanks.skipBlank {s t : List Char} (h : Blanks s t) (ht : Settled t) (p : Position) :
    ∃ q, (⟨p, s⟩ : Cursor).skipBlank = ⟨q, t⟩ := by
  obtain ⟨blanks, hblanks, rfl⟩ := h
  exact dropWhile_append hblanks ht p

/-! ## Words and colons -/

theorem word_append (cs t : List Char) (p : Position) :
    word cs ⟨p, cs ++ t⟩ = .ok ⟨p.afterAll cs, t⟩ := by
  induction cs generalizing p with
  | nil => rfl
  | cons c cs ih =>
    simp only [word, List.cons_append, ↓reduceIte, Cursor.step_cons, ih]
    rfl

theorem rest_of_word {cs : List Char} {s s' : Cursor} (h : word cs s = .ok s') :
    s.rest = cs ++ s'.rest := by
  induction cs generalizing s with
  | nil => cases h; rfl
  | cons c cs ih =>
    obtain ⟨p, rest⟩ := s
    cases rest with
    | nil => cases h
    | cons d ds =>
      simp only [word] at h
      split at h
      · next hd =>
        rw [List.cons_append, ← ih h, Cursor.step_cons, hd]
      · cases h

theorem colon_blanks {s t : List Char} (h : Blanks s (':' :: t)) (p : Position) :
    ∃ q, colon ⟨p, s⟩ = .ok ⟨q, t⟩ := by
  obtain ⟨q, hq⟩ := h.skipBlank (stops_cons (by decide) t) p
  refine ⟨q.after ':', ?_⟩
  simp only [colon, hq, Cursor.step_cons]

theorem blanks_of_colon {s s' : Cursor} (h : colon s = .ok s') :
    Blanks s.rest (':' :: s'.rest) := by
  obtain ⟨p, rest, hskip, hb⟩ := exists_skipBlank s
  unfold colon at h
  rw [hskip] at h
  dsimp only at h
  split at h
  · cases h
  · cases h
    exact hb
  · cases h

end LegBoard.Json
