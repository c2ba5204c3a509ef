import LegBoard.Proofs.Json.Tokens

/-!
# Places of a text

A reader moves a cursor over a text from left to right and may blame a fault on a place. The cursor
stands where the characters taken so far lead to. What is blamed lies on some line of the text, not
behind the end of that line, and if the text is blamed for having ended it is the end of the text.
Both hold of a run of readers if they hold of each of them.
-/
namespace LegBoard.Json

/-! ## Places -/

namespace Position

/-- A place on a line of the text that is ahead of another place. -/
def LiesIn (q : Position) (cs : List Char) (p : Position) : Prop :=
  ∃ before behind, cs = before ++ behind ∧ (∀ c ∈ behind.head?, c = '\n') ∧
    p.line = (q.afterAll before).line ∧ p.column ≤ (q.afterAll before).column

theorem LiesIn.append {q p : Position} {taken cs : List Char}
    (h : LiesIn (q.afterAll taken) cs p) : LiesIn q (taken ++ cs) p := by
  obtain ⟨before, behind, rfl, hend, hline, hcolumn⟩ := h
  refine ⟨taken ++ before, behind, (List.append_assoc ..).symm, hend, ?_, ?_⟩
  · rwa [afterAll_append]
  · rwa [afterAll_append]

theorem LiesIn.cons {q p : Position} {c : Char} {cs : List Char} (h : LiesIn (q.after c) cs p) :
    LiesIn q (c :: cs) p := by
  have happend : LiesIn q ([c] ++ cs) p := LiesIn.append h
  exact happend

/-- A line goes on from every place of it to its end. -/
theorem liesIn_of_le {q p : Position} (hline : p.line = q.line) (hcolumn : p.column ≤ q.column)
    (cs : List Char) : LiesIn q cs p := by
  induction cs generalizing q with
  | nil => exact ⟨[], [], rfl, nofun, hline, hcolumn⟩
  | cons c cs ih =>
    by_cases hc : c = '\n'
    · exact ⟨[], c :: cs, rfl, fun d hd => by cases hd; exact hc, hline, hcolumn⟩
    · have hafter : q.after c = ⟨q.line, q.column + c.utf8Size⟩ := if_neg hc
      refine LiesIn.cons ?_
      rw [hafter]
      exact ih hline (Nat.le_add_right_of_le hcolumn)

theorem liesIn_afterByte (q : Position) (c : Char) (cs : List Char) :
    LiesIn q (c :: cs) (q.afterByte c) := by
  refine LiesIn.cons ?_
  unfold afterByte after
  split
  · exact liesIn_of_le rfl (Nat.le_refl _) cs
  · refine liesIn_of_le ?_ ?_ cs
    · rfl
    · exact Nat.add_le_add_left c.utf8Size_pos _

theorem liesIn_afterBytes (n : Nat) (q : Position) (cs : List Char) :
    LiesIn q cs (afterBytes n q cs) := by
  induction cs generalizing n q with
  | nil =>
    rw [afterBytes]
    exact liesIn_of_le rfl (Nat.le_refl _) []
  | cons c cs ih =>
    rw [afterBytes]
    split
    · exact .cons (ih _ _)
    · next hsize =>
      -- The place lies inside of the character, and a line end has no inside.
      by_cases hc : c = '\n'
      · obtain rfl : n = 0 := by
          subst hc
          have hone : ('\n' : Char).utf8Size = 1 := by decide
          omega
        exact liesIn_of_le rfl (Nat.le_refl _) _
      · have hafter : q.after c = ⟨q.line, q.column + c.utf8Size⟩ := if_neg hc
        refine .cons ?_
        rw [hafter]
        refine liesIn_of_le ?_ ?_ cs
        · rfl
        · exact Nat.add_le_add_left (Nat.le_of_not_le hsize) _

end Position

/-! ## Cursors -/

namespace Cursor

/-- A cursor stands behind characters that were ahead of another one. -/
def Leads (s s' : Cursor) : Prop :=
  ∃ taken, s.rest = taken ++ s'.rest ∧ s'.position = s.position.afterAll taken

namespace Leads

theorem refl (s : Cursor) : s.Leads s := ⟨[], rfl, rfl⟩

theorem trans {s s' s'' : Cursor} (h : s.Leads s') (h' : s'.Leads s'') : s.Leads s'' := by
  obtain ⟨taken, hrest, hposition⟩ := h
  obtain ⟨taken', hrest', hposition'⟩ := h'
  refine ⟨taken ++ taken', ?_, ?_⟩
  · rw [hrest, hrest', List.append_assoc]
  · rw [hposition', hposition, Position.afterAll_append]

theorem length_le {s s' : Cursor} (h : s.Leads s') : s'.rest.length ≤ s.rest.length := by
  obtain ⟨taken, hrest, -⟩ := h
  rw [hrest, List.length_append]
  exact Nat.le_add_left _ _

/-- All cursors of a text have the same end ahead. -/
theorem finish {s s' : Cursor} (h : s.Leads s') : s'.finish = s.finish := by
  obtain ⟨taken, hrest, hposition⟩ := h
  rw [Cursor.finish, Cursor.finish, hrest, hposition, Position.afterAll_append]

theorem liesIn {s s' : Cursor} (h : s.Leads s') {p : Position}
    (hp : s'.position.LiesIn s'.rest p) : s.position.LiesIn s.rest p := by
  obtain ⟨taken, hrest, hposition⟩ := h
  rw [hposition] at hp
  rw [hrest]
  exact hp.append

end Leads

theorem leads_step (s : Cursor) : s.Leads s.step := by
  obtain ⟨p, rest⟩ := s
  cases rest with
  | nil => exact .refl _
  | cons c cs => exact ⟨[c], rfl, rfl⟩

theorem leads_finish (s : Cursor) : s.Leads s.finish := ⟨s.rest, (List.append_nil _).symm, rfl⟩

theorem leads_dropWhile (p : Char → Bool) (s : Cursor) : s.Leads (s.dropWhile p) := by
  obtain ⟨here, cs⟩ := s
  change Leads ⟨here, cs⟩ (dropWhile.go p here cs)
  induction cs generalizing here with
  | nil => exact .refl _
  | cons c cs ih =>
    rw [dropWhile.go]
    split
    · exact (leads_step ⟨here, c :: cs⟩).trans (ih _)
    · exact .refl _

theorem leads_skipBlank (s : Cursor) : s.Leads s.skipBlank := leads_dropWhile _ s

/-! ## Faults -/

/-- A fault is blamed on a place of the text ahead, and that the text has ended on its end. -/
structure Blames (s : Cursor) (fault : Fault) : Prop where
  liesIn : s.position.LiesIn s.rest fault.position
  ended : fault.problem.kind = .ended → fault.position = s.finish.position

theorem Leads.blames {s s' : Cursor} (h : s.Leads s') {fault : Fault} (hfault : s'.Blames fault) :
    s.Blames fault := by
  constructor
  · exact h.liesIn hfault.liesIn
  · rw [← h.finish]
    exact hfault.ended

theorem finish_of_end {s : Cursor} (h : s.rest = []) : s.finish.position = s.position := by
  rw [finish, h]
  rfl

theorem blames_here {s : Cursor} {problem : Problem} (h : problem.kind = .ended → s.rest = []) :
    s.Blames (s.here problem) := by
  constructor
  · exact Position.liesIn_of_le rfl (Nat.le_refl _) _
  · intro hended
    rw [finish_of_end (h hended)]
    rfl

theorem blames_ahead {s : Cursor} {problem : Problem} (h : problem.kind = .ended → s.rest = []) :
    s.Blames (s.ahead problem) := by
  obtain ⟨p, rest⟩ := s
  cases rest with
  | nil => exact blames_here h
  | cons c cs =>
    constructor
    · exact Position.liesIn_afterByte p c cs
    · intro hended
      cases h hended

end Cursor

/-! ## Readers -/

/-- What a reader comes to is a place further on, where it has taken something off the text, or a
fault in the text ahead. -/
def Keeps {α : Type} (place : α → Cursor) (s : Cursor) : Except Fault α → Prop
  | .ok a => s.Leads (place a)
  | .error fault => s.Blames fault

namespace Keeps

variable {α β : Type} {place : α → Cursor} {place' : β → Cursor} {s s' : Cursor}

theorem of_leads (h : s.Leads s') {result : Except Fault α} (hresult : Keeps place s' result) :
    Keeps place s result := by
  cases result with
  | ok a => exact h.trans hresult
  | error fault => exact h.blames hresult

theorem bind {result : Except Fault α} (h : Keeps place s result) {next : α → Except Fault β}
    (hnext : ∀ a, result = .ok a → s.Leads (place a) → Keeps place' (place a) (next a)) :
    Keeps place' s (result >>= next) := by
  cases result with
  | ok a => exact of_leads h (hnext a rfl h)
  | error fault => exact h

/-- A fault that is made of what a reader comes to. -/
theorem blames {result : Except Fault α} (h : Keeps place s result) {fault : Fault}
    (hok : ∀ a, result = .ok a → (place a).Blames fault)
    (herror : ∀ fault', result = .error fault' → fault = fault') : s.Blames fault := by
  cases result with
  | ok a => exact Cursor.Leads.blames h (hok a rfl)
  | error fault' =>
    rw [herror fault' rfl]
    exact h

theorem map {result : Except Fault α} (h : Keeps place s result) {f : α → β}
    (hf : ∀ a, place' (f a) = place a) : Keeps place' s (result.map f) := by
  cases result with
  | ok a =>
    change s.Leads (place' (f a))
    rw [hf]
    exact h
  | error fault => exact h

end Keeps

end LegBoard.Json
