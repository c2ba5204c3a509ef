/-!
# Runs of characters

A text that starts with characters of a kind and does not go on with one is split behind them. What
holds of the first character of a text holds of the first one of its parts that is not empty.
-/
namespace LegBoard.Text

variable {α : Type} {p : α → Bool} {front rest : List α}

theorem dropWhile_append_stop (hfront : ∀ c ∈ front, p c = true)
    (hstop : ∀ c ∈ rest.head?, p c = false) : (front ++ rest).dropWhile p = rest := by
  rw [List.dropWhile_append_of_pos hfront]
  cases rest with
  | nil => rfl
  | cons c rest =>
    have hc : ¬p c = true := by
      rw [hstop c rfl]
      decide
    exact List.dropWhile_cons_of_neg hc

theorem takeWhile_append_stop (hfront : ∀ c ∈ front, p c = true)
    (hstop : ∀ c ∈ rest.head?, p c = false) : (front ++ rest).takeWhile p = front := by
  have hsplit : (front ++ rest).takeWhile p ++ (front ++ rest).dropWhile p = front ++ rest :=
    List.takeWhile_append_dropWhile
  rw [dropWhile_append_stop hfront hstop] at hsplit
  exact List.append_cancel_right hsplit

theorem head_append {P : α → Prop} (hfront : ∀ c ∈ front.head?, P c)
    (hrest : ∀ c ∈ rest.head?, P c) : ∀ c ∈ (front ++ rest).head?, P c := by
  cases front with
  | nil => exact hrest
  | cons d front => exact hfront

end LegBoard.Text
