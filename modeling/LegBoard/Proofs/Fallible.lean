/-!
Steps that may fail. If a run of steps succeeded, each of them did.
-/
namespace LegBoard

variable {ε α β : Type}

theorem ok_of_bind {x : Except ε α} {f : α → Except ε β} {b : β} (h : x >>= f = .ok b) :
    ∃ a, x = .ok a ∧ f a = .ok b := by
  cases x with
  | error e => cases h
  | ok a => exact ⟨a, rfl, h⟩

theorem ok_of_map {x : Except ε α} {f : α → β} {b : β} (h : x.map f = .ok b) :
    ∃ a, x = .ok a ∧ f a = b := by
  cases x with
  | error e => cases h
  | ok a => exact ⟨a, rfl, Except.ok.inj h⟩

theorem length_of_mapM {f : α → Option β} {as : List α} {bs : List β}
    (h : as.mapM f = some bs) : bs.length = as.length ∧ ∀ a ∈ as, (f a).isSome := by
  induction as generalizing bs with
  | nil =>
    cases h
    exact ⟨rfl, nofun⟩
  | cons a as ih =>
    rw [List.mapM_cons] at h
    obtain ⟨b, hb, h⟩ := Option.bind_eq_some_iff.mp h
    obtain ⟨bs', hbs, h⟩ := Option.bind_eq_some_iff.mp h
    cases h
    obtain ⟨hlen, hrest⟩ := ih hbs
    refine ⟨congrArg Nat.succ hlen, List.forall_mem_cons.mpr ⟨?_, hrest⟩⟩
    rw [hb]
    rfl

/-- What every step preserves holds at the end if it held at the start. -/
theorem foldlM_preserves {f : β → α → Option β} {P : β → Prop} {as : List α}
    (hstep : ∀ a ∈ as, ∀ {b c}, f b a = some c → P b → P c) :
    ∀ {start result : β}, as.foldlM f start = some result → P start → P result := by
  induction as with
  | nil =>
    rintro start result ⟨⟩ hstart
    exact hstart
  | cons a as ih =>
    intro start result h hstart
    obtain ⟨hfirst, hrest⟩ := List.forall_mem_cons.mp hstep
    rw [List.foldlM_cons] at h
    obtain ⟨next, hnext, h⟩ := Option.bind_eq_some_iff.mp h
    exact ih hrest h (hfirst hnext hstart)

end LegBoard
