import LegBoard.Proofs.Json.Accepting
import LegBoard.Proofs.Json.Places

/-!
# Where faults are blamed

Every reader keeps to the text that is ahead of it: it takes characters off its start, or blames a
fault on a place in it, which is the end of the text if that has ended. The readers that count their
steps never run out of them before the text ends, for each step takes some characters.
-/
namespace LegBoard.Json

open Cursor

/-- When the clock of a reader has run out, so has the text. -/
theorem ended_of_noClock {s : Cursor} (h : s.rest.length ≤ ([] : List Char).length) :
    s.rest = [] :=
  List.length_eq_zero_iff.mp (Nat.le_zero.mp h)

/-! ## Strings -/

theorem keeps_hexUnit (s : Cursor) : Keeps Prod.snd s (hexUnit s) := by
  unfold hexUnit
  dsimp only
  split
  · exact s.leads_finish.blames (blames_here fun _ => rfl)
  · split
    · exact (leads_step _).trans ((leads_step _).trans ((leads_step _).trans (leads_step _)))
    · exact ⟨Position.liesIn_afterBytes 4 s.position s.rest, nofun⟩

theorem keeps_secondHalf (first : Nat) (s : Cursor) : Keeps Prod.snd s (secondHalf first s) := by
  obtain ⟨p, rest⟩ := s
  unfold secondHalf
  dsimp only
  split
  · exact blames_here fun _ => rfl
  · exact (leads_step _).blames (blames_here fun _ => rfl)
  · refine Keeps.of_leads ((leads_step _).trans (leads_step _)) ?_
    refine (keeps_hexUnit _).bind fun ⟨second, s₁⟩ _ _ => ?_
    dsimp only
    split
    · exact .refl _
    · exact blames_here nofun
  · exact (leads_step _).blames (blames_ahead nofun)
  · exact blames_ahead nofun

theorem keeps_readEscape (s : Cursor) : Keeps Prod.snd s (readEscape s) := by
  obtain ⟨p, rest⟩ := s
  unfold readEscape
  dsimp only
  split
  · exact blames_here fun _ => rfl
  · refine Keeps.of_leads (leads_step _) ?_
    refine (keeps_hexUnit _).bind fun ⟨unit, s₁⟩ _ _ => ?_
    dsimp only
    split
    · exact blames_here nofun
    · split
      · exact keeps_secondHalf unit s₁
      · exact .refl _
  · split
    · exact leads_step _
    · exact blames_ahead nofun

theorem keeps_textFrom {clock : List Char} (taken : List Char) {s : Cursor}
    (h : s.rest.length ≤ clock.length) : Keeps Prod.snd s (textFrom clock taken s) := by
  induction clock generalizing taken s with
  | nil => exact blames_here fun _ => ended_of_noClock h
  | cons tick clock ih =>
    obtain ⟨p, rest⟩ := s
    unfold textFrom
    dsimp only
    split
    · exact blames_here fun _ => rfl
    · exact leads_step _
    · refine Keeps.of_leads (leads_step _) ?_
      refine (keeps_readEscape _).bind fun ⟨c, s₁⟩ _ hleads => ih _ ?_
      exact Nat.le_trans hleads.length_le (Nat.le_of_succ_le_succ h)
    · split
      · exact blames_ahead nofun
      · exact Keeps.of_leads (leads_step _) (ih _ (Nat.le_of_succ_le_succ h))

theorem keeps_readText (s : Cursor) : Keeps Prod.snd s (readText s) :=
  (keeps_textFrom [] (Nat.le_refl _)).bind fun _ _ _ => .refl _

theorem keeps_skipEscape (s : Cursor) : Keeps id s (skipEscape s) := by
  obtain ⟨p, rest⟩ := s
  unfold skipEscape
  dsimp only
  split
  · exact blames_here fun _ => rfl
  · exact Keeps.of_leads (leads_step _) ((keeps_hexUnit _).bind fun _ _ _ => .refl _)
  · split
    · exact leads_step _
    · exact blames_ahead nofun

theorem keeps_skipTextFrom {clock : List Char} {s : Cursor} (h : s.rest.length ≤ clock.length) :
    Keeps id s (skipTextFrom clock s) := by
  induction clock generalizing s with
  | nil => exact blames_here fun _ => ended_of_noClock h
  | cons tick clock ih =>
    obtain ⟨p, rest⟩ := s
    unfold skipTextFrom
    dsimp only
    split
    · exact blames_here fun _ => rfl
    · exact leads_step _
    · refine Keeps.of_leads (leads_step _) ?_
      refine (keeps_skipEscape _).bind fun s₁ _ hleads => ih ?_
      exact Nat.le_trans hleads.length_le (Nat.le_of_succ_le_succ h)
    · split
      · exact blames_here nofun
      · exact Keeps.of_leads (leads_step _) (ih (Nat.le_of_succ_le_succ h))

theorem keeps_skipText (s : Cursor) : Keeps id s (skipText s) :=
  keeps_skipTextFrom (Nat.le_refl _)

/-! ## Numbers -/

namespace Numeral

theorem keeps_scanWhole (atEnd : Problem) (s : Cursor) :
    Keeps Prod.snd s (scanWhole atEnd s) := by
  obtain ⟨p, rest⟩ := s
  unfold scanWhole
  dsimp only
  split
  · exact blames_here fun _ => rfl
  · split
    · exact (leads_step _).blames (blames_ahead nofun)
    · exact leads_step _
  · split
    · exact leads_dropWhile _ _
    · exact blames_ahead nofun

theorem keeps_scanFraction (atEnd : Problem) (s : Cursor) :
    Keeps Prod.snd s (scanFraction atEnd s) := by
  unfold scanFraction
  split
  · refine Keeps.of_leads (leads_step s) ?_
    split
    · next hend => exact blames_here fun _ => hend
    · split
      · exact leads_dropWhile _ _
      · exact blames_ahead nofun
  · exact .refl _

theorem leads_if_step (b : Bool) (s : Cursor) : s.Leads (if b then s.step else s) := by
  split
  · exact leads_step s
  · exact .refl s

theorem keeps_scanExponent (atEnd : Problem) (s : Cursor) :
    Keeps Prod.snd s (scanExponent atEnd s) := by
  unfold scanExponent
  dsimp only
  split
  · have hsign := leads_if_step (s.step.nextIs fun c => c == '+' || c == '-') s.step
    generalize (if s.step.nextIs fun c => c == '+' || c == '-' then s.step.step else s.step) = s₁
      at hsign ⊢
    refine Keeps.of_leads ((leads_step s).trans hsign) ?_
    split
    · next hend => exact blames_here fun _ => hend
    · split
      · exact leads_dropWhile _ _
      · exact blames_ahead nofun
  · exact .refl _

theorem keeps_scan (atEnd : Problem) (s : Cursor) : Keeps Prod.snd s (scan atEnd s) := by
  refine Keeps.of_leads (leads_if_step (s.nextIs (· == '-')) s) ?_
  refine (keeps_scanWhole atEnd _).bind fun ⟨whole, s₁⟩ _ _ => ?_
  refine (keeps_scanFraction atEnd s₁).bind fun ⟨fraction, s₂⟩ _ _ => ?_
  refine (keeps_scanExponent atEnd s₂).bind fun ⟨exponent, s₃⟩ _ _ => ?_
  exact .refl s₃

end Numeral

theorem keeps_readNumber (s : Cursor) : Keeps Prod.snd s (readNumber s) := by
  refine (Numeral.keeps_scan .endInValue s).bind fun ⟨numeral, s₁⟩ _ _ => ?_
  dsimp only
  split
  · exact .refl s₁
  · -- Further to the left on the line on which the number ends.
    refine ⟨Position.liesIn_of_le ?_ ?_ _, nofun⟩
    · rfl
    · exact Nat.sub_le _ _

/-! ## Tokens -/

theorem keeps_word (cs : List Char) (s : Cursor) : Keeps id s (word cs s) := by
  induction cs generalizing s with
  | nil => exact .refl s
  | cons c cs ih =>
    obtain ⟨p, rest⟩ := s
    unfold word
    dsimp only
    split
    · exact blames_here fun _ => rfl
    · split
      · exact Keeps.of_leads (leads_step _) (ih _)
      · exact blames_ahead nofun

theorem keeps_colon (s : Cursor) : Keeps id s (colon s) := by
  refine Keeps.of_leads (leads_skipBlank s) ?_
  unfold colon
  generalize s.skipBlank = s₁
  obtain ⟨p, rest⟩ := s₁
  dsimp only
  split
  · exact blames_ahead fun _ => rfl
  · exact leads_step _
  · exact blames_ahead nofun

/-! ## Values passed over -/

theorem keeps_enterItem (frame : Frame) (s : Cursor) : Keeps id s (frame.enterItem s) := by
  cases frame with
  | list => exact .refl s
  | object =>
    refine Keeps.of_leads (leads_skipBlank s) ?_
    unfold Frame.enterItem
    dsimp only
    generalize s.skipBlank = s₁
    obtain ⟨p, rest⟩ := s₁
    dsimp only
    split
    · exact blames_ahead fun _ => rfl
    · refine Keeps.of_leads (leads_step _) ?_
      exact (keeps_skipText _).bind fun s₂ _ _ => keeps_colon s₂
    · exact blames_ahead nofun

theorem keeps_enter (frame : Frame) (s : Cursor) : Keeps Prod.snd s (frame.enter s) := by
  refine Keeps.of_leads (leads_skipBlank s) ?_
  unfold Frame.enter
  dsimp only
  generalize s.skipBlank = s₁
  obtain ⟨p, rest⟩ := s₁
  dsimp only
  split
  · exact blames_ahead fun _ => rfl
  · split
    · exact leads_step _
    · exact (keeps_enterItem frame _).map fun _ => rfl

theorem keeps_skipHead (s : Cursor) : Keeps Prod.snd s (skipHead s) := by
  refine Keeps.of_leads (leads_skipBlank s) ?_
  unfold skipHead
  dsimp only
  generalize s.skipBlank = s₁
  obtain ⟨p, rest⟩ := s₁
  dsimp only
  split
  · exact blames_ahead fun _ => rfl
  · exact Keeps.of_leads (leads_step _) ((keeps_word _ _).map fun _ => rfl)
  · exact Keeps.of_leads (leads_step _) ((keeps_word _ _).map fun _ => rfl)
  · exact Keeps.of_leads (leads_step _) ((keeps_word _ _).map fun _ => rfl)
  · exact Keeps.of_leads (leads_step _) ((keeps_skipText _).map fun _ => rfl)
  · exact Keeps.of_leads (leads_step _) ((keeps_enter .list _).bind fun _ _ _ => .refl _)
  · exact Keeps.of_leads (leads_step _) ((keeps_enter .object _).bind fun _ _ _ => .refl _)
  · split
    · exact (Numeral.keeps_scan _ _).bind fun _ _ _ => .refl _
    · exact blames_ahead nofun

theorem Frame.expectedEnd_kind (frame : Frame) : frame.expectedEnd.kind ≠ .ended := by
  cases frame <;> nofun

theorem keeps_unwind (frames : List Frame) (s : Cursor) :
    Keeps Prod.snd s (unwind frames s) := by
  induction frames generalizing s with
  | nil => exact .refl s
  | cons frame frames ih =>
    refine Keeps.of_leads (leads_skipBlank s) ?_
    unfold unwind
    dsimp only
    generalize s.skipBlank = s₁
    obtain ⟨p, rest⟩ := s₁
    dsimp only
    split
    · exact blames_ahead fun _ => rfl
    · split
      · refine Keeps.of_leads (leads_step _) ?_
        exact (keeps_enterItem frame _).bind fun s₂ _ _ => .refl s₂
      · split
        · exact Keeps.of_leads (leads_step _) (ih _)
        · exact blames_ahead fun hended => absurd hended frame.expectedEnd_kind

theorem Begins.length_lt {opened : Option Frame} {s t : List Char} (h : Begins opened s t) :
    t.length < s.length := by
  cases opened with
  | none =>
    obtain ⟨d, s₁, hb, hd⟩ := h
    exact Nat.lt_of_lt_of_le hd.length_lt hb.length_le
  | some frame =>
    obtain ⟨s₁, hb, hitem⟩ := h
    have hlen := hb.length_le
    have hitem : t.length ≤ s₁.length := by
      cases frame with
      | list => exact Blanks.length_le hitem
      | object =>
        obtain ⟨key, s₂, s₃, hkey, hspelt, hcolon⟩ := hitem
        exact length_le_key hkey hspelt hcolon
    rw [List.length_cons] at hlen
    omega

theorem keeps_skipFrom {clock : List Char} (frames : List Frame) {s : Cursor}
    (h : s.rest.length ≤ clock.length) : Keeps id s (skipFrom clock frames s) := by
  induction clock generalizing frames s with
  | nil => exact blames_ahead fun _ => ended_of_noClock h
  | cons tick clock ih =>
    refine (keeps_skipHead s).bind fun ⟨opened, s₁⟩ hhead _ => ?_
    have hlen := (begins_of_skipHead hhead).length_lt
    have hclock : s₁.rest.length ≤ clock.length := by
      rw [List.length_cons] at h
      omega
    cases opened with
    | some frame => exact ih _ hclock
    | none =>
      refine (keeps_unwind frames s₁).bind fun ⟨frames', s₂⟩ _ hleads => ?_
      cases frames' with
      | nil => exact .refl s₂
      | cons frame frames' => exact ih _ (Nat.le_trans hleads.length_le hclock)

theorem keeps_skipValue (s : Cursor) : Keeps id s (skipValue s) :=
  keeps_skipFrom [] (Nat.le_refl _)

/-! ## Lists and objects -/

theorem blames_mismatch (expected : String) (s : Cursor) : s.Blames (mismatch expected s) := by
  have wrong (found : Found) (s : Cursor) : s.Blames (s.here (.wrongType found expected)) :=
    blames_here nofun
  -- A simple value is read before it is refused, and the place behind it is blamed.
  have afterWord (found : Found) {cs : List Char} {fault : Fault}
      (hok : ∀ s', word cs s.step = .ok s' → fault = s'.here (.wrongType found expected))
      (herror : ∀ fault', word cs s.step = .error fault' → fault = fault') : s.Blames fault := by
    refine (leads_step s).blames ((keeps_word cs _).blames (fun s' h => ?_) herror)
    rw [hok s' h]
    exact wrong found s'
  obtain ⟨p, rest⟩ := s
  unfold mismatch
  dsimp only
  split
  · exact blames_ahead fun _ => rfl
  · exact afterWord .null (fun s' h => by rw [h]) fun fault h => by rw [h]
  · exact afterWord (.boolean true) (fun s' h => by rw [h]) fun fault h => by rw [h]
  · exact afterWord (.boolean false) (fun s' h => by rw [h]) fun fault h => by rw [h]
  · have htext (cs : List Char) : Keeps Prod.snd ⟨p, '"' :: cs⟩
        ((readText (Cursor.step ⟨p, '"' :: cs⟩)).map fun r => (Found.text r.1, r.2)) :=
      Keeps.of_leads (leads_step _) ((keeps_readText _).map fun _ => rfl)
    refine (htext _).blames (fun r h => ?_) fun fault h => by rw [h]
    rw [h]
    exact wrong r.1 r.2
  · exact wrong .list _
  · exact wrong .object _
  · split
    · refine (keeps_readNumber _).blames (fun r h => ?_) fun fault h => by rw [h]
      rw [h]
      exact wrong r.1 r.2
    · exact blames_ahead nofun

theorem keeps_nextElement (first : Bool) (s : Cursor) :
    Keeps Prod.snd s (nextElement first s) := by
  refine Keeps.of_leads (leads_skipBlank s) ?_
  unfold nextElement
  dsimp only
  generalize s.skipBlank = s₁
  obtain ⟨p, rest⟩ := s₁
  dsimp only
  split
  · exact blames_ahead fun _ => rfl
  · exact .refl _
  · split
    · exact .refl _
    · split
      · refine Keeps.of_leads ((leads_step _).trans (leads_skipBlank _)) ?_
        split
        · next hend => exact blames_ahead fun _ => hend
        · exact blames_ahead nofun
        · exact .refl _
      · exact blames_ahead nofun

theorem keeps_endList (s : Cursor) : Keeps id s (endList s) := by
  refine Keeps.of_leads (leads_skipBlank s) ?_
  unfold endList
  dsimp only
  generalize s.skipBlank = s₁
  obtain ⟨p, rest⟩ := s₁
  dsimp only
  split
  · exact blames_ahead fun _ => rfl
  · exact leads_step _
  · refine Keeps.of_leads ((leads_step _).trans (leads_skipBlank _)) ?_
    split
    · exact blames_ahead nofun
    · exact blames_ahead nofun
  · exact blames_ahead nofun

theorem keeps_nextKey (first : Bool) (s : Cursor) : Keeps Prod.snd s (nextKey first s) := by
  refine Keeps.of_leads (leads_skipBlank s) ?_
  unfold nextKey
  dsimp only
  generalize s.skipBlank = s₁
  obtain ⟨p, rest⟩ := s₁
  dsimp only
  have key (s : Cursor) : Keeps Prod.snd s
      (readText s.step >>= fun r => .ok (some r.1, r.2) : Except Fault (Option String × Cursor)) :=
    Keeps.of_leads (leads_step s) ((keeps_readText _).bind fun _ _ _ => .refl _)
  split
  · exact blames_ahead fun _ => rfl
  · exact .refl _
  · split
    · split
      · exact key _
      · exact blames_ahead nofun
    · split
      · refine Keeps.of_leads ((leads_step _).trans (leads_skipBlank _)) ?_
        split
        · next hend => exact blames_ahead fun _ => hend
        · exact key _
        · exact blames_ahead nofun
        · exact blames_ahead nofun
      · exact blames_ahead nofun

theorem blames_duplicate (name : String) (s : Cursor) : s.Blames (duplicate name s) := by
  refine (leads_skipBlank s).blames ?_
  unfold duplicate
  dsimp only
  split
  · exact (leads_step _).blames (blames_here nofun)
  · exact blames_here nofun

/-- A reader that keeps to the text ahead of it, and takes some characters off it. -/
structure Advances {α : Type} (read : Cursor → Except Fault (α × Cursor)) : Prop where
  keeps : ∀ s, Keeps Prod.snd s (read s)
  length_lt : ∀ {s s' : Cursor} {a : α}, read s = .ok (a, s') → s'.rest.length < s.rest.length

theorem keeps_elements {α : Type} {item : Cursor → Except Fault (α × Cursor)}
    (hitem : Advances item) {clock : List Char} (first : Bool) (taken : List α) {s : Cursor}
    (h : s.rest.length ≤ clock.length) : Keeps Prod.snd s (elements item clock first taken s) := by
  induction clock generalizing first taken s with
  | nil => exact blames_ahead fun _ => ended_of_noClock h
  | cons tick clock ih =>
    unfold elements
    refine (keeps_nextElement first s).bind ?_
    rintro ⟨more, s₁⟩ - hnext
    cases more with
    | false => exact leads_step s₁
    | true =>
      refine (hitem.keeps s₁).bind ?_
      rintro ⟨a, s₂⟩ hread -
      refine ih _ _ ?_
      have hle := hnext.length_le
      have hlt := hitem.length_lt hread
      rw [List.length_cons] at h
      dsimp only at hle ⊢
      omega

theorem length_lt_of_nextKey {first : Bool} {s s' : Cursor} {name : String}
    (h : nextKey first s = .ok (some name, s')) : s'.rest.length < s.rest.length := by
  obtain ⟨key, s₁, hsep, hspelt⟩ := taken_of_nextKey h
  have hsep := hsep.length_le
  have hspelt := hspelt.length_le
  rw [List.length_cons] at hsep hspelt
  omega

theorem keeps_members {σ : Type} {member : String → σ → Cursor → Except Fault (σ × Cursor)}
    (hmember : ∀ key known s, Keeps Prod.snd s (member key known s)) {clock : List Char}
    (first : Bool) (known : σ) {s : Cursor} (h : s.rest.length ≤ clock.length) :
    Keeps Prod.snd s (members member clock first known s) := by
  induction clock generalizing first known s with
  | nil => exact blames_ahead fun _ => ended_of_noClock h
  | cons tick clock ih =>
    unfold members
    refine (keeps_nextKey first s).bind fun ⟨key?, s₁⟩ hkey _ => ?_
    cases key? with
    | none => exact leads_step s₁
    | some key =>
      refine (hmember key known s₁).bind fun ⟨known₁, s₂⟩ _ hread => ih _ _ ?_
      have hle := hread.length_le
      have hlt := length_lt_of_nextKey hkey
      rw [List.length_cons] at h
      dsimp only at hle ⊢
      omega

/-! ## Values -/

theorem keeps_readTag (s : Cursor) : Keeps Prod.snd s (readTag s) := by
  refine Keeps.of_leads (leads_skipBlank s) ?_
  unfold readTag
  dsimp only
  generalize s.skipBlank = s₁
  obtain ⟨p, rest⟩ := s₁
  dsimp only
  split
  · exact blames_ahead fun _ => rfl
  · exact Keeps.of_leads (leads_step _) (keeps_readText _)
  · refine Keeps.of_leads ((leads_step _).trans (leads_skipBlank _)) ?_
    split
    · next hend => exact blames_ahead fun _ => hend
    · refine Keeps.of_leads (leads_step _) ?_
      refine (keeps_readText _).bind fun ⟨name, s₂⟩ _ _ => ?_
      refine (keeps_colon s₂).bind fun s₃ _ _ => ?_
      refine Keeps.of_leads (leads_skipBlank s₃) ?_
      dsimp only [id]
      split
      · next hend => exact blames_ahead fun _ => hend
      · refine Keeps.of_leads (leads_step _) ?_
        refine (keeps_word _ _).bind fun s₄ _ _ => ?_
        refine Keeps.of_leads (leads_skipBlank s₄) ?_
        split
        · next hend => exact blames_here fun _ => hend
        · exact leads_step _
        · exact blames_here nofun
      · exact blames_mismatch "unit" _
    · exact blames_ahead nofun
  · exact blames_ahead nofun

theorem Shape.length_lt_read (shape : Shape) {s s' : Cursor} {v : shape.Value}
    (h : shape.read s = .ok (v, s')) : s'.rest.length < s.rest.length := by
  obtain ⟨d, s₁, hblanks, hd⟩ := shape.takesDocuments h
  exact Nat.lt_of_lt_of_le hd.length_lt hblanks.length_le

theorem keeps_text (s : Cursor) : Keeps Prod.snd s (Shape.text.read s) := by
  refine Keeps.of_leads (leads_skipBlank s) ?_
  unfold Shape.read
  dsimp only [Shape.Value]
  generalize s.skipBlank = s₁
  obtain ⟨p, rest⟩ := s₁
  dsimp only
  split
  · exact blames_ahead fun _ => rfl
  · exact Keeps.of_leads (leads_step _) (keeps_readText _)
  · exact blames_mismatch "a string" _

theorem keeps_optional {inner : Shape} (hinner : ∀ s, Keeps Prod.snd s (inner.read s))
    (s : Cursor) : Keeps Prod.snd s ((Shape.optional inner).read s) := by
  refine Keeps.of_leads (leads_skipBlank s) ?_
  unfold Shape.read
  dsimp only [Shape.Value]
  generalize s.skipBlank = s₁
  obtain ⟨p, rest⟩ := s₁
  dsimp only
  split
  · refine Keeps.of_leads (leads_step _) ?_
    exact (keeps_word _ _).bind fun s₂ _ _ => .refl s₂
  · exact (hinner _).bind fun ⟨v, s₂⟩ _ _ => .refl s₂

theorem keeps_list {item : Shape} (hitem : ∀ s, Keeps Prod.snd s (item.read s)) (s : Cursor) :
    Keeps Prod.snd s ((Shape.list item).read s) := by
  refine Keeps.of_leads (leads_skipBlank s) ?_
  unfold Shape.read
  dsimp only [Shape.Value]
  generalize s.skipBlank = s₁
  obtain ⟨p, rest⟩ := s₁
  dsimp only
  split
  · exact blames_ahead fun _ => rfl
  · refine Keeps.of_leads (leads_step _) ?_
    exact keeps_elements ⟨hitem, item.length_lt_read⟩ true [] (Nat.le_refl _)
  · exact blames_mismatch "a sequence" _

theorem keeps_record {fields : Fields}
    (horder : ∀ first s, Keeps Prod.snd s (fields.readInOrder first s))
    (hmember : ∀ key slots s, Keeps Prod.snd s (fields.readMember key slots s))
    (name : String) (whole : Bool) (s : Cursor) :
    Keeps Prod.snd s ((Shape.record name whole fields).read s) := by
  refine Keeps.of_leads (leads_skipBlank s) ?_
  unfold Shape.read
  dsimp only [Shape.Value]
  generalize s.skipBlank = s₁
  obtain ⟨p, rest⟩ := s₁
  dsimp only
  split
  · exact blames_ahead fun _ => rfl
  · refine Keeps.of_leads (leads_step _) ?_
    refine (horder true _).bind fun ⟨slots, s₂⟩ _ _ => ?_
    dsimp only
    split
    · exact (leads_step s₂).blames (blames_here nofun)
    · exact (keeps_endList s₂).bind fun s₃ _ _ => .refl s₃
  · refine Keeps.of_leads (leads_step _) ?_
    refine (keeps_members hmember true fields.noSlots (Nat.le_refl _)).bind ?_
    exact fun ⟨slots, s₂⟩ _ _ => .refl s₂
  · exact blames_mismatch _ _

mutual

/-- Whatever its shape, a value is read off the text ahead. -/
theorem Shape.keeps_read : (shape : Shape) → (s : Cursor) → Keeps Prod.snd s (shape.read s)
  | .text, s => keeps_text s
  | .tag, s => keeps_readTag s
  | .optional inner, s => keeps_optional inner.keeps_read s
  | .list item, s => keeps_list item.keeps_read s
  | .record name whole fields, s =>
    keeps_record fields.keeps_readInOrder fields.keeps_readMember name whole s

theorem Fields.keeps_readInOrder : (fields : Fields) → (first : Bool) → (s : Cursor) →
    Keeps Prod.snd s (fields.readInOrder first s)
  | .nil, _, s => .refl s
  | .cons name shape rest, first, s => by
    rw [Fields.readInOrder]
    refine (keeps_nextElement first s).bind fun ⟨more, s₁⟩ _ _ => ?_
    cases more with
    | false => exact .refl s₁
    | true =>
      refine (shape.keeps_read s₁).bind fun ⟨v, s₂⟩ _ _ => ?_
      exact (rest.keeps_readInOrder false s₂).bind fun ⟨slots, s₃⟩ _ _ => .refl s₃

theorem Fields.keeps_readMember : (fields : Fields) → (key : String) → (slots : fields.Slots) →
    (s : Cursor) → Keeps Prod.snd s (fields.readMember key slots s)
  | .nil, _, _, s => by
    refine (keeps_colon s).bind fun s₁ _ _ => ?_
    exact (keeps_skipValue s₁).bind fun s₂ _ _ => .refl s₂
  | .cons name shape rest, key, (slot, slots), s => by
    simp only [Fields.readMember]
    split
    · split
      · exact blames_duplicate name s
      · refine (keeps_colon s).bind fun s₁ _ _ => ?_
        exact (shape.keeps_read s₁).bind fun ⟨v, s₂⟩ _ _ => .refl s₂
    · exact (rest.keeps_readMember key slots s).bind fun ⟨slots, s₁⟩ _ _ => .refl s₁

end

end LegBoard.Json
