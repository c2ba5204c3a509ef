import Mathlib.Data.List.Forall2
import LegBoard.Proofs.Json.Reading

/-!
# Texts put together from the texts of values

A derivation of the grammar does not depend on what stands behind the text that it takes. So the
texts of values, with commas between them and brackets around them, hold the list of what they hold
one by one, and likewise with names before them and braces around them.
-/
namespace LegBoard.Json

/-! ## More text behind a derivation -/

theorem Blanks.append {s t : List Char} (h : Blanks s t) (u : List Char) :
    Blanks (s ++ u) (t ++ u) := by
  obtain ⟨blanks, hblanks, rfl⟩ := h
  exact ⟨blanks, hblanks, List.append_assoc ..⟩

theorem Spelt.append {units : Units} {s t : List Char} (h : Spelt units s t) (u : List Char) :
    Spelt units (s ++ u) (t ++ u) := by
  induction h with
  | nil => exact .nil
  | raw hquote hslash hcontrol _ ih => exact .raw hquote hslash hcontrol ih
  | short hletter _ ih => exact .short hletter ih
  | unit hdigits _ ih =>
    rw [List.cons_append, List.cons_append, List.append_assoc]
    exact .unit hdigits ih

theorem Separator.append {first : Bool} {s t : List Char} (h : Separator first s t)
    (u : List Char) : Separator first (s ++ u) (t ++ u) := by
  cases h with
  | first h => exact .first (h.append u)
  | comma before behind => exact .comma (before.append u) (behind.append u)

mutual

theorem Written.append : {d : Document} → {s t : List Char} → Written d s t → (u : List Char) →
    Written d (s ++ u) (t ++ u)
  | _, _, _, .null, _ => .null
  | _, _, _, .yes, _ => .yes
  | _, _, _, .no, _ => .no
  | _, _, _, .number h, u => by
    rw [List.append_assoc]
    exact .number h
  | _, _, _, .text h, u => .text (h.append u)
  | _, _, _, .list h, u => .list (h.append u)
  | _, _, _, .object h, u => .object (h.append u)

theorem Items.append : {first : Bool} → {ds : List Document} → {s t : List Char} →
    Items first ds s t → (u : List Char) → Items first ds (s ++ u) (t ++ u)
  | _, _, _, _, .nil h, u => .nil (h.append u)
  | _, _, _, _, .cons hsep hd rest, u => .cons (hsep.append u) (hd.append u) (rest.append u)

theorem Members.append : {first : Bool} → {ms : List (Units × Document)} → {s t : List Char} →
    Members first ms s t → (u : List Char) → Members first ms (s ++ u) (t ++ u)
  | _, _, _, _, .nil h, u => .nil (h.append u)
  | _, _, _, _, .cons hsep hkey hcolon hblanks hd rest, u =>
    .cons (hsep.append u) (hkey.append u) (hcolon.append u) (hblanks.append u) (hd.append u)
      (rest.append u)

end

/-- Behind the text of a value other text may follow. -/
theorem Holds.append {text : String} {d : Document} (h : Holds text d) (u : List Char) :
    ∃ s t, Blanks (text.toList ++ u) s ∧ Written d s t ∧ Blanks t u := by
  obtain ⟨s, t, hbefore, hd, hbehind⟩ := h
  exact ⟨s ++ u, t ++ u, hbefore.append u, hd.append u, hbehind.append u⟩

/-! ## Lists and objects of given values -/

/-- A list, from the texts of its items. -/
def listText (vs : List String) : String :=
  String.ofList ('[' :: commaSeparated (vs.map String.toList) ++ [']'])

/-- A member of an object, from its name as it stands between quotes and the text of its value. -/
def memberText (m : String × String) : List Char := '"' :: m.1.toList ++ '"' :: ':' :: m.2.toList

/-- An object, from its names and the texts of their values. -/
def objectText (ms : List (String × String)) : String :=
  String.ofList ('{' :: commaSeparated (ms.map memberText) ++ ['}'])

example : listText ["1", " null"] = "[1, null]" := by decide

example : objectText [("a", "1"), ("b", "[]")] = "\x7b\"a\":1,\"b\":[]\x7d" := by decide

/-- Whether a name stands for itself between quotes. -/
def isPlainName (name : String) : Bool :=
  name.toList.all fun c => c ≠ '"' ∧ c ≠ '\\' ∧ isControl c = false

/-- The members with given names, as a document has them. -/
def membersOf (names : List String) (ds : List Document) : List (Units × Document) :=
  (names.zip ds).map fun m => (unitsOfText m.1, m.2)

theorem separator_of_blanks {first : Bool} {s t u : List Char}
    (h : Blanks s ((if first then [] else [',']) ++ t)) (h' : Blanks t u) :
    Separator first s u := by
  cases first with
  | true => exact .first (h.trans h')
  | false => exact .comma h h'

/-- The texts of values hold the items of a list. The blanks in front are those behind the item
before. -/
theorem items_of_holds {vs : List String} {ds : List Document} (h : List.Forall₂ Holds vs ds)
    (rest : List Char) : ∀ {first : Bool} {s : List Char},
      Blanks s (separated first (vs.map String.toList) ++ rest) → Items first ds s rest := by
  induction h with
  | nil => exact fun hs => .nil hs
  | @cons v d vs ds hv _ ih =>
    intro first s hs
    have hsplit : separated first ((v :: vs).map String.toList) ++ rest =
        (if first then [] else [',']) ++
          (v.toList ++ (separated false (vs.map String.toList) ++ rest)) := by
      rw [List.map_cons, separated, List.append_assoc, List.append_assoc]
    rw [hsplit] at hs
    obtain ⟨s₁, s₂, hbefore, hd, hbehind⟩ := hv.append _
    exact .cons (separator_of_blanks hs hbefore) hd (ih hbehind)

theorem members_of_holds {vs : List String} {ds : List Document} (h : List.Forall₂ Holds vs ds)
    (rest : List Char) : ∀ {names : List String}, names.all isPlainName = true →
      ∀ {first : Bool} {s : List Char},
        Blanks s (separated first ((names.zip vs).map memberText) ++ rest) →
        Members first (membersOf names ds) s rest := by
  induction h with
  | nil =>
    intro names _ first s hs
    rw [List.zip_nil_right] at hs
    rw [membersOf, List.zip_nil_right]
    exact .nil hs
  | @cons v d vs ds hv _ ih =>
    intro names hnames first s hs
    cases names with
    | nil => exact .nil hs
    | cons name names =>
      rw [List.all_cons, Bool.and_eq_true] at hnames
      obtain ⟨hname, hnames⟩ := hnames
      have hsplit : separated first (((name :: names).zip (v :: vs)).map memberText) ++ rest =
          (if first then [] else [',']) ++ ('"' :: (name.toList ++ ('"' :: ':' ::
            (v.toList ++ (separated false ((names.zip vs).map memberText) ++ rest))))) := by
        rw [List.zip_cons_cons, List.map_cons, separated, memberText]
        simp only [List.append_assoc, List.cons_append]
      rw [hsplit] at hs
      obtain ⟨s₁, s₂, hbefore, hd, hbehind⟩ := hv.append _
      have hkey := spelt_raw (t := '"' :: ':' ::
        (v.toList ++ (separated false ((names.zip vs).map memberText) ++ rest))) _ hname
      exact .cons (separator_of_blanks hs (.nil _)) hkey (.nil _) hbefore hd (ih hnames hbehind)

/-- The texts of values, put together to a list, hold the list of what they hold. -/
theorem holds_listText {vs : List String} {ds : List Document} (h : List.Forall₂ Holds vs ds) :
    Holds (listText vs) (.list ds) := by
  have hitems : Items true ds _ [']'] := items_of_holds h [']'] (.nil _)
  refine ⟨_, [], .nil _, ?_, .nil _⟩
  rw [listText, String.toList_ofList, commaSeparated_eq]
  exact .list hitems

/-- Put together to an object, they hold the object of the same names and what they hold. -/
theorem holds_objectText {vs : List String} {ds : List Document} (h : List.Forall₂ Holds vs ds)
    {names : List String} (hnames : names.all isPlainName = true) :
    Holds (objectText (names.zip vs)) (.object (membersOf names ds)) := by
  have hmembers : Members true (membersOf names ds) _ ['}'] :=
    members_of_holds h ['}'] hnames (.nil _)
  refine ⟨_, [], .nil _, ?_, .nil _⟩
  rw [objectText, String.toList_ofList, commaSeparated_eq]
  exact .object hmembers

theorem exists_documents {vs : List String} (h : ∀ v ∈ vs, ∃ d, Holds v d) :
    ∃ ds, List.Forall₂ Holds vs ds := by
  induction vs with
  | nil => exact ⟨[], .nil⟩
  | cons v vs ih =>
    rw [List.forall_mem_cons] at h
    obtain ⟨⟨d, hd⟩, hvs⟩ := h
    obtain ⟨ds, hds⟩ := ih hvs
    exact ⟨d :: ds, .cons hd hds⟩

end LegBoard.Json
