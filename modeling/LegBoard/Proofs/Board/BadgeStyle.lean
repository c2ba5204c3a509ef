import LegBoard.Board.Badge
import LegBoard.Proofs.Colour.Branding

/-!
# The style of a badge

A reader of styles cuts at every semicolon and then at every colon. In the style of a badge it finds
the same seven declarations for all legs, whatever a feed says a line's colour is: branding that is
read as a colour has neither mark in it, and any other is not written at all. What a browser makes
of a declaration is not described.
-/
namespace LegBoard.Board

open LegBoard.Text (isBlank)
open LegBoard.Text.Hex (value?)
open LegBoard.Transit (Leg)
open LegBoard.Colour (Rgb Parts blackText whiteText textColour)

/-! ## Declarations -/

/-- The declarations of a style, from what stands between its semicolons. A declaration is what
stands between its colons: a name and a value if there is one of them. -/
def declarations (style : String) : List (List String) :=
  (style.toList.splitOn ';').map fun d => (d.splitOn ':').map String.ofList

/-- The style that has given declarations. -/
def joined (ds : List (List String)) : String := ";".intercalate (ds.map fun d => ":".intercalate d)

/-- A part of a declaration that no reader cuts. -/
def IsPart (part : String) : Prop := ';' ∉ part.toList ∧ ':' ∉ part.toList

theorem splitOn_intercalate {mark : String} {c : Char} (hmark : mark.toList = [c])
    {parts : List String} (hne : parts ≠ []) (h : ∀ part ∈ parts, c ∉ part.toList) :
    ((mark.intercalate parts).toList.splitOn c).map String.ofList = parts := by
  have hlists : ∀ cs ∈ parts.map String.toList, c ∉ cs := by
    intro cs hcs
    obtain ⟨part, hpart, rfl⟩ := List.mem_map.mp hcs
    exact h part hpart
  rw [String.toList_intercalate, hmark, List.splitOn_intercalate c hlists (by simpa using hne),
    List.map_map]
  exact (List.map_congr_left fun part _ => String.ofList_toList).trans (List.map_id parts)

theorem not_mem_intercalate {mark : String} {c : Char} (hmark : c ∉ mark.toList)
    {parts : List String} (h : ∀ part ∈ parts, c ∉ part.toList) :
    c ∉ (mark.intercalate parts).toList := by
  induction parts with
  | nil => exact List.not_mem_nil
  | cons part parts ih =>
    obtain ⟨hpart, hparts⟩ := List.forall_mem_cons.mp h
    cases parts with
    | nil => simpa only [String.intercalate_singleton] using hpart
    | cons next parts =>
      rw [String.intercalate_cons_cons, String.toList_append, String.toList_append,
        List.mem_append, List.mem_append]
      rintro ((hc | hc) | hc)
      · exact hpart hc
      · exact hmark hc
      · exact ih hparts hc

/-- A style is read back if no name and no value has one of the two marks in it. -/
theorem declarations_joined {ds : List (List String)} (hne : ds ≠ []) (hds : ∀ d ∈ ds, d ≠ [])
    (h : ∀ d ∈ ds, ∀ part ∈ d, IsPart part) : declarations (joined ds) = ds := by
  have hcut : ∀ d ∈ ds.map (fun d => ":".intercalate d), ';' ∉ d.toList := by
    intro text htext
    obtain ⟨d, hd, rfl⟩ := List.mem_map.mp htext
    exact not_mem_intercalate (by decide) fun part hpart => (h d hd part hpart).1
  have hsemicolon : ";".toList = [';'] := rfl
  have hwhole := splitOn_intercalate hsemicolon (by simpa using hne) hcut
  have hparts : ∀ d ∈ ds, ((":".intercalate d).toList.splitOn ':').map String.ofList = d :=
    fun d hd => splitOn_intercalate rfl (hds d hd) fun part hpart => (h d hd part hpart).2
  have hlists := congrArg (List.map String.toList) hwhole
  simp only [List.map_map, Function.comp_def, String.toList_ofList, List.map_id'] at hlists
  rw [declarations, joined, hlists, List.map_map]
  exact (List.map_congr_left hparts).trans (List.map_id ds)

/-- The declarations that are the same for all badges. -/
def commonDeclarations : List (List String) :=
  [[" border-radius", " 7px"], [" padding", " 3px 6px"], [" text-decoration", " none"],
    [" max-width", " 14pt"], [" overflow", " elipsis"], [""]]

/-- The declarations of a badge in two colours. Nothing stands behind the last semicolon. -/
def badgeDeclarations (background foreground : String) : List (List String) :=
  ["background-color", " " ++ background] :: [" color", " " ++ foreground] :: commonDeclarations

theorem joined_commonDeclarations :
    ";" ++ joined commonDeclarations =
      "; border-radius: 7px; padding: 3px 6px; text-decoration: none; max-width: 14pt; " ++
        "overflow: elipsis;" := by decide +kernel

theorem joined_badgeDeclarations (background foreground : String) :
    joined (badgeDeclarations background foreground) =
      "background-color" ++ (":" ++ " ") ++ background ++ (";" ++ (" color" ++ (":" ++ " "))) ++
        foreground ++ (";" ++ joined commonDeclarations) := by
  simp only [joined, badgeDeclarations, commonDeclarations, List.map_cons, List.map_nil,
    String.intercalate_cons_cons, String.intercalate_singleton, String.append_assoc]

theorem styleOf_eq (background foreground : String) :
    Badge.styleOf background foreground = joined (badgeDeclarations background foreground) := by
  -- Each literal is cut on its own, by computation.
  have hname : "background-color" ++ (":" ++ " ") = "background-color: " := rfl
  have hcolour : ";" ++ (" color" ++ (":" ++ " ")) = "; color: " := rfl
  have hjoined := joined_badgeDeclarations background foreground
  rw [hname, hcolour, joined_commonDeclarations] at hjoined
  exact String.append_assoc.trans hjoined.symm

/-! ## Characters of a colour -/

/-- A character that can stand in a colour as it is written: a hash sign, a hexadecimal digit or a
blank. -/
def IsColourChar (c : Char) : Prop := c = '#' ∨ (value? c).isSome ∨ isBlank c = true

theorem isColourChar_of_parts {before hashes ds behind : List Char}
    (h : Parts before hashes ds behind) {c : Char} (hc : c ∈ before ++ (hashes ++ (ds ++ behind))) :
    IsColourChar c := by
  rcases List.mem_append.mp hc with hbefore | hc
  · exact .inr (.inr (h.before c hbefore))
  rcases List.mem_append.mp hc with hhash | hc
  · exact .inl (h.hashes c hhash)
  rcases List.mem_append.mp hc with hdigit | hbehind
  · exact .inr (.inl (h.block.isDigit c hdigit))
  · exact .inr (.inr (h.behind c hbehind))

/-- The background is either the branding behind a new hash sign, where the branding was read as a
colour, or one of the colours of the modes. -/
theorem isColourChar_ofLeg (leg : Leg) : ∀ c ∈ (Colour.ofLeg leg).toList, IsColourChar c := by
  have hmode : ∀ c ∈ (Colour.ofMode leg.mode).toList, IsColourChar c := by
    obtain ⟨ds, hds, hblock⟩ := Colour.isHashColour_ofMode leg.mode
    rw [hds, List.forall_mem_cons]
    exact ⟨.inl rfl, fun c hc => .inr (.inl (hblock.isDigit c hc))⟩
  cases hleg : leg.lineColour with
  | none =>
    rw [Colour.ofLeg, hleg]
    exact hmode
  | some colour =>
    rw [Colour.ofLeg_of_branding hleg]
    split
    · next hcolour =>
      rw [Colour.toList_withHash, List.forall_mem_cons]
      refine ⟨.inl rfl, fun c hc => ?_⟩
      obtain ⟨before, hashes, behind, hparts, hs⟩ := Rgb.exists_parts hcolour
      apply isColourChar_of_parts hparts
      rw [← hs]
      exact (List.dropWhile_sublist _).subset hc
    · exact hmode

theorem isPart_of_isColourChar {part : String} (h : ∀ c ∈ part.toList, IsColourChar c) :
    IsPart part := by
  constructor <;> intro hc <;> obtain hhash | hdigit | hblank := h _ hc
  all_goals contradiction

theorem textColour_cases (background : String) :
    textColour background = blackText ∨ textColour background = whiteText := by
  unfold textColour
  split
  · exact .inl rfl
  · split
    · exact .inl rfl
    · exact .inr rfl

/-! ## The style of a badge -/

theorem isPart_blank_append {part : String} (h : IsPart part) : IsPart (" " ++ part) := by
  have hlist : (" " ++ part).toList = ' ' :: part.toList := String.toList_append
  rw [IsPart, hlist, List.mem_cons, List.mem_cons]
  exact ⟨not_or.mpr ⟨by decide, h.1⟩, not_or.mpr ⟨by decide, h.2⟩⟩

theorem declarations_styleOf {background foreground : String} (hback : IsPart background)
    (hfore : IsPart foreground) :
    declarations (Badge.styleOf background foreground) =
      badgeDeclarations background foreground := by
  have hcommon : ∀ d ∈ commonDeclarations, d ≠ [] ∧ ∀ part ∈ d, IsPart part := by
    unfold IsPart
    decide
  have hparts : ∀ d ∈ badgeDeclarations background foreground,
      d ≠ [] ∧ ∀ part ∈ d, IsPart part := by
    have hname : IsPart "background-color" := by
      unfold IsPart
      decide
    have hcolour : IsPart " color" := by
      unfold IsPart
      decide
    simp only [badgeDeclarations, List.forall_mem_cons]
    exact ⟨⟨nofun, hname, isPart_blank_append hback, nofun⟩,
      ⟨nofun, hcolour, isPart_blank_append hfore, nofun⟩, hcommon⟩
  rw [styleOf_eq]
  exact declarations_joined nofun (fun d hd => (hparts d hd).1) fun d hd => (hparts d hd).2

theorem ofLeg_congr {leg leg' : Leg} (hmode : leg'.mode = leg.mode)
    (hcolour : leg'.lineColour = leg.lineColour) : Colour.ofLeg leg' = Colour.ofLeg leg := by
  rw [Colour.ofLeg, Colour.ofLeg, hmode, hcolour]

/-- The style of every badge has seven declarations, of which only the values of the first two
depend on the leg. The background consists of hash signs, hexadecimal digits and blanks, the text
is black or white, and both follow from the mode and the branding alone. -/
theorem style_ofLeg (explorer : Explorer) (leg : Leg) :
    (∃ background foreground : String,
      declarations (Badge.ofLeg explorer leg).style =
        [["background-color", " " ++ background], [" color", " " ++ foreground],
          [" border-radius", " 7px"], [" padding", " 3px 6px"], [" text-decoration", " none"],
          [" max-width", " 14pt"], [" overflow", " elipsis"], [""]] ∧
      (∀ c ∈ background.toList, c = '#' ∨ (value? c).isSome ∨ isBlank c = true) ∧
      (foreground = "#000000" ∨ foreground = "#ffffff")) ∧
    ∀ (explorer' : Explorer) (leg' : Leg), leg'.mode = leg.mode →
      leg'.lineColour = leg.lineColour →
      (Badge.ofLeg explorer' leg').style = (Badge.ofLeg explorer leg).style := by
  constructor
  · have hchars := isColourChar_ofLeg leg
    have hfore : IsPart (textColour (Colour.ofLeg leg)) := by
      unfold IsPart
      obtain htext | htext := textColour_cases (Colour.ofLeg leg) <;> rw [htext] <;> decide
    exact ⟨Colour.ofLeg leg, textColour (Colour.ofLeg leg),
      declarations_styleOf (isPart_of_isColourChar hchars) hfore, hchars, textColour_cases _⟩
  · intro explorer' leg' hmode hcolour
    show Badge.styleOf (Colour.ofLeg leg') (textColour (Colour.ofLeg leg')) =
      Badge.styleOf (Colour.ofLeg leg) (textColour (Colour.ofLeg leg))
    rw [ofLeg_congr hmode hcolour]

/-- Branding that begins as a colour and goes on with a declaration of its own is not written, and
neither the explorer nor the sign of the vehicle is seen in the style. -/
theorem style_ofLeg_of_semicolon :
    Colour.ofLeg (Colour.brandedLeg "fff;color:red") = "#fe0000" ∧
    (Badge.ofLeg ⟨some "https://explorer/?a"⟩
      { Colour.brandedLeg "fff;color:red" with
        toEstimatedCall := some { destinationDisplay := some { frontText := some "A;b:c" } } }).style =
      (Badge.ofLeg {} (Colour.brandedLeg "fff;color:red")).style := by
  obtain ⟨-, hsame⟩ := style_ofLeg {} (Colour.brandedLeg "fff;color:red")
  exact ⟨by decide +kernel, hsame _ _ rfl rfl⟩

end LegBoard.Board
