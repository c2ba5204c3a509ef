import LegBoard.Proofs.Json.Redressing
import LegBoard.Transit.Schema

/-!
# Accepted texts in another dress

Whatever type is read, a text may be given other blanks, other spellings of its characters, other
places for its members, members that nobody asks for, and no member where `null` says as much.
Nothing is said of the texts that are refused, nor of the fault that they are refused with.
-/
namespace LegBoard

open LegBoard.Json

/-- The value of an accepted text is the value of the text in any other dress. Every accepted text
holds a document, so there is something to be dressed. -/
theorem parse_redressed {α : Type} [Format α] {text : String} {a : α} (h : parse α text = .ok a) :
    (∃ d, Holds text d) ∧
    ∀ text', Redressed (Format.shape α) text text' → parse α text' = .ok a := by
  obtain ⟨v, hv, rfl⟩ := ok_of_map h
  refine ⟨Shape.holds_of_readAll hv, fun text' hdress => ?_⟩
  rw [parse, Shape.readAll_redressed hv hdress]
  rfl

open Transit

/-- A line as it is usually written. -/
def plainLine : String := "\x7b\"id\":\"A\",\"presentation\":\x7b\"colour\":null\x7d\x7d"

/-- The same line with other blanks and spellings, its members in another order, one that no line
knows, and one less that held `null`. -/
def dressedLine : String :=
  " \x7b\"presentation\":\x7b\x7d,\"x\":[\"\\uD800\"],\"i\\u0064\" : \"A\"\x7d"

def lineId : Units × Document := (unitsOfText "id", .text (unitsOfText "A"))

def linePresentation (ms : List (Units × Document)) : Units × Document :=
  (unitsOfText "presentation", .object ms)

/-- A member that no line knows, with half of a surrogate pair in it. -/
def lineNote : Units × Document := (unitsOfText "x", .list [.text [0xD800]])

theorem holds_plain :
    Holds plainLine (.object [lineId, linePresentation [(unitsOfText "colour", .null)]]) := by
  refine ⟨_, [], .nil _, .object (.cons (.first (.nil _)) (spelt_raw ['i', 'd'] (by decide))
    (.nil _) (.nil _) (.text (spelt_raw ['A'] (by decide))) ?_), .nil _⟩
  refine .cons (.comma (.nil _) (.nil _)) (spelt_raw "presentation".toList (by decide)) (.nil _)
    (.nil _) (.object (.cons (.first (.nil _)) (spelt_raw "colour".toList (by decide)) (.nil _)
    (.nil _) .null (.nil (.nil _)))) (.nil (.nil _))

theorem holds_dressed : Holds dressedLine (.object [linePresentation [], lineNote, lineId]) := by
  have hblank : ∀ t, Blanks (' ' :: t) t := fun t => ⟨[' '], List.all_eq_true.mp rfl, rfl⟩
  have hhalf : UnitDigits ['D', '8', '0', '0'] 0xD800 := ⟨rfl, by decide⟩
  have hletter : UnitDigits ['0', '0', '6', '4'] 'd'.toNat := ⟨rfl, by decide⟩
  refine ⟨_, [], hblank _, .object (.cons (.first (.nil _))
    (spelt_raw "presentation".toList (by decide)) (.nil _) (.nil _) (.object (.nil (.nil _))) ?_),
    .nil _⟩
  refine .cons (.comma (.nil _) (.nil _)) (spelt_raw ['x'] (by decide)) (.nil _) (.nil _)
    (.list (.cons (.first (.nil _)) (.text (.unit hhalf .nil)) (.nil (.nil _)))) ?_
  exact .cons (.comma (.nil _) (.nil _))
    (.raw (by decide) (by decide) (by decide) (.unit hletter .nil))
    (hblank _) (hblank _) (.text (spelt_raw ['A'] (by decide))) (.nil (.nil _))

theorem alters_line :
    Relation.ReflTransGen (Alters (some Line.shape))
      (.object [lineId, linePresentation [(unitsOfText "colour", .null)]])
      (.object [linePresentation [], lineNote, lineId]) := by
  have hread : Line.shape.ofMember? (unitsOfText "presentation") =
      some (.optional Presentation.shape) := by
    rw [Shape.ofMember?, textOf?_unitsOfText]
    rfl
  have hdelete : Alters (some Line.shape)
      (.object [lineId, linePresentation [(unitsOfText "colour", .null)]])
      (.object [lineId, linePresentation []]) := by
    refine .member [lineId] [] ?_
    rw [Option.bind_some, hread]
    exact .delete [] [] rfl (textOf?_unitsOfText "colour") rfl
  have hpermute : Alters (some Line.shape) (.object [lineId, linePresentation []])
      (.object [linePresentation [], lineId]) := .permute (.swap _ _ _)
  have hinsert : Alters (some Line.shape) (.object [linePresentation [], lineId])
      (.object [linePresentation [], lineNote, lineId]) :=
    .insert [linePresentation []] [lineId] rfl (textOf?_unitsOfText "x") (by decide)
  exact .tail (.tail (.single hdelete) hpermute) hinsert

/-- A line in two dresses. -/
theorem redressed_line :
    let line : Line := { id := some "A", presentation := some {} }
    parse Line plainLine = .ok line ∧ parse Line dressedLine = .ok line := by
  intro line
  have h : parse Line plainLine = .ok line := rfl
  exact ⟨h, (parse_redressed h).2 _ ⟨_, _, holds_plain, alters_line, holds_dressed⟩⟩

end LegBoard
