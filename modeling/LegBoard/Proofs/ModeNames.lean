import LegBoard.Proofs.ListForms

/-!
# Names of modes

A feed may name a mode by a string, or by an object with the name as its only key and `null` as its
value. Either way the name alone decides which mode is read, however it is spelt, and no other text
is a mode. Seventeen names have a mode of their own, which has this name for its label and is
written by it; every other name stands for the unknown mode.
-/
namespace LegBoard

open LegBoard.Json

namespace Json

theorem tagOf?_eq_some_iff {d : Document} {name : String} :
    tagOf? d = some name ↔
      ∃ units, textOf? units = some name ∧ (d = .text units ∨ d = .object [(units, .null)]) := by
  constructor
  · intro h
    cases d with
    | text units => exact ⟨units, h, .inl rfl⟩
    | object ms =>
      obtain ⟨key, rfl⟩ := tagOf?_object_eq_some h
      exact ⟨key, h, .inr rfl⟩
    | null | boolean | number | list => cases h
  · rintro ⟨units, h, rfl | rfl⟩
    · exact h
    · exact h

end Json

namespace Transit

namespace Mode

/-- The names of the modes that are not unknown. -/
def knownNames : List String :=
  ["foot", "bicycle", "car", "scooter", "bus", "coach", "tram", "metro", "rail", "water", "air",
    "cableway", "funicular", "trolleybus", "monorail", "taxi", "lift"]

/-- Feeds and the page call every mode alike. -/
theorem name_eq_label (mode : Mode) : mode.name = mode.label := by
  cases mode <;> rfl

theorem map_name_known : known.map name = knownNames := rfl

theorem label_ofName {name : String} (h : name ∈ knownNames) : (ofName name).label = name := by
  rw [← map_name_known] at h
  obtain ⟨mode, hmode, hname⟩ := List.mem_map.mp h
  cases hfind : known.find? fun mode => mode.name == name with
  | none => simpa [hname] using List.find?_eq_none.mp hfind mode hmode
  | some found =>
    have hfound := List.find?_some hfind
    rw [← name_eq_label, ofName, hfind]
    exact beq_iff_eq.mp hfound

theorem ofName_eq_unknown {name : String} (h : name ∉ knownNames) : ofName name = unknown := by
  have hnone : known.find? (fun mode => mode.name == name) = none := by
    rw [List.find?_eq_none]
    intro mode hmode hname
    rw [← map_name_known] at h
    exact h (List.mem_map.mpr ⟨mode, hmode, beq_iff_eq.mp hname⟩)
  rw [ofName, hnone]
  rfl

theorem render_eq (mode : Mode) : render mode = "\"" ++ mode.label ++ "\"" := by
  rw [← name_eq_label]
  cases mode <;> decide

/-- A text names a mode, if it holds a string or an object of this form. -/
def Names (text name : String) : Prop :=
  ∃ units, textOf? units = some name ∧
    (Holds text (.text units) ∨ Holds text (.object [(units, .null)]))

theorem parse_eq_ok_iff_names {text : String} {mode : Mode} :
    parse Mode text = .ok mode ↔ ∃ name, Names text name ∧ ofName name = mode := by
  constructor
  · intro h
    obtain ⟨name, hname, hmode⟩ := ok_of_map h
    obtain ⟨d, hd, hvalue⟩ := Shape.readAll_eq_ok_iff.mp hname
    obtain ⟨units, hunits, hform⟩ := tagOf?_eq_some_iff.mp hvalue
    obtain rfl | rfl := hform
    · exact ⟨name, ⟨units, hunits, .inl hd⟩, hmode⟩
    · exact ⟨name, ⟨units, hunits, .inr hd⟩, hmode⟩
  · rintro ⟨name, ⟨units, hunits, hd | hd⟩, hmode⟩
    · exact (parse_eq_ok_iff hd).mpr ⟨name, hunits, hmode⟩
    · exact (parse_eq_ok_iff hd).mpr ⟨name, hunits, hmode⟩

end Mode

/-- What a name is read as, and how that is written again. -/
structure ReadAs (name : String) (mode : Mode) : Prop where
  /-- A string and an object of the name are read alike. -/
  parsed : ∀ text, Mode.Names text name → parse Mode text = .ok mode
  known : name ∈ Mode.knownNames → mode.label = name
  unknown : name ∉ Mode.knownNames → mode = .unknown ∧ mode.label = "unknown"
  written : render mode = "\"" ++ mode.label ++ "\""

end Transit

open Transit

/-- Every name stands for one mode. What names no mode is refused, and so is every object but those
of one member with the value `null`. -/
theorem modes_of_names :
    (∀ name, ∃ mode, ReadAs name mode) ∧
    (∀ text, (∀ name, ¬Mode.Names text name) → ∃ fault, parse Mode text = .error fault) ∧
    ∀ text ms, Holds text (.object ms) → (∀ key, ms ≠ [(key, .null)]) →
      ∃ fault, parse Mode text = .error fault := by
  refine ⟨fun name => ⟨Mode.ofName name, ?_⟩, fun text hnone => ?_, fun text ms hd hother => ?_⟩
  · constructor
    · intro text hnames
      exact Mode.parse_eq_ok_iff_names.mpr ⟨name, hnames, rfl⟩
    · exact Mode.label_ofName
    · intro h
      rw [Mode.ofName_eq_unknown h]
      exact ⟨rfl, rfl⟩
    · exact Mode.render_eq _
  · cases hparse : parse Mode text with
    | error fault => exact ⟨fault, rfl⟩
    | ok mode =>
      obtain ⟨name, hnames, -⟩ := Mode.parse_eq_ok_iff_names.mp hparse
      exact absurd hnames (hnone name)
  · refine parse_eq_error hd (Option.eq_none_iff_forall_ne_some.mpr fun name hname => ?_)
    obtain ⟨key, hms⟩ := tagOf?_object_eq_some hname
    exact hother key hms

/-- The name of a mode with an escape in it and as a key, the same name in other letters, and an
object with more than `null` in it. -/
theorem modes_of_bus :
    (∃ mode : Mode, parse Mode " \"b\\u0075s\"" = .ok mode ∧
      parse Mode "\x7b\"bus\": null\x7d" = .ok mode ∧ mode.label = "bus") ∧
    (∃ mode : Mode, parse Mode "\"BUS\"" = .ok mode ∧ mode = .unknown) ∧
    ∃ fault, parse Mode "\x7b\"bus\":true\x7d" = .error fault := by
  obtain ⟨hnames, -, hobjects⟩ := modes_of_names
  have hletter : UnitDigits ['0', '0', '7', '5'] 'u'.toNat := ⟨rfl, by decide⟩
  have hblank : ∀ t, Blanks (' ' :: t) t := fun t => ⟨[' '], List.all_eq_true.mp rfl, rfl⟩
  have hkey : ∀ t, Spelt (unitsOfText "bus") ('b' :: 'u' :: 's' :: t) t :=
    fun _ => spelt_raw ['b', 'u', 's'] (by decide)
  have hescaped : Mode.Names " \"b\\u0075s\"" "bus" :=
    ⟨_, textOf?_unitsOfText "bus", .inl ⟨_, [], hblank _, .text (.raw (by decide) (by decide)
      (by decide) (.unit hletter (spelt_raw ['s'] (by decide)))), .nil _⟩⟩
  have hmember : Mode.Names "\x7b\"bus\": null\x7d" "bus" :=
    ⟨_, textOf?_unitsOfText "bus", .inr ⟨_, [], .nil _, .object (.cons (.first (.nil _)) (hkey _)
      (.nil _) (hblank _) .null (.nil (.nil _))), .nil _⟩⟩
  have hcapitals : Mode.Names "\"BUS\"" "BUS" :=
    ⟨_, textOf?_unitsOfText "BUS", .inl (holds_quoted (by decide) (by decide))⟩
  have htrue : Holds "\x7b\"bus\":true\x7d" (.object [(unitsOfText "bus", .boolean true)]) :=
    ⟨_, [], .nil _, .object (.cons (.first (.nil _)) (hkey _) (.nil _) (.nil _) .yes
      (.nil (.nil _))), .nil _⟩
  refine ⟨?_, ?_, hobjects _ _ htrue fun key => by simp⟩
  · obtain ⟨mode, hmode⟩ := hnames "bus"
    exact ⟨mode, hmode.parsed _ hescaped, hmode.parsed _ hmember, hmode.known (by decide)⟩
  · obtain ⟨mode, hmode⟩ := hnames "BUS"
    exact ⟨mode, hmode.parsed _ hcapitals, (hmode.unknown (by decide)).1⟩

end LegBoard
